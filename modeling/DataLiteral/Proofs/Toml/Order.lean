import DataLiteral.Proofs.Toml.Decoded
import DataLiteral.Proofs.Toml.Mention

set_option autoImplicit false

namespace DataLiteral.Toml

theorem orConflict_ok {α : Type} {path : Path} {found : Option α} {a : α}
    (h : orConflict path found = .ok a) : found = some a := by
  cases found with
  | none => cases h
  | some b => cases h; rfl

theorem resolve_ok {target : Target} {path : Path} (h : target.resolve = .ok path) :
    target = .keys path := by
  cases target with
  | keys found =>
    rw [Target.resolve] at h
    split at h <;> cases h
    rfl
  | unreadable offset => cases h

theorem Table.view_define {table defined : Table} {path : Path} {item : Item}
    (h : table.define path item = .ok defined) :
    table.view.below (path.address table.view.tables) = .empty ∧
      defined.view = table.view.put (path.address table.view.tables) item.view := by
  have found := orConflict_ok h
  rw [define?, Option.map_eq_some_iff] at found
  obtain ⟨⟨_, _⟩, altered, rfl⟩ := found
  obtain ⟨old, new, changed, before, after⟩ := view_alter? altered
  split at changed
  next => cases changed
  next allowed =>
    cases changed
    simp only [not_or, Option.not_isSome_iff_eq_none] at allowed
    have absent := below_view_entry old path.key.name
    rw [allowed.2, Option.elim_none] at absent
    rw [Path.address, View.below_append, View.put_append, ← before]
    exact ⟨absent, after.trans (congrArg _ (view_push allowed.2))⟩

theorem place_under (place other : Place) (table : Address) (addresses : List Address)
    (keys : List Text) :
    ((addresses.map (other :: ·)).map .value).foldl (Toml.place (place :: table)) keys =
      if place = other then (addresses.map .value).foldl (Toml.place table) keys else keys := by
  simp only [List.foldl_map, place_value, keyBelow]
  split
  next => rfl
  next => exact List.foldl_fixed _

theorem placed_itemMentions (nodes : List Node) (index : Nat) (place : Place) (table : Address)
    (keys : List Text) :
    ((itemMentions index nodes).map .value).foldl (Toml.place (place :: table)) keys =
      match place with
      | .entry _ => keys
      | .item i =>
          if i < index then keys
          else (nodes[i - index]?).elim keys fun node =>
            (node.mentions.map .value).foldl (Toml.place table) keys := by
  induction nodes generalizing index keys with
  | nil => cases place <;> simp [itemMentions]
  | cons node rest ih =>
    rw [itemMentions, List.map_append, List.foldl_append, place_under, ih]
    cases place with
    | entry key => rw [if_neg (by simp)]
    | item i =>
      rcases Nat.lt_trichotomy i index with less | rfl | more
      next => simp [less, Nat.ne_of_lt less, Nat.lt_succ_of_lt less]
      next => simp
      next =>
        obtain ⟨gap, rfl⟩ := Nat.exists_eq_add_of_lt more
        have other : Place.item (index + gap + 1) ≠ .item index := by
          simp only [ne_eq, Place.item.injEq]
          omega
        have first : ¬ index + gap + 1 < index := by omega
        have later : ¬ index + gap + 1 < index + 1 := by omega
        have shift : index + gap + 1 - index = gap + 1 := by omega
        have shift' : index + gap + 1 - (index + 1) = gap := by omega
        simp only [other, first, later, shift, shift', if_false, List.getElem?_cons_succ]

theorem placed_itemMentions_nil (nodes : List Node) (index : Nat) (keys : List Text) :
    ((itemMentions index nodes).map .value).foldl (Toml.place []) keys = keys := by
  induction nodes generalizing index with
  | nil => rfl
  | cons node rest ih =>
    have first : ((node.mentions.map (.item index :: ·)).map .value).foldl (Toml.place []) keys =
        keys := by
      simp only [List.foldl_map, place_value, keyBelow, note]
      exact List.foldl_fixed _
    rw [itemMentions, List.map_append, List.foldl_append, first, ih]

theorem getElem?_of_forall₂ {α β : Type} {R : α → β → Prop} {xs : List α} {ys : List β}
    (h : List.Forall₂ R xs ys) (i : Nat) :
    xs[i]? = none ∧ ys[i]? = none ∨ ∃ x y, xs[i]? = some x ∧ ys[i]? = some y ∧ R x y := by
  induction h generalizing i with
  | nil => exact .inl ⟨rfl, rfl⟩
  | cons first _ ih =>
    cases i with
    | zero => exact .inr ⟨_, _, rfl, rfl, first⟩
    | succ i => simpa using ih i

theorem view_array {nodes : List Node} {items : List Item} (span : Text.Span)
    (h : List.Forall₂ (fun node item => item.view = seen (node.mentions.map .value)) nodes items) :
    (Item.array span false items).view = seen ((itemMentions 0 nodes).map .value) := by
  have flat := tables_values (itemMentions 0 nodes)
  refine View.ext_step ?_ ?_ ?_
  next => exact (placed_itemMentions_nil nodes 0 []).symm
  next => exact (congrFun flat []).symm
  next =>
    intro place
    rw [Item.below_view]
    ext1 <;> funext table
    next =>
      refine Eq.trans ?_ (placed_itemMentions nodes 0 place table []).symm
      cases place with
      | entry key => rfl
      | item i =>
        rcases getElem?_of_forall₂ h i with ⟨none₁, none₂⟩ | ⟨node, item, some₁, some₂, same⟩
        next => simp [Item.child?, none₁, none₂, View.empty]
        next => simp [Item.child?, some₁, some₂, same, seen, placed]
    next =>
      refine Eq.trans ?_ (congrFun flat (place :: table)).symm
      cases place with
      | entry key => rfl
      | item i =>
        rcases getElem?_of_forall₂ h i with ⟨_, none₂⟩ | ⟨node, item, _, some₂, same⟩
        next => simp [Item.child?, none₂, View.empty]
        next => simp [Item.child?, some₂, same, seen, tables_values]

mutual

theorem view_node : ∀ {node : Node} {item : Item}, node.toItem = .ok item →
    item.view = seen (node.mentions.map .value)
  | .scalar span value, item, h => by
    cases h
    exact Item.view_scalar span value
  | .unreadable offset, item, h => by cases h
  | .array span nodes, item, h => by
    obtain ⟨items, read, same⟩ := ok_of_bind h
    cases same
    exact view_array span (view_nodeItems read)
  | .braces span entries, item, h => by
    obtain ⟨table, read, same⟩ := ok_of_bind h
    cases same
    rw [Table.view_toItem]
    exact view_nodeTable [] read (Table.view_empty .inline)

theorem view_nodeItems : ∀ {nodes : List Node} {items : List Item}, nodeItems nodes = .ok items →
    List.Forall₂ (fun node item => item.view = seen (node.mentions.map .value)) nodes items
  | [], _, h => by
    cases h
    exact .nil
  | node :: rest, _, h => by
    obtain ⟨item, first, h⟩ := ok_of_bind h
    obtain ⟨items, later, same⟩ := ok_of_bind h
    cases same
    exact .cons (view_node first) (view_nodeItems later)

theorem view_nodeTable : ∀ {entries : List (Target × Node)} {table filled : Table}
    (before : List Address), nodeTable table entries = .ok filled →
    table.view = seen (before.map .value) →
    filled.view = seen ((before ++ entryMentions entries).map .value)
  | [], _, _, before, h, start => by
    cases h
    rw [entryMentions, List.append_nil, start]
  | (target, node) :: rest, table, _, before, h, start => by
    obtain ⟨path, resolved, h₁⟩ := ok_of_bind h
    obtain ⟨item, own, h₂⟩ := ok_of_bind h₁
    obtain ⟨next, defined, h₃⟩ := ok_of_bind h₂
    obtain rfl := resolve_ok resolved
    obtain ⟨fresh, put⟩ := Table.view_define defined
    have flat : table.view.tables = fun _ => 0 := by
      rw [start]
      exact tables_values before
    rw [flat, start] at fresh put
    rw [view_node own, ← seen_value _ fresh] at put
    have later := view_nodeTable (before ++ path.address (fun _ => 0) ::
      node.mentions.map (path.address (fun _ => 0) ++ ·)) h₃
      (by simpa [Function.comp_def] using put)
    simpa [entryMentions] using later

end

theorem inside_congr {first second : Address → Nat} {address : Address}
    (h : first address = second address) : inside first address = inside second address := by
  simp only [inside, h]

theorem follow_put (path : List Key) (v w : View) (own : w.tables [] = 0) :
    follow (v.put (follow v.tables path) w).tables path = follow v.tables path := by
  induction path generalizing v with
  | nil => rfl
  | cons key path ih =>
    rw [follow_cons v]
    generalize same : v.below [.entry key.name] = u
    generalize last : inside u.tables [] = here
    generalize rest : follow (u.below here).tables path = later
    have under : (v.put ([.entry key.name] ++ (here ++ later)) w).below [.entry key.name] =
        u.put (here ++ later) w := by
      rw [View.put_append, View.below_put, same]
    have kept : (u.put (here ++ later) w).tables [] = u.tables [] := by
      cases shape : here ++ later with
      | nil =>
        rw [View.put_nil, own]
        rw [inside] at last
        split at last
        next none' => exact none'.symm
        next => simp [← last] at shape
      | cons place address => exact View.tables_put_of_off (by simp) u w
    have again := (inside_congr kept).trans last
    have below : (u.put (here ++ later) w).below here = (u.below here).put later w := by
      rw [View.put_append, View.below_put]
    rw [follow_cons, under, again, below, ← rest, ih]

section

variable {log : List Mention} {path address : Address} {table : Address}

theorem keyBelow_concat_item (table path : Address) (index : Nat) :
    keyBelow table (path ++ [.item index]) = keyBelow table path := by
  apply Option.ext
  intro key
  simp only [keyBelow_eq_some]
  constructor
  next =>
    intro inside
    rcases List.prefix_concat_iff.mp inside with same | shorter
    next => simp at same
    next => exact shorter
  next => exact fun inside => inside.trans (List.prefix_append path _)

theorem put_below_self {v : View}
    (noted : ∀ table, ∀ key ∈ keyBelow table path, key ∈ v.keys table) :
    v.put path (v.below path) = v := by
  apply View.ext_at path
  next => rw [View.below_put]
  next =>
    intro table off
    rw [View.keys_put_of_off off, note_of_mem (noted table)]
  next => exact fun table off => View.tables_put_of_off off _ _

theorem noted_of_mem {mention : Mention} (member : mention ∈ log)
    (way : ∀ table, keyBelow table path = keyBelow table mention.address) :
    ∀ table, ∀ key ∈ keyBelow table path, key ∈ (seen log).keys table := by
  intro table key below
  rw [Option.mem_def, way] at below
  exact mem_placed.mpr ⟨mention, member, below⟩

end

/-- A document with what it mentions. Any table could stand in the place of the open one: if the
document can then be closed, the root is what is seen, with that table where the open one is. -/
structure Follows (document : Document) (account : Account) : Prop where
  closed : ∀ current root, ({ document with current := current } : Document).close = .ok root →
    document.current.view = (seen account.log).below account.opened ∧
      root.view = (seen account.log).put account.opened current.view
  noted : ∀ table, ∀ key ∈ keyBelow table account.opened, key ∈ (seen account.log).keys table

namespace Follows

variable {document next : Document} {account : Account} {root : Table}

theorem view_close (h : Follows document account) (closed : document.close = .ok root) :
    root.view = seen account.log := by
  obtain ⟨current, whole⟩ := h.closed document.current root closed
  rw [whole, current, put_below_self h.noted]

theorem start : Follows .start ⟨[], []⟩ where
  closed current root h := by
    cases h
    exact ⟨Table.view_empty .header, (View.put_nil _ _).symm⟩
  noted table key below := by
    cases table <;> cases below

theorem add_definition (h : Follows document account) {target : Target} {node : Node}
    (added : document.add (.definition target node) = .ok next) :
    Follows next (account.add (.definition target node)) := by
  obtain ⟨path, resolved, h₁⟩ := ok_of_bind added
  obtain ⟨item, own, h₂⟩ := ok_of_bind h₁
  obtain ⟨current, defined, same⟩ := ok_of_bind h₂
  cases same
  obtain rfl := resolve_ok resolved
  obtain ⟨fresh, put⟩ := Table.view_define defined
  refine ⟨fun other root closed => ?_, ?_⟩
  next =>
    obtain ⟨before, whole⟩ := h.closed other root closed
    rw [before] at fresh put
    rw [← View.below_append] at fresh
    have seen_next := seen_value node.mentions fresh
    rw [View.put_append, ← view_node own, ← put] at seen_next
    constructor
    next =>
      refine Eq.trans ?_ (congrArg (View.below · account.opened) seen_next).symm
      rw [View.below_put]
    next =>
      refine whole.trans (Eq.trans ?_
        (congrArg (View.put · account.opened other.view) seen_next).symm)
      rw [View.put_put]
  next =>
    intro table key below
    obtain ⟨mention, member, way⟩ := mem_placed.mp (h.noted table key below)
    exact mem_placed.mpr ⟨mention, List.mem_append_left _ member, way⟩

end Follows

theorem view_reopen? {key : Key} {parent left : Table} {entries : List (Key × Item)}
    (h : Document.reopen? key parent = some (left, entries)) :
    left.view.keys [] = (parent.view.keys []).erase key.name ∧
      (∀ place, place ≠ .entry key.name → left.view.below [place] = parent.view.below [place]) ∧
      ∀ origin, (⟨origin, entries⟩ : Table).view = parent.view.below [.entry key.name] := by
  have under := Table.below_view_entry parent key.name
  simp only [Document.reopen?] at h
  split at h
  next absent =>
    rw [absent, Option.elim_none] at under
    have missing : key.name ∉ parent.names := Table.find?_eq_none.mp absent
    cases h
    exact ⟨(List.erase_of_not_mem missing).symm, fun _ _ => rfl,
      fun origin => (Table.view_empty origin).trans under.symm⟩
  next span kept present =>
    cases h
    rw [present, Option.elim_some] at under
    refine ⟨Table.names_erase, fun place other => ?_, fun origin => ?_⟩
    next =>
      cases place with
      | item index => rw [Table.below_view_item, Table.below_view_item]
      | entry name =>
        have apart : name ≠ key.name := fun same => other (congrArg _ same)
        rw [Table.below_view_entry, Table.below_view_entry, Table.get?, Table.get?,
          Table.find?_erase_of_ne apart]
    next =>
      rw [Table.view_origin, ← Table.view_toItem _ span]
      exact under.symm
  next => cases h

section

variable {log : List Mention} {mention : Mention} {path : Address}

theorem put_seen (w : View)
    (way : ∀ table, ¬ path <+: table → keyBelow table mention.address = keyBelow table path)
    (table : ∀ table key, ¬ path <+: table → mention ≠ .table (table ++ [.entry key]))
    (item : ∀ table, ¬ path <+: table → mention ≠ .item table) :
    (seen (log ++ [mention])).put path w = (seen log).put path w := by
  apply View.ext_at path
  next => rw [View.below_put, View.below_put]
  next =>
    intro other off
    rw [View.keys_put_of_off off, View.keys_put_of_off off]
    simp only [seen, placed_concat, place, way other off]
    cases keyBelow other path with
    | none => rfl
    | some name => simp only [table other name off, if_false, note_note]
  next =>
    intro other off
    rw [View.tables_put_of_off off, View.tables_put_of_off off]
    exact tables_concat_of_ne (item other off)

theorem below_seen (mention : Mention) (deeper : mention.address.length ≤ path.length)
    (other : mention ≠ .item path) :
    (seen (log ++ [mention])).below path = (seen log).below path := by
  have longer (inner : Address) : mention.address.length ≤ (path ++ inner).length := by
    rw [List.length_append]
    omega
  ext1 <;> funext inner
  next =>
    simp only [View.below, seen, placed_concat, place, keyBelow_eq_none (longer inner)]
  next =>
    refine tables_concat_of_ne ?_
    rintro rfl
    have here : inner.length = 0 := by
      rw [Mention.address, List.length_append] at deeper
      omega
    simp [List.length_eq_zero_iff.mp here] at other

end

section

variable {log : List Mention} (path : Address) (key : Text)

theorem put_seen_table (w : View) :
    (seen (log ++ [.table (path ++ [.entry key])])).put path w = (seen log).put path w := by
  refine put_seen w (fun _ off => keyBelow_append_of_off off _) ?_ (by simp)
  intro table name off same
  exact off (List.append_inj_left' (Mention.table.inj same) rfl ▸ List.prefix_refl path)

theorem keys_seen_table :
    (seen (log ++ [.table (path ++ [.entry key])])).keys path =
      ((seen log).keys path).erase key ++ [key] := by
  have below := keyBelow_append path [] [.entry key]
  rw [List.append_nil] at below
  simp [seen, placed_concat, place, Mention.address, below, keyBelow]

theorem put_table {path : Address} {key : Text} {left : View} (w : View)
    (names : left.keys [] = ((seen log).keys path).erase key)
    (tables : left.tables [] = (seen log).tables path)
    (others : ∀ place, place ≠ .entry key →
      left.below [place] = (seen log).below (path ++ [place])) :
    (seen log).put path (left.put [.entry key] w) =
      (seen (log ++ [.table (path ++ [.entry key])])).put (path ++ [.entry key]) w := by
  have missing : key ∉ left.keys [] := by
    rw [names]
    exact (nodup_placed log path).not_mem_erase
  rw [View.put_append, put_seen_table]
  congr 1
  refine View.ext_step ?_ ?_ ?_
  next =>
    have own : (seen (log ++ [.table (path ++ [.entry key])])).keys path =
        ((seen log).keys path).erase key ++ [key] := keys_seen_table path key
    rw [View.keys_put_singleton, View.keys_put_singleton, note, if_neg missing, names, View.below,
      note_of_mem] <;> simp [own]
  next =>
    rw [View.tables_put_singleton, View.tables_put_singleton, tables]
    simp [View.below, seen, Toml.tables]
  next =>
    intro place
    by_cases same : place = .entry key
    next =>
      subst same
      rw [View.below_put, View.below_put]
    next =>
      rw [View.below_put_singleton same, View.below_put_singleton same, others place same,
        ← View.below_append, below_seen (.table _) (by simp [Mention.address]) (by simp)]

end

theorem view_joined {root current joined : Table} {header : Header}
    (h : (⟨root, some header, current⟩ : Document).close = .ok joined) :
    ∃ parent changed, Document.append? header current parent = some (changed, ()) ∧
      parent.view = root.view.below (follow root.view.tables header.path.parents) ∧
      joined.view = root.view.put (follow root.view.tables header.path.parents) changed.view := by
  obtain ⟨⟨_, _⟩, altered, rfl⟩ := Option.map_eq_some_iff.mp (orConflict_ok h)
  exact Table.view_alter? altered

theorem view_rejoined {log : List Mention} {base : Address} {header : Header}
    {rest root current joined : Table} (single : header.isArray = false)
    (way : follow (seen log).tables header.path.parents = base)
    (none' : (seen log).tables base = 0)
    (keys : rest.view.keys [] = ((seen log).keys base).erase header.path.key.name)
    (others : ∀ place, place ≠ .entry header.path.key.name →
      rest.view.below [place] = (seen log).below (base ++ [place]))
    (left : root.view = (seen log).put base rest.view)
    (h : (⟨root, some header, current⟩ : Document).close = .ok joined) :
    joined.view =
      (seen (log ++ [.table (base ++ [.entry header.path.key.name])])).put
        (base ++ [.entry header.path.key.name]) current.view := by
  obtain ⟨parent, changed, appended, before, after⟩ := view_joined h
  have again : follow root.view.tables header.path.parents = base := by
    rw [left, ← way]
    exact follow_put header.path.parents _ rest.view rfl
  rw [again, left, View.below_put] at before
  rw [again, left, View.put_put] at after
  simp only [Document.append?, single, Bool.false_eq_true, if_false] at appended
  cases appended
  have absent : parent.get? header.path.key.name = none := by
    apply Table.find?_eq_none.mpr
    change header.path.key.name ∉ parent.view.keys []
    rw [before, keys]
    exact (nodup_placed _ _).not_mem_erase
  rw [after, Table.view_push absent, Table.view_toItem, before]
  exact put_table current.view keys none'.symm others

theorem Follows.add_header {document next : Document} {account : Account}
    (h : Follows document account) {span : Text.Span} {target : Target}
    (added : document.add (.header span false target) = .ok next) :
    Follows next (account.add (.header span false target)) := by
  obtain ⟨root, closed, h₁⟩ := ok_of_bind added
  obtain ⟨path, resolved, h₂⟩ := ok_of_bind h₁
  obtain rfl := resolve_ok resolved
  obtain ⟨⟨left, entries⟩, opened, same⟩ := ok_of_bind h₂
  cases same
  obtain ⟨parent, rest, reopened, before, after⟩ := Table.view_alter? (orConflict_ok opened)
  obtain ⟨keys, others, own⟩ := view_reopen? reopened
  rw [h.view_close closed] at before after
  generalize way : follow (seen account.log).tables path.parents = base at before after
  have none' : (seen account.log).tables base = 0 := by
    rw [← View.tables_below_nil, ← before, Table.tables_view]
  rw [before, View.keys_below_nil] at keys
  simp only [before, ← View.below_append] at others own
  have account' : account.add (.header span false (.keys path)) =
      ⟨account.log ++ [.table (base ++ [.entry path.key.name])],
        base ++ [.entry path.key.name]⟩ := by
    rw [← way]
    rfl
  rw [account']
  refine ⟨fun current joined close => ⟨?_, ?_⟩, ?_⟩
  next => exact (own .header).trans (below_seen (.table _) (Nat.le_refl _) (by simp)).symm
  next => exact view_rejoined rfl way none' keys others after close
  next =>
    exact noted_of_mem (List.mem_append_right _ (List.mem_singleton.mpr rfl)) fun _ => rfl

theorem view_append_item {header : Header} {current parent changed : Table}
    (isArray : header.isArray = true)
    (h : Document.append? header current parent = some (changed, ())) :
    ∃ span items,
      (Item.array span true items).view = parent.view.below [.entry header.path.key.name] ∧
      changed.view = parent.view.put [.entry header.path.key.name]
        (Item.array span true (items ++ [current.toItem header.span])).view := by
  have under := Table.below_view_entry parent header.path.key.name
  simp only [Document.append?, isArray, if_true] at h
  split at h
  next absent =>
    cases h
    rw [absent, Option.elim_none] at under
    exact ⟨header.span, [], (Item.view_array_nil _ _).trans under.symm, Table.view_push absent⟩
  next span items present =>
    cases h
    rw [present, Option.elim_some] at under
    exact ⟨span, items, under.symm, Table.view_replace present⟩
  next => cases h

section

variable {log : List Mention} (path : Address)

theorem tables_of_view {span : Text.Span} {items : List Item}
    (h : (Item.array span true items).view = (seen log).below path) :
    tables log path = items.length := by
  have length := Item.tables_view (.array span true items)
  rwa [h, View.tables_below_nil] at length

theorem below_seen_item {span : Text.Span} {items : List Item}
    (h : (Item.array span true items).view = (seen log).below path) :
    (seen (log ++ [.item path])).below (path ++ [.item (tables log path)]) = .empty := by
  rw [below_seen (.item path) (by simp [Mention.address]) (by simp), View.below_append, ← h,
    Item.below_view, Item.child?, tables_of_view path h, List.getElem?_length]
  rfl

theorem put_item {span : Text.Span} {items : List Item} {current : Table} (place : Text.Span)
    (h : (Item.array span true items).view = (seen log).below path) :
    (seen log).put path (Item.array span true (items ++ [current.toItem place])).view =
      (seen (log ++ [.item path])).put (path ++ [.item (tables log path)]) current.view := by
  have count := tables_of_view path h
  have keys : placed log path = [] := by
    have none' := Item.keys_view (.array span true items)
    rwa [h, View.keys_below_nil] at none'
  have own : keyBelow path path = none := keyBelow_eq_none (Nat.le_refl _)
  have again : (seen (log ++ [.item path])).put path
        (((seen (log ++ [.item path])).below path).put [.item items.length] current.view) =
      (seen log).put path
        (((seen (log ++ [.item path])).below path).put [.item items.length] current.view) := by
    refine put_seen _ (fun _ _ => rfl) (by simp) ?_
    rintro table off same
    exact off (Mention.item.inj same ▸ List.prefix_refl path)
  rw [count, View.put_append, again, Item.view_concat span items _
    (v := (seen (log ++ [.item path])).below path), Table.view_toItem]
  next =>
    rw [View.keys_below_nil]
    simp only [seen, placed_concat, Toml.place, Mention.address, own, keys]
  next =>
    rw [View.tables_below_nil, ← count]
    simp [seen, tables]
  next =>
    intro other apart
    rw [h, ← View.below_append, ← View.below_append,
      below_seen (.item path) (by simp [Mention.address])]
    simp

end

theorem Follows.add_item {document next : Document} {account : Account}
    (h : Follows document account) {span : Text.Span} {target : Target}
    (added : document.add (.header span true target) = .ok next) :
    Follows next (account.add (.header span true target)) := by
  obtain ⟨root, closed, h₁⟩ := ok_of_bind added
  obtain ⟨path, resolved, h₂⟩ := ok_of_bind h₁
  obtain rfl := resolve_ok resolved
  cases h₂
  have whole := h.view_close closed
  generalize address : path.address (tables account.log) = array
  have account' : account.add (.header span true (.keys path)) =
      ⟨account.log ++ [.item array], array ++ [.item (tables account.log array)]⟩ := by
    simp [Account.add, address]
  rw [account']
  refine ⟨fun current joined close => ?_, ?_⟩
  next =>
    obtain ⟨parent, changed, appended, before, after⟩ := view_joined close
    obtain ⟨place, items, own, put⟩ := view_append_item rfl appended
    rw [whole] at before after
    rw [before, ← View.below_append] at own
    rw [put, before, ← View.put_append] at after
    subst address
    exact ⟨(Table.view_empty .header).trans (below_seen_item _ own).symm,
      after.trans (put_item _ span own)⟩
  next =>
    exact noted_of_mem (List.mem_append_right _ (List.mem_singleton.mpr rfl)) fun table =>
      keyBelow_concat_item table array _

theorem Follows.add {document next : Document} {account : Account} (h : Follows document account)
    {statement : Statement} (added : document.add statement = .ok next) :
    Follows next (account.add statement) := by
  cases statement with
  | definition target node => exact h.add_definition added
  | header span isArray target =>
    cases isArray with
    | false => exact h.add_header added
    | true => exact h.add_item added

theorem Follows.run {document last : Document} {account : Account} (h : Follows document account)
    {statements : List Statement} (added : statements.foldlM Document.add document = .ok last) :
    Follows last (statements.foldl Account.add account) := by
  induction statements generalizing document account with
  | nil =>
    cases added
    exact h
  | cons statement rest ih =>
    rw [List.foldlM_cons] at added
    obtain ⟨next, first, later⟩ := ok_of_bind added
    exact ih (h.add first) later

theorem view_of_readTable {source : Text} {table : Table} (h : readTable source = .ok table) :
    ∃ statements,
      readStatements (Text.byteSize source) source.length (skipMark source) = .ok statements ∧
        table.view = seen (mentions statements) := by
  unfold readTable at h
  split at h
  next => cases h
  next statements read =>
    obtain ⟨document, run, closed⟩ := ok_of_bind h
    exact ⟨statements, read, (Follows.start.run run).view_close closed⟩

end DataLiteral.Toml

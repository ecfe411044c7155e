import DataLiteral.Proofs.Value.Address
import DataLiteral.Toml.Document

set_option autoImplicit false

namespace DataLiteral.Toml

def keyBelow : Address → Address → Option Text
  | [], .entry key :: _ => some key
  | [], _ => none
  | place :: table, next :: address => if place = next then keyBelow table address else none
  | _ :: _, [] => none

def note (keys : List Text) : Option Text → List Text
  | none => keys
  | some key => if key ∈ keys then keys else keys ++ [key]

/-- What the addresses in a document lead to: the keys of the table there, in their order, and the
number of tables in the array of tables there. -/
@[ext] structure View where
  keys : Address → List Text
  tables : Address → Nat

namespace View

def empty : View := ⟨fun _ => [], fun _ => 0⟩

def below (v : View) (path : Address) : View :=
  ⟨fun address => v.keys (path ++ address), fun address => v.tables (path ++ address)⟩

def put (v : View) (path : Address) (w : View) : View where
  keys address :=
    if path <+: address then w.keys (address.drop path.length)
    else note (v.keys address) (keyBelow address path)
  tables address :=
    if path <+: address then w.tables (address.drop path.length) else v.tables address

end View

theorem keyBelow_append (base table address : Address) :
    keyBelow (base ++ table) (base ++ address) = keyBelow table address := by
  induction base with
  | nil => rfl
  | cons place base ih => simpa [keyBelow] using ih

theorem keyBelow_append_of_off {table address : Address} (h : ¬ address <+: table)
    (rest : Address) : keyBelow table (address ++ rest) = keyBelow table address := by
  induction address generalizing table with
  | nil => exact absurd List.nil_prefix h
  | cons place address ih =>
    cases table with
    | nil => cases place <;> rfl
    | cons first table =>
      simp only [List.cons_append, keyBelow]
      split
      next same =>
        subst same
        exact ih fun inside => h (List.cons_prefix_cons.mpr ⟨rfl, inside⟩)
      next => rfl

theorem keyBelow_eq_some {table address : Address} {key : Text} :
    keyBelow table address = some key ↔ table ++ [.entry key] <+: address := by
  induction table generalizing address with
  | nil =>
    cases address with
    | nil => simp [keyBelow]
    | cons next address => cases next <;> simp [keyBelow, eq_comm]
  | cons place table ih =>
    cases address with
    | nil => simp [keyBelow]
    | cons next address =>
      simp only [keyBelow, List.cons_append, List.cons_prefix_cons]
      split <;> simp_all

theorem keyBelow_eq_none {table address : Address} (h : address.length ≤ table.length) :
    keyBelow table address = none := by
  refine Option.eq_none_iff_forall_not_mem.mpr fun key below => ?_
  have shorter := (keyBelow_eq_some.mp below).length_le
  rw [List.length_append, List.length_singleton] at shorter
  omega

theorem mem_note {keys : List Text} {found : Option Text} {key : Text} :
    key ∈ note keys found ↔ key ∈ keys ∨ found = some key := by
  cases found with
  | none => simp [note]
  | some other => by_cases present : other ∈ keys <;> simp [note, present] <;> grind

theorem note_of_mem {keys : List Text} {found : Option Text} (h : ∀ key ∈ found, key ∈ keys) :
    note keys found = keys := by
  cases found with
  | none => rfl
  | some key => exact if_pos (h key rfl)

theorem note_note (keys : List Text) (found : Option Text) :
    note (note keys found) found = note keys found :=
  note_of_mem fun _ same => mem_note.mpr (.inr same)

namespace View

variable {v w : View} {path address : Address}

@[simp] theorem put_nil (v w : View) : v.put [] w = w := by
  ext <;> simp [put]

theorem keys_below (v : View) (path address : Address) :
    (v.below path).keys address = v.keys (path ++ address) := rfl

theorem tables_below (v : View) (path address : Address) :
    (v.below path).tables address = v.tables (path ++ address) := rfl

@[simp] theorem keys_below_nil (v : View) (path : Address) :
    (v.below path).keys [] = v.keys path := by
  rw [keys_below, List.append_nil]

@[simp] theorem tables_below_nil (v : View) (path : Address) :
    (v.below path).tables [] = v.tables path := by
  rw [tables_below, List.append_nil]

theorem below_append (v : View) (first second : Address) :
    v.below (first ++ second) = (v.below first).below second := by
  ext <;> simp [below]

@[simp] theorem below_put (v : View) (path : Address) (w : View) :
    (v.put path w).below path = w := by
  ext <;> simp [below, put]

theorem keys_put_of_off (h : ¬ path <+: address) (v w : View) :
    (v.put path w).keys address = note (v.keys address) (keyBelow address path) :=
  if_neg h

theorem tables_put_of_off (h : ¬ path <+: address) (v w : View) :
    (v.put path w).tables address = v.tables address :=
  if_neg h

theorem ext_at (path : Address) (inside : v.below path = w.below path)
    (keys : ∀ address, ¬ path <+: address → v.keys address = w.keys address)
    (tables : ∀ address, ¬ path <+: address → v.tables address = w.tables address) : v = w := by
  ext1 <;> funext address <;> by_cases within : path <+: address
  next =>
    obtain ⟨rest, rfl⟩ := within
    exact congrFun (congrArg View.keys inside) rest
  next => exact keys address within
  next =>
    obtain ⟨rest, rfl⟩ := within
    exact congrFun (congrArg View.tables inside) rest
  next => exact tables address within

theorem ext_step (keys : v.keys [] = w.keys []) (tables : v.tables [] = w.tables [])
    (inside : ∀ place, v.below [place] = w.below [place]) : v = w := by
  ext1 <;> funext address <;> cases address
  next => exact keys
  next place rest => exact congrFun (congrArg View.keys (inside place)) rest
  next => exact tables
  next place rest => exact congrFun (congrArg View.tables (inside place)) rest

theorem put_append (v : View) (first second : Address) (w : View) :
    v.put (first ++ second) w = v.put first ((v.below first).put second w) := by
  have under {address : Address} (off : ¬ second <+: address) :
      ¬ first ++ second <+: first ++ address := by
    rwa [List.prefix_append_right_inj]
  have apart {address : Address} (off : ¬ first <+: address) : ¬ first ++ second <+: address :=
    fun inside => off ((List.prefix_append first second).trans inside)
  apply ext_at first
  next =>
    rw [below_put]
    apply ext_at second
    next => rw [← below_append, below_put, below_put]
    next =>
      intro address off
      simp only [below, keys_put_of_off (under off), keys_put_of_off off, keyBelow_append]
    next =>
      intro address off
      simp only [below, tables_put_of_off (under off), tables_put_of_off off]
  next =>
    intro address off
    rw [keys_put_of_off off, keys_put_of_off (apart off), keyBelow_append_of_off off]
  next =>
    intro address off
    rw [tables_put_of_off off, tables_put_of_off (apart off)]

@[simp] theorem put_put (v : View) (path : Address) (first second : View) :
    (v.put path first).put path second = v.put path second := by
  apply ext_at path
  next => rw [below_put, below_put]
  next =>
    intro address off
    simp only [keys_put_of_off off, note_note]
  next =>
    intro address off
    simp only [tables_put_of_off off]

theorem below_put_singleton {place other : Place} (h : other ≠ place) (v w : View) :
    (v.put [place] w).below [other] = v.below [other] := by
  have off (address : Address) : ¬ [place] <+: other :: address := by simp [h.symm]
  have free (address : Address) : keyBelow (other :: address) [place] = none := by
    simp [keyBelow, h]
  ext1 <;> funext address
  next =>
    have kept := keys_put_of_off (off address) v w
    rwa [free, note] at kept
  next => exact tables_put_of_off (off address) v w

theorem keys_put_singleton (v w : View) (key : Text) :
    (v.put [.entry key] w).keys [] = note (v.keys []) (some key) :=
  rfl

theorem tables_put_singleton (v w : View) (place : Place) :
    (v.put [place] w).tables [] = v.tables [] :=
  rfl

end View

def Item.child? : Place → Item → Option Item
  | .entry key, .table _ _ entries => Table.find? key entries
  | .item index, .array _ _ items => items[index]?
  | _, _ => none

def Item.at? : Address → Item → Option Item
  | [], item => some item
  | place :: address, item => (item.child? place).bind (at? address)

def Item.ownKeys : Item → List Text
  | .table _ _ entries => entries.map fun entry => entry.1.name
  | _ => []

def Item.ownTables : Item → Nat
  | .array _ true items => items.length
  | _ => 0

def Item.view (item : Item) : View where
  keys address := (item.at? address).elim [] ownKeys
  tables address := (item.at? address).elim 0 ownTables

def Table.view (table : Table) : View :=
  (table.toItem ⟨0, 0⟩).view

def Table.names (table : Table) : List Text :=
  table.entries.map fun entry => entry.1.name

namespace Item

theorem keys_view (item : Item) : item.view.keys [] = item.ownKeys := rfl

theorem tables_view (item : Item) : item.view.tables [] = item.ownTables := rfl

theorem below_view (item : Item) (place : Place) :
    item.view.below [place] = (item.child? place).elim .empty view := by
  simp only [view, View.below, List.cons_append, List.nil_append, at?]
  cases item.child? place <;> rfl

theorem view_scalar (span : Text.Span) (value : Scalar) :
    (Item.scalar span value).view = .empty := by
  refine View.ext_step rfl rfl ?_
  intro place
  rw [below_view]
  cases place <;> rfl

theorem view_array_nil (span : Text.Span) (ofTables : Bool) :
    (Item.array span ofTables []).view = .empty := by
  refine View.ext_step rfl (by cases ofTables <;> rfl) ?_
  intro place
  rw [below_view]
  cases place <;> rfl

theorem child?_concat (span : Text.Span) (ofTables : Bool) (items : List Item) (last : Item)
    {place : Place} (other : place ≠ .item items.length) :
    (Item.array span ofTables (items ++ [last])).child? place =
      (Item.array span ofTables items).child? place := by
  cases place with
  | entry key => rfl
  | item index =>
    have apart : index ≠ items.length := fun eq => other (congrArg _ eq)
    simp only [child?, List.getElem?_append]
    split
    next => rfl
    next beyond =>
      have gap : index - items.length ≠ 0 := by omega
      obtain ⟨more, later⟩ := Nat.exists_eq_succ_of_ne_zero gap
      rw [later, List.getElem?_eq_none (Nat.le_of_not_lt beyond)]
      rfl

theorem view_concat (span : Text.Span) (items : List Item) (last : Item) {v : View}
    (keys : v.keys [] = []) (tables : v.tables [] = items.length + 1)
    (others : ∀ place, place ≠ .item items.length →
      v.below [place] = (Item.array span true items).view.below [place]) :
    (Item.array span true (items ++ [last])).view = v.put [.item items.length] last.view := by
  refine View.ext_step ?_ ?_ ?_
  next => exact keys.symm
  next =>
    rw [View.tables_put_singleton, tables, tables_view, ownTables, List.length_append]
    rfl
  next =>
    intro place
    by_cases same : place = .item items.length
    next =>
      subst same
      rw [View.below_put, below_view, child?, List.getElem?_concat_length]
      rfl
    next =>
      rw [View.below_put_singleton same, others place same, below_view, below_view,
        child?_concat span true items last same]

theorem view_last (span : Text.Span) (items : List Item) (old new : Item) :
    (Item.array span true (items ++ [new])).view =
      (Item.array span true (items ++ [old])).view.put [.item items.length] new.view := by
  refine view_concat span items new rfl (by simp [tables_view, ownTables]) ?_
  intro place other
  rw [below_view, below_view, child?_concat span true items old other]

end Item

namespace Table

variable {name other : Text} {item new : Item} {entries : List (Key × Item)}

theorem find?_eq_none :
    find? name entries = none ↔ name ∉ entries.map fun entry => entry.1.name := by
  induction entries with
  | nil => simp [find?]
  | cons entry rest ih =>
    obtain ⟨key, item⟩ := entry
    by_cases same : key.name = name
    next => simp [find?, same]
    next => simp [find?, same, ih, Ne.symm same]

theorem find?_append (more : List (Key × Item)) :
    find? name (entries ++ more) = (find? name entries).or (find? name more) := by
  induction entries with
  | nil => rfl
  | cons entry rest ih =>
    obtain ⟨key, item⟩ := entry
    by_cases same : key.name = name <;> simp [find?, same, ih]

theorem find?_replace_self (h : find? name entries = some item) :
    find? name (replace name new entries) = some new := by
  induction entries with
  | nil => cases h
  | cons entry rest ih =>
    obtain ⟨key, old⟩ := entry
    by_cases same : key.name = name
    next => simp [replace, find?, same]
    next =>
      simp only [find?, same, if_false] at h
      simp [replace, find?, same, ih h]

theorem find?_replace_of_ne (h : other ≠ name) :
    find? other (replace name new entries) = find? other entries := by
  induction entries with
  | nil => rfl
  | cons entry rest ih =>
    obtain ⟨key, old⟩ := entry
    by_cases same : key.name = name
    next => simp [replace, find?, same, h.symm]
    next => simp [replace, find?, same, ih]

theorem names_replace :
    (replace name new entries).map (fun entry => entry.1.name) =
      entries.map fun entry => entry.1.name := by
  induction entries with
  | nil => rfl
  | cons entry rest ih =>
    obtain ⟨key, old⟩ := entry
    by_cases same : key.name = name <;> simp [replace, same, ih]

theorem find?_erase_of_ne (h : other ≠ name) :
    find? other (erase name entries) = find? other entries := by
  induction entries with
  | nil => rfl
  | cons entry rest ih =>
    obtain ⟨key, old⟩ := entry
    by_cases same : key.name = name
    next => simp [erase, find?, same, h.symm]
    next => simp [erase, find?, same, ih]

theorem names_erase :
    (erase name entries).map (fun entry => entry.1.name) =
      (entries.map fun entry => entry.1.name).erase name := by
  induction entries with
  | nil => rfl
  | cons entry rest ih =>
    obtain ⟨key, old⟩ := entry
    by_cases same : key.name = name <;> simp [erase, same, ih]

theorem keys_view (table : Table) : table.view.keys [] = table.names := rfl

theorem tables_view (table : Table) : table.view.tables [] = 0 := rfl

theorem below_view_entry (table : Table) (name : Text) :
    table.view.below [.entry name] = (table.get? name).elim .empty Item.view :=
  Item.below_view _ _

theorem below_view_item (table : Table) (index : Nat) :
    table.view.below [.item index] = .empty :=
  Item.below_view _ _

theorem view_toItem (table : Table) (span : Text.Span) : (table.toItem span).view = table.view := by
  refine View.ext_step rfl rfl ?_
  intro place
  rw [Item.below_view, view, Item.below_view]
  cases place <;> rfl

theorem view_origin (origin : Origin) (entries : List (Key × Item)) :
    (⟨origin, entries⟩ : Table).view = (⟨.implied, entries⟩ : Table).view := by
  refine View.ext_step rfl rfl ?_
  intro place
  cases place with
  | entry name => rw [below_view_entry, below_view_entry, get?, get?]
  | item index => rw [below_view_item, below_view_item]

theorem view_empty (origin : Origin) : (empty origin).view = .empty := by
  refine View.ext_step rfl rfl ?_
  intro place
  cases place with
  | item index => exact below_view_item _ index
  | entry name => exact below_view_entry _ name

theorem view_of_find? {table changed : Table} (keys : changed.names = note table.names (some name))
    (own : changed.get? name = some new)
    (others : ∀ other, other ≠ name → changed.get? other = table.get? other) :
    changed.view = table.view.put [.entry name] new.view := by
  refine View.ext_step keys rfl ?_
  intro place
  by_cases same : place = .entry name
  next =>
    subst same
    rw [View.below_put, below_view_entry, own]
    rfl
  next =>
    rw [View.below_put_singleton same]
    cases place with
    | item index => rw [below_view_item, below_view_item]
    | entry other =>
      rw [below_view_entry, below_view_entry, others other fun eq => same (congrArg _ eq)]

theorem view_push {table : Table} {key : Key} (absent : table.get? key.name = none) :
    (table.push key item).view = table.view.put [.entry key.name] item.view := by
  have missing := find?_eq_none.mp absent
  apply view_of_find?
  next => simp [names, push, note, missing]
  next => simp [get?, push, find?_append, find?_eq_none.mpr missing, find?]
  next =>
    intro other apart
    simp [get?, push, find?_append, find?, apart.symm]

theorem view_replace {table : Table} (present : table.get? name = some item) :
    ({ table with entries := replace name new table.entries } : Table).view =
      table.view.put [.entry name] new.view := by
  have member : name ∈ table.names := by
    refine Decidable.byContradiction fun missing => ?_
    rw [get?, find?_eq_none.mpr missing] at present
    cases present
  apply view_of_find?
  next =>
    simp only [names, names_replace]
    exact (if_pos member).symm
  next => exact find?_replace_self present
  next => exact fun other apart => find?_replace_of_ne apart

end Table

def inside (tables : Address → Nat) (address : Address) : Address :=
  match tables address with
  | 0 => address
  | count + 1 => address ++ [.item count]

def follow (tables : Address → Nat) : List Key → Address
  | [] => []
  | key :: path =>
      let here := inside tables [.entry key.name]
      here ++ follow (fun address => tables (here ++ address)) path

theorem inside_cons (tables : Address → Nat) (place : Place) (address : Address) :
    inside tables (place :: address) =
      place :: inside (fun address => tables (place :: address)) address := by
  simp only [inside]
  split <;> rfl

theorem follow_cons (v : View) (key : Key) (path : List Key) :
    follow v.tables (key :: path) =
      [.entry key.name] ++ (inside (v.below [.entry key.name]).tables [] ++
        follow ((v.below [.entry key.name]).below
          (inside (v.below [.entry key.name]).tables [])).tables path) := by
  simp only [follow, inside_cons]
  rfl

namespace Table

variable {through : Origin} {item : Item} {child : Table} {restore : Table → Item}

theorem view_enter? (h : enter? through item = some (child, restore)) :
    child.view = item.view.below (inside item.view.tables []) ∧
      ∀ changed, (restore changed).view =
        item.view.put (inside item.view.tables []) changed.view := by
  cases item with
  | scalar span value => cases h
  | table span origin entries =>
    rw [enter?] at h
    split at h
    next => cases h
    next =>
      cases h
      have here : inside (Item.table span origin entries).view.tables [] = [] := rfl
      rw [here]
      refine ⟨?_, fun changed => ?_⟩
      next => exact (view_toItem ⟨origin, entries⟩ span).symm
      next => rw [View.put_nil, view_toItem]
  | array span ofTables items =>
    simp only [enter?] at h
    split at h
    next last origin entries before shape =>
      cases h
      have whole := List.reverse_eq_iff.mp shape
      rw [List.reverse_cons] at whole
      subst whole
      have here : inside (Item.array span true
          (before.reverse ++ [.table last origin entries])).view.tables [] =
          [.item before.reverse.length] := by
        simp [inside, Item.tables_view, Item.ownTables]
      rw [here]
      refine ⟨?_, fun changed => ?_⟩
      next =>
        rw [Item.below_view, Item.child?, List.getElem?_concat_length]
        exact (view_toItem ⟨origin, entries⟩ last).symm
      next => rw [Item.view_last, view_toItem]
    next => cases h

theorem view_alter? {α : Type} {change : Table → Option (Table × α)} {path : List Key}
    {table altered : Table} {result : α}
    (h : alter? through change path table = some (altered, result)) :
    ∃ old new, change old = some (new, result) ∧
      old.view = table.view.below (follow table.view.tables path) ∧
      altered.view = table.view.put (follow table.view.tables path) new.view := by
  induction path generalizing table altered with
  | nil => exact ⟨table, altered, h, rfl, (View.put_nil _ _).symm⟩
  | cons key path ih =>
    have under := below_view_entry table key.name
    simp only [alter?] at h
    -- A child that is missing is seen like one that is there and empty.
    split at h
    next absent =>
      obtain ⟨⟨child, made⟩, found, same⟩ := Option.bind_eq_some_iff.mp h
      cases same
      obtain ⟨old, new, changed, before, after⟩ := ih found
      rw [absent, Option.elim_none] at under
      have here : inside (table.view.below [.entry key.name]).tables [] = [] := by
        rw [under]
        rfl
      refine ⟨old, new, changed, ?_, ?_⟩
      next =>
        rw [follow_cons, here, View.below_append, View.below_append, under, before, view_empty]
        rfl
      next =>
        rw [follow_cons, here, View.put_append, view_push absent, view_toItem, under, after,
          view_empty]
        rfl
    next item present =>
      obtain ⟨⟨child, restore⟩, entered, h⟩ := Option.bind_eq_some_iff.mp h
      obtain ⟨⟨child', made⟩, found, same⟩ := Option.bind_eq_some_iff.mp h
      cases same
      obtain ⟨old, new, changed, before, after⟩ := ih found
      obtain ⟨seen, restored⟩ := view_enter? entered
      rw [present, Option.elim_some] at under
      refine ⟨old, new, changed, ?_, ?_⟩
      next => rw [follow_cons, View.below_append, View.below_append, under, ← seen, before]
      next =>
        rw [follow_cons, View.put_append, View.put_append, view_replace present, restored, under,
          ← seen, after]

end Table

end DataLiteral.Toml

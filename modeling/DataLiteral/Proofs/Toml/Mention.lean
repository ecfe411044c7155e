import DataLiteral.Proofs.Entries
import DataLiteral.Proofs.Toml.View

set_option autoImplicit false

namespace DataLiteral.Toml

/-- How a document mentions what an address leads to, and the keys on the way: with the header of a
table, with the header of one more table of an array, or with a value that it is given. -/
inductive Mention where
  | table (address : Address)
  | item (address : Address)
  | value (address : Address)
  deriving DecidableEq, Repr

def Mention.address : Mention → Address
  | .table address => address
  | .item address => address
  | .value address => address

def Path.address (tables : Address → Nat) (path : Path) : Address :=
  follow tables path.parents ++ [.entry path.key.name]

mutual

def Node.mentions : Node → List Address
  | .array _ items => itemMentions 0 items
  | .braces _ entries => entryMentions entries
  | _ => []

def itemMentions (index : Nat) : List Node → List Address
  | [] => []
  | item :: rest => item.mentions.map (.item index :: ·) ++ itemMentions (index + 1) rest

def entryMentions : List (Target × Node) → List Address
  | [] => []
  | (.keys path, node) :: rest =>
      let address := path.address fun _ => 0
      address :: (node.mentions.map (address ++ ·) ++ entryMentions rest)
  | (.unreadable _, _) :: rest => entryMentions rest

end

structure Account where
  log : List Mention
  opened : Address
  deriving DecidableEq, Repr

def tables (log : List Mention) (address : Address) : Nat :=
  log.count (.item address)

def Account.add (account : Account) : Statement → Account
  | .header _ isArray (.keys path) =>
      let address := path.address (tables account.log)
      if isArray then
        ⟨account.log ++ [.item address], address ++ [.item (tables account.log address)]⟩
      else ⟨account.log ++ [.table address], address⟩
  | .definition (.keys path) node =>
      let opened := account.opened
      let address := opened ++ path.address fun inner => tables account.log (opened ++ inner)
      ⟨account.log ++ .value address :: node.mentions.map fun inner => .value (address ++ inner),
        opened⟩
  | _ => account

def mentions (statements : List Statement) : List Mention :=
  (statements.foldl Account.add ⟨[], []⟩).log

def firstMentions (log : List Mention) (table : Address) : List Text :=
  (log.filterMap fun mention => keyBelow table mention.address).eraseDups

def place (table : Address) (keys : List Text) (mention : Mention) : List Text :=
  match keyBelow table mention.address with
  | none => keys
  | some key =>
      if mention = .table (table ++ [.entry key]) then keys.erase key ++ [key]
      else note keys (some key)

/-- The keys of the table at an address in their order: each one where it is first mentioned, except
that a header takes the key of its own table to the end. -/
def placed (log : List Mention) (table : Address) : List Text :=
  log.foldl (place table) []

theorem placed_concat (log : List Mention) (mention : Mention) (table : Address) :
    placed (log ++ [mention]) table = place table (placed log table) mention :=
  List.foldl_append

theorem mem_place {table : Address} {keys : List Text} {mention : Mention} {key : Text} :
    key ∈ place table keys mention ↔ key ∈ keys ∨ keyBelow table mention.address = some key := by
  simp only [place]
  split
  next none' => simp [none']
  next other found =>
    simp only [found, Option.some.injEq]
    split
    next =>
      by_cases same : other = key
      next => simp [same]
      next => simp [same, Ne.symm same, List.mem_erase_of_ne (Ne.symm same)]
    next => simp only [mem_note, Option.some.injEq]

theorem mem_placed {log : List Mention} {table : Address} {key : Text} :
    key ∈ placed log table ↔ ∃ mention ∈ log, keyBelow table mention.address = some key := by
  induction log using List.reverseRecOn with
  | nil => simp [placed]
  | append_singleton log mention ih =>
    rw [placed_concat, mem_place, ih]
    simp [or_and_right, exists_or]

theorem nodup_place {table : Address} {keys : List Text} (distinct : keys.Nodup)
    (mention : Mention) : (place table keys mention).Nodup := by
  have append {keys : List Text} {key : Text} (distinct : keys.Nodup) (missing : key ∉ keys) :
      (keys ++ [key]).Nodup := by
    rw [List.nodup_append]
    refine ⟨distinct, by simp, ?_⟩
    rintro other member _ last rfl
    exact missing (List.mem_singleton.mp last ▸ member)
  simp only [place]
  split
  next => exact distinct
  next key _ =>
    split
    next => exact append (distinct.erase key) (distinct.not_mem_erase)
    next =>
      simp only [note]
      split
      next => exact distinct
      next missing => exact append distinct missing

theorem nodup_placed (log : List Mention) (table : Address) : (placed log table).Nodup := by
  induction log using List.reverseRecOn with
  | nil => exact List.nodup_nil
  | append_singleton log mention ih =>
    rw [placed_concat]
    exact nodup_place ih mention

theorem placed_eq_firstMentions {log : List Mention} {table : Address}
    (fresh : ∀ before key after, log = before ++ .table (table ++ [.entry key]) :: after →
      ∀ mention ∈ before, keyBelow table mention.address ≠ some key) :
    placed log table = firstMentions log table := by
  induction log using List.reverseRecOn with
  | nil => rfl
  | append_singleton log mention ih =>
    have earlier := ih fun before key after shape =>
      fresh before key (after ++ [mention]) (by simp [shape])
    rw [placed_concat, firstMentions, List.filterMap_append, place]
    cases found : keyBelow table mention.address with
    | none => simpa [found, firstMentions] using earlier
    | some key =>
      have known : key ∈ log.filterMap (fun mention => keyBelow table mention.address) ↔
          key ∈ placed log table := by
        rw [mem_placed, List.mem_filterMap]
      have last : [mention].filterMap (fun mention => keyBelow table mention.address) = [key] := by
        simp [found]
      rw [last, Entries.eraseDups_concat]
      simp only [known]
      split
      next header =>
        subst header
        have missing : key ∉ placed log table := by
          rw [mem_placed]
          rintro ⟨mention, member, below⟩
          exact fresh log key [] rfl mention member below
        rw [if_neg missing, List.erase_of_not_mem missing, earlier, firstMentions]
      next =>
        rw [note, earlier, firstMentions]

def seen (log : List Mention) : View :=
  ⟨placed log, tables log⟩

section

variable {log : List Mention} {path address : Address}

theorem place_value (table : Address) (keys : List Text) :
    place table keys (.value address) = note keys (keyBelow table address) := by
  simp only [place, Mention.address]
  cases keyBelow table address <;> simp [note]

theorem tables_values (addresses : List Address) : tables (addresses.map .value) = fun _ => 0 := by
  funext address
  simp [tables, List.count_eq_zero]

theorem tables_concat_of_ne {mention : Mention} (other : mention ≠ .item address) :
    tables (log ++ [mention]) address = tables log address := by
  simp [tables, other]

theorem tables_value (addresses : List Address) :
    tables (log ++ .value path :: addresses.map fun inner => .value (path ++ inner)) =
      tables log := by
  funext address
  simp [tables, List.count_eq_zero]

theorem place_way {table : Address} (off : ¬ path <+: table) (addresses : List Address)
    (keys : List Text) :
    (.value path :: addresses.map fun inner => Mention.value (path ++ inner)).foldl (place table)
        keys = note keys (keyBelow table path) := by
  rw [List.foldl_cons, place_value]
  induction addresses with
  | nil => rfl
  | cons inner rest ih =>
    rw [List.map_cons, List.foldl_cons, place_value, keyBelow_append_of_off off, note_note]
    exact ih

theorem seen_value (addresses : List Address) (fresh : (seen log).below path = .empty) :
    seen (log ++ .value path :: addresses.map fun inner => .value (path ++ inner)) =
      (seen log).put path (seen (addresses.map .value)) := by
  apply View.ext_at path
  next =>
    rw [View.below_put]
    ext1 <;> funext inner
    next =>
      have missing : placed log (path ++ inner) = [] :=
        congrFun (congrArg View.keys fresh) inner
      have passed : keyBelow (path ++ inner) path = none := keyBelow_eq_none (by simp)
      simp only [View.below, seen, placed, List.foldl_append, List.foldl_cons, List.foldl_map,
        place_value, keyBelow_append, passed] at missing ⊢
      rw [missing, note]
    next =>
      have missing : tables log (path ++ inner) = 0 :=
        congrFun (congrArg View.tables fresh) inner
      simp only [View.below, seen, tables_value, tables_values, missing]
  next =>
    intro table off
    rw [View.keys_put_of_off off]
    simp only [seen, placed, List.foldl_append]
    exact place_way off addresses _
  next =>
    intro table off
    rw [View.tables_put_of_off off]
    exact congrFun (tables_value addresses) table

end

end DataLiteral.Toml

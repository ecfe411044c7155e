import DataLiteral.Value.Basic

set_option autoImplicit false

namespace DataLiteral.Value

mutual

def HasDistinctKeys : Value → Prop
  | .array items => ItemsHaveDistinctKeys items
  | .record entries => (Entries.keys entries).Nodup ∧ EntriesHaveDistinctKeys entries
  | _ => True

def ItemsHaveDistinctKeys : List Value → Prop
  | [] => True
  | item :: rest => item.HasDistinctKeys ∧ ItemsHaveDistinctKeys rest

def EntriesHaveDistinctKeys : List (Text × Value) → Prop
  | [] => True
  | (_, value) :: rest => value.HasDistinctKeys ∧ EntriesHaveDistinctKeys rest

end

theorem itemsHaveDistinctKeys_iff {items : List Value} :
    ItemsHaveDistinctKeys items ↔ ∀ item ∈ items, item.HasDistinctKeys := by
  induction items with
  | nil => simp [ItemsHaveDistinctKeys]
  | cons item rest ih => rw [ItemsHaveDistinctKeys, ih, List.forall_mem_cons]

theorem entriesHaveDistinctKeys_iff {entries : List (Text × Value)} :
    EntriesHaveDistinctKeys entries ↔ ∀ entry ∈ entries, entry.2.HasDistinctKeys := by
  induction entries with
  | nil => simp [EntriesHaveDistinctKeys]
  | cons entry rest ih => rw [EntriesHaveDistinctKeys, ih, List.forall_mem_cons]

end DataLiteral.Value

import DataLiteral.Proofs.Value.Evaluation
import DataLiteral.Proofs.Value.Places

set_option autoImplicit false

namespace DataLiteral

abbrev Address := List Place

namespace Value

def child? : Place → Value → Option Value
  | .entry key, .record entries => Entries.find? key entries
  | .item index, .array items => items[index]?
  | _, _ => none

def at? : Address → Value → Option Value
  | [], v => some v
  | place :: address, v => (v.child? place).bind (at? address)

theorem at?_of_child? {place : Place} {v w : Value} (h : v.child? place = some w)
    (address : Address) : v.at? (place :: address) = w.at? address := by
  rw [at?, h, Option.bind_some]

theorem at?_ne_record {v : Value} (notArray : ∀ items, v ≠ .array items)
    (notRecord : ∀ entries, v ≠ .record entries) (address : Address)
    (entries : List (Text × Value)) : v.at? address ≠ some (.record entries) := by
  cases v with
  | array items => exact absurd rfl (notArray items)
  | record entries => exact absurd rfl (notRecord entries)
  | undefined | null | boolean | number | string =>
    rcases address with _ | ⟨_ | _, _⟩ <;> intro h <;> cases h

end Value

end DataLiteral

import DataLiteral.Proofs.Value.Parts
import DataLiteral.Toml.Value

set_option autoImplicit false

namespace DataLiteral

def Value.IsConfigured : Value → Prop
  | .undefined => False
  | .null => False
  | .number (.uint _) => False
  | _ => True

theorem Value.IsConfigured.isDefined {v : Value} (h : v.IsConfigured) : v.isDefined := by
  cases v with
  | undefined => exact h.elim
  | _ => rfl

namespace Toml

theorem ok_of_bind {α β : Type} {first : Except Failure α} {next : α → Except Failure β} {b : β}
    (h : (first >>= next) = .ok b) : ∃ a, first = .ok a ∧ next a = .ok b := by
  cases first with
  | error failure => cases h
  | ok a => exact ⟨a, rfl, h⟩

theorem orUnusable_ok {α : Type} {span : Text.Span} {found : Option α} {a : α}
    (h : orUnusable span found = .ok a) : found = some a := by
  cases found with
  | none => cases h
  | some b => cases h; rfl

theorem Scalar.parts_of_toValue {scalar : Scalar} {v : Value} (h : scalar.toValue? = some v) :
    ∀ w ∈ v.parts, w.IsConfigured := by
  cases scalar with
  | integer n =>
    obtain ⟨m, _, rfl⟩ := Option.map_eq_some_iff.mp h
    exact List.forall_mem_singleton.mpr trivial
  | hugeFloat => cases h
  | string | float | boolean | datetime => cases h; exact List.forall_mem_singleton.mpr trivial

mutual

theorem Item.parts_of_toValue : ∀ {item : Item} {v : Value}, item.toValue = .ok v →
    ∀ w ∈ v.parts, w.IsConfigured
  | .scalar _ _, _, h => by
    rw [Item.toValue] at h
    exact Scalar.parts_of_toValue (orUnusable_ok h)
  | .array _ _ _, _, h => by
    rw [Item.toValue] at h
    obtain ⟨values, read, same⟩ := ok_of_bind h
    cases same
    exact Value.forall_parts_array.mpr ⟨trivial, parts_of_itemValues read⟩
  | .table _ _ _, _, h => by
    rw [Item.toValue] at h
    split at h
    next =>
      -- A datetime that was written as a table is a string by now.
      obtain ⟨text, _, rfl⟩ := Option.map_eq_some_iff.mp (orUnusable_ok h)
      exact List.forall_mem_singleton.mpr trivial
    next =>
      obtain ⟨values, read, same⟩ := ok_of_bind h
      cases same
      exact Value.forall_parts_record.mpr ⟨trivial, parts_of_entryValues read⟩

theorem parts_of_itemValues : ∀ {items : List Item} {values : List Value},
    itemValues items = .ok values → ∀ value ∈ values, ∀ w ∈ value.parts, w.IsConfigured
  | [], _, h => by
    rw [itemValues] at h
    cases h
    exact List.forall_mem_nil _
  | item :: rest, _, h => by
    rw [itemValues] at h
    obtain ⟨value, first, h⟩ := ok_of_bind h
    obtain ⟨values, later, same⟩ := ok_of_bind h
    cases same
    exact List.forall_mem_cons.mpr ⟨Item.parts_of_toValue first, parts_of_itemValues later⟩

theorem parts_of_entryValues : ∀ {entries : List (Key × Item)} {values : List (Text × Value)},
    entryValues entries = .ok values → ∀ entry ∈ values, ∀ w ∈ entry.2.parts, w.IsConfigured
  | [], _, h => by
    rw [entryValues] at h
    cases h
    exact List.forall_mem_nil _
  | (key, item) :: rest, _, h => by
    rw [entryValues] at h
    obtain ⟨value, first, h⟩ := ok_of_bind h
    obtain ⟨values, later, same⟩ := ok_of_bind h
    cases same
    exact List.forall_mem_cons.mpr ⟨Item.parts_of_toValue first, parts_of_entryValues later⟩

end

theorem parts_of_read {source : Text} {v : Value} (h : read source = .ok v) :
    (∃ entries, v = .record entries) ∧ ∀ w ∈ v.parts, w.IsConfigured := by
  obtain ⟨table, _, h⟩ := ok_of_bind h
  obtain ⟨values, converted, same⟩ := ok_of_bind h
  cases same
  exact ⟨⟨values, rfl⟩,
    Value.forall_parts_record.mpr ⟨trivial, parts_of_entryValues converted⟩⟩

end Toml

end DataLiteral

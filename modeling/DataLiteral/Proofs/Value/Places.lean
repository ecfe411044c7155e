import DataLiteral.Proofs.Value.Prune

set_option autoImplicit false

namespace DataLiteral

inductive Place where
  | item (index : Nat)
  | entry (key : Text)
  deriving DecidableEq, Repr

def Place.notice : Place → Notice
  | .item index => .droppedItem index
  | .entry key => .droppedProperty key

namespace Value

mutual

/-- The values inside a value at any depth with their places, each one before those inside it. An
item's index counts all the items of its array. -/
def placed : Value → List (Place × Value)
  | .array items => placedItems 0 items
  | .record entries => placedEntries entries
  | _ => []

def placedItems (index : Nat) : List Value → List (Place × Value)
  | [] => []
  | item :: rest => (.item index, item) :: (item.placed ++ placedItems (index + 1) rest)

def placedEntries : List (Text × Value) → List (Place × Value)
  | [] => []
  | (key, value) :: rest => (.entry key, value) :: (value.placed ++ placedEntries rest)

end

def drops (places : List (Place × Value)) : List Notice :=
  (places.filter fun place => !place.2.isDefined).map fun place => place.1.notice

mutual

theorem map_placed : ∀ v : Value, v.placed.map Prod.snd = v.inner
  | .array items => map_placedItems 0 items
  | .record entries => map_placedEntries entries
  | .undefined | .null | .boolean _ | .number _ | .string _ => rfl

theorem map_placedItems (index : Nat) : ∀ items : List Value,
    (placedItems index items).map Prod.snd = innerItems items
  | [] => rfl
  | item :: rest => by
    simp only [placedItems, innerItems, List.map_cons, List.map_append, map_placed item,
      map_placedItems (index + 1) rest]

theorem map_placedEntries : ∀ entries : List (Text × Value),
    (placedEntries entries).map Prod.snd = innerEntries entries
  | [] => rfl
  | (key, value) :: rest => by
    simp only [placedEntries, innerEntries, List.map_cons, List.map_append, map_placed value,
      map_placedEntries rest]

end

theorem drops_append (first second : List (Place × Value)) :
    drops (first ++ second) = drops first ++ drops second := by
  simp [drops]

theorem drops_defined {v : Value} (h : v.isDefined) (place : Place) (rest : List (Place × Value)) :
    drops ((place, v) :: rest) = drops rest := by
  simp [drops, h]

section

variable {ν π : Type} (A : Assembly ν π)

mutual

theorem build_notices (verbatim : Bool) : ∀ v : Value, (A.build verbatim v).2 = drops v.placed
  | .array items => buildItems_notices items 0
  | .record entries => buildEntries_notices entries
  | .undefined | .null | .boolean _ | .number _ | .string _ => rfl

theorem buildItems_notices : ∀ (items : List Value) (index : Nat),
    (A.buildItems index items).2 = drops (placedItems index items)
  | [], _ => rfl
  | item :: rest, index => by
    have inside := build_notices false item
    have later := buildItems_notices rest (index + 1)
    simp only [Assembly.buildItems, placedItems]
    cases built : (A.build false item).1 with
    | none =>
      obtain rfl := build_eq_none.mp built
      exact congrArg (Notice.droppedItem index :: ·) later
    | some node =>
      simp only [inside, later, drops_defined (isDefined_of_build built), drops_append]

theorem buildEntries_notices : ∀ entries : List (Text × Value),
    (A.buildEntries entries).2 = drops (placedEntries entries)
  | [] => rfl
  | (key, value) :: rest => by
    have inside := build_notices false value
    have later := buildEntries_notices rest
    simp only [Assembly.buildEntries, placedEntries]
    cases built : (A.build false value).1 with
    | none =>
      obtain rfl := build_eq_none.mp built
      exact congrArg (Notice.droppedProperty key :: ·) later
    | some node =>
      simp only [inside, later, drops_defined (isDefined_of_build built), drops_append]

end

end

end Value

end DataLiteral

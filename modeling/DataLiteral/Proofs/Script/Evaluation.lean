import Mathlib.Data.List.Nodup
import DataLiteral.Decimal.Nearest
import DataLiteral.Proofs.Script.Tree

set_option autoImplicit false

namespace DataLiteral.Script

open Decimal (Numeral)

/-- What evaluating a literal gives. An object has own properties, in the order of their creation,
and a prototype, which is listed if it is not the ordinary one. -/
inductive Datum where
  | null
  | boolean (value : Bool)
  | number (value : Binary64)
  | string (value : Units)
  | array (elements : List Datum)
  | object (own : List (Units × Datum)) (prototype : Option Datum)
  deriving Repr, Inhabited

def Datum.canBePrototype : Datum → Bool
  | .null => true
  | .array _ => true
  | .object _ _ => true
  | _ => false

def magnitudeValue? (magnitude : Text) : Option Binary64 :=
  if magnitude = "NaN".toList then some .nan
  else if magnitude = "Infinity".toList then some (.infinity false)
  else
    match Numeral.take magnitude with
    | some (numeral, []) => some (Decimal.nearest false numeral.value)
    | _ => none

def numberValue? (negative : Bool) (magnitude : Text) : Option Binary64 :=
  (magnitudeValue? magnitude).map fun x => if negative then x.neg else x

def templateValue? (source : Text) : Option Units :=
  match readTemplate source with
  | some (value, []) => some value
  | _ => none

-- The key that sets the prototype when it is written out, with quotes or without.
def prototypeKey : Units :=
  Text.units "__proto__".toList

structure Made where
  own : List (Units × Datum)
  prototype : Option Datum

def defineOwn (key : Units) (value : Datum) : List (Units × Datum) → List (Units × Datum)
  | [] => [(key, value)]
  | (k, old) :: rest =>
      if k = key then (k, value) :: rest else (k, old) :: defineOwn key value rest

/-- One property definition. What is neither an object nor null is no prototype and is ignored. -/
def Made.set (made : Made) (property : Units × Datum) : Made :=
  if property.1 = prototypeKey then
    { made with
      prototype := if property.2.canBePrototype then some property.2 else made.prototype }
  else { made with own := defineOwn property.1 property.2 made.own }

def make (properties : List (Units × Datum)) : Datum :=
  let made := properties.foldl Made.set ⟨[], none⟩
  .object made.own made.prototype

mutual

def value? : Tree → Option Datum
  | .null => some .null
  | .boolean value => some (.boolean value)
  | .number negative magnitude => (numberValue? negative magnitude).map .number
  | .string _ value => value.map .string
  | .template source => (templateValue? source).map .string
  | .array elements => (elementValues? elements).map .array
  | .object properties =>
      if 1 < (properties.map Prod.fst).count prototypeKey then none
      else (propertyValues? properties).map make

def elementValues? : List Tree → Option (List Datum)
  | [] => some []
  | element :: rest =>
      match value? element, elementValues? rest with
      | some value, some later => some (value :: later)
      | _, _ => none

def propertyValues? : List (Units × Tree) → Option (List (Units × Datum))
  | [] => some []
  | (key, tree) :: rest =>
      match value? tree, propertyValues? rest with
      | some value, some later => some ((key, value) :: later)
      | _, _ => none

end

def evaluate (text : Text) : Option Datum :=
  (read text).bind value?

section

variable {key : Units} {value : Datum}

theorem defineOwn_of_notMem {own : List (Units × Datum)} (h : key ∉ own.map Prod.fst) :
    defineOwn key value own = own ++ [(key, value)] := by
  induction own with
  | nil => rfl
  | cons entry rest ih =>
    obtain ⟨k, old⟩ := entry
    rw [List.map_cons, List.mem_cons, not_or] at h
    rw [defineOwn, if_neg (fun same => h.1 same.symm), ih h.2, List.cons_append]

theorem own_foldl_set {properties : List (Units × Datum)} (made : Made)
    (distinct : ((made.own ++ properties).map Prod.fst).Nodup) :
    (properties.foldl Made.set made).own =
      made.own ++ properties.filter (·.1 ≠ prototypeKey) := by
  induction properties generalizing made with
  | nil => simp
  | cons property rest ih =>
    obtain ⟨key, value⟩ := property
    rw [List.foldl_cons]
    by_cases proto : key = prototypeKey
    · have kept : (made.set (key, value)).own = made.own := by
        rw [Made.set, if_pos proto]
      have shorter : ((made.own ++ rest).map Prod.fst).Nodup := by
        refine distinct.sublist (List.Sublist.map _ ?_)
        exact (List.Sublist.refl _).append (List.sublist_cons_self _ _)
      rw [ih _ (by rw [kept]; exact shorter), kept, List.filter_cons_of_neg (by simpa using proto)]
    · have absent : key ∉ made.own.map Prod.fst := by
        rw [List.map_append, List.map_cons] at distinct
        exact fun member => (List.nodup_append.mp distinct).2.2 key member key List.mem_cons_self rfl
      have added : (made.set (key, value)).own = made.own ++ [(key, value)] := by
        rw [Made.set, if_neg proto]
        exact defineOwn_of_notMem absent
      rw [ih _ (by rw [added]; simpa using distinct), added,
        List.filter_cons_of_pos (by simpa using proto)]
      simp

theorem make_eq {properties : List (Units × Datum)} (distinct : (properties.map Prod.fst).Nodup) :
    ∃ prototype, make properties =
      .object (properties.filter (·.1 ≠ prototypeKey)) prototype :=
  ⟨_, congrArg (Datum.object · _) (own_foldl_set ⟨[], none⟩ distinct)⟩

theorem keys_of_propertyValues? {properties : List (Units × Tree)} {values : List (Units × Datum)}
    (h : propertyValues? properties = some values) :
    properties.map Prod.fst = values.map Prod.fst := by
  induction properties generalizing values with
  | nil =>
    cases h
    rfl
  | cons property rest ih =>
    obtain ⟨key, tree⟩ := property
    rw [propertyValues?] at h
    split at h
    · next value later found others =>
      cases h
      rw [List.map_cons, List.map_cons, ih others]
    · cases h

theorem value?_object {properties : List (Units × Tree)} {values : List (Units × Datum)}
    (h : propertyValues? properties = some values) (distinct : (values.map Prod.fst).Nodup) :
    value? (.object properties) = some (make values) := by
  have once : ¬1 < (properties.map Prod.fst).count prototypeKey := by
    rw [keys_of_propertyValues? h]
    exact Nat.not_lt.mpr (List.nodup_iff_count_le_one.mp distinct _)
  rw [value?, if_neg once, h, Option.map_some]

end

end DataLiteral.Script

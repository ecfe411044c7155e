import DataLiteral.Expr.OfValue

set_option autoImplicit false

namespace DataLiteral.Value

def isDefined : Value → Bool
  | .undefined => false
  | _ => true

mutual

def prune : Value → Value
  | .array items => .array (pruneItems items)
  | .record entries => .record (pruneEntries entries)
  | v => v

def pruneItems : List Value → List Value
  | [] => []
  | item :: rest => if item.isDefined then item.prune :: pruneItems rest else pruneItems rest

def pruneEntries : List (Text × Value) → List (Text × Value)
  | [] => []
  | (key, value) :: rest =>
      if value.isDefined then (key, value.prune) :: pruneEntries rest else pruneEntries rest

end

mutual

def inner : Value → List Value
  | .array items => innerItems items
  | .record entries => innerEntries entries
  | _ => []

def innerItems : List Value → List Value
  | [] => []
  | item :: rest => item :: (item.inner ++ innerItems rest)

def innerEntries : List (Text × Value) → List Value
  | [] => []
  | (_, value) :: rest => value :: (value.inner ++ innerEntries rest)

end

theorem isDefined_eq_false {v : Value} : v.isDefined = false ↔ v = .undefined := by
  cases v <;> simp [isDefined]

theorem isSome_build {ν π : Type} (A : Assembly ν π) (verbatim : Bool) (v : Value) :
    (A.build verbatim v).1.isSome = v.isDefined := by
  cases v <;> rfl

theorem isDefined_of_build {ν π : Type} {A : Assembly ν π} {verbatim : Bool} {v : Value} {node : ν}
    (h : (A.build verbatim v).1 = some node) : v.isDefined := by
  rw [← isSome_build A verbatim v, h, Option.isSome_some]

theorem build_eq_none {ν π : Type} {A : Assembly ν π} {verbatim : Bool} {v : Value} :
    (A.build verbatim v).1 = none ↔ v = .undefined := by
  rw [← isDefined_eq_false, ← isSome_build A verbatim v, Option.isSome_eq_false_iff,
    Option.isNone_iff_eq_none]

theorem buildItems_fst {ν π : Type} (A : Assembly ν π) (index : Nat) (items : List Value) :
    (A.buildItems index items).1 = items.filterMap fun item => (A.build false item).1 := by
  induction items generalizing index with
  | nil => rfl
  | cons item rest ih =>
    rw [Assembly.buildItems, List.filterMap_cons, ← ih (index + 1)]
    cases (A.build false item).1 <;> rfl

theorem buildEntries_fst {ν π : Type} (A : Assembly ν π) (entries : List (Text × Value)) :
    (A.buildEntries entries).1 =
      entries.filterMap fun entry => (A.build false entry.2).1.map (A.property entry.1) := by
  induction entries with
  | nil => rfl
  | cons entry rest ih =>
    rw [Assembly.buildEntries, List.filterMap_cons, ← ih]
    cases (A.build false entry.2).1 <;> rfl

theorem pruneItems_eq (items : List Value) :
    pruneItems items = (items.filter isDefined).map prune := by
  induction items with
  | nil => rfl
  | cons item rest ih => by_cases defined : item.isDefined <;> simp [pruneItems, defined, ih]

theorem pruneEntries_eq (entries : List (Text × Value)) :
    pruneEntries entries =
      (entries.filter fun entry => entry.2.isDefined).map fun entry => (entry.1, entry.2.prune) := by
  induction entries with
  | nil => rfl
  | cons entry rest ih =>
    by_cases defined : entry.2.isDefined <;> simp [pruneEntries, defined, ih]

end DataLiteral.Value

namespace DataLiteral.Expr

theorem ofValue_array (items : List Value) :
    (ofValue (.array items)).1 =
      some (.array (items.filterMap fun item => (ofValue item).1)
        (Assembly.startsObjectLike items)) := by
  rw [ofValue, ofValueWith, Assembly.build, Value.buildItems_fst]
  rfl

theorem ofValue_record (entries : List (Text × Value)) :
    (ofValue (.record entries)).1 =
      some (.object (entries.filterMap fun entry => (ofValue entry.2).1.map (Prod.mk entry.1))
        true) := by
  rw [ofValue, ofValueWith, Assembly.build, Value.buildEntries_fst]
  rfl

end DataLiteral.Expr

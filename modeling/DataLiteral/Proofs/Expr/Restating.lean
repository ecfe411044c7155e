import Mathlib.Data.List.Forall2
import DataLiteral.Proofs.Value.Prune

set_option autoImplicit false

namespace DataLiteral

def Value.IsBroken : Value → Prop
  | .array items => items.head? = some .null ∨ ∃ entries, items.head? = some (.record entries)
  | .record _ => True
  | _ => False

namespace Expr

mutual

def value : Expr → Value
  | .null => .null
  | .boolean b => .boolean b
  | .number n => .number n
  | .string s _ => .string s
  | .array elements _ => .array (elementValues elements)
  | .object properties _ => .record (propertyValues properties)

def elementValues : List Expr → List Value
  | [] => []
  | element :: rest => element.value :: elementValues rest

def propertyValues : List (Text × Expr) → List (Text × Value)
  | [] => []
  | (key, e) :: rest => (key, e.value) :: propertyValues rest

end

mutual

def inner : Expr → List Expr
  | .array elements _ => innerElements elements
  | .object properties _ => innerProperties properties
  | _ => []

def innerElements : List Expr → List Expr
  | [] => []
  | element :: rest => element :: (element.inner ++ innerElements rest)

def innerProperties : List (Text × Expr) → List Expr
  | [] => []
  | (_, e) :: rest => e :: (e.inner ++ innerProperties rest)

end

/-- An expression states a value, less what is undefined in it, as a literal of the layout asked
for. A string is escaped unless it is to be verbatim. -/
structure Restates (verbatim : Bool) (broken : Prop) (v : Value) (e : Expr) : Prop where
  content : e.value = v.prune
  layout : e.isMultiLine ↔ broken
  text : ∀ s raw, e = .string s raw → raw = verbatim

def RestateAll (values : List Value) (exprs : List Expr) : Prop :=
  List.Forall₂ (fun v e => Restates false v.IsBroken v e) (values.filter Value.isDefined) exprs

/-- A literal of a value: it restates the value, and what is inside it restates what is inside the
value. Only the literal itself can be verbatim or of another layout than its value asks for. -/
def IsLiteral (verbatim : Bool) (broken : Prop) (v : Value) (e : Expr) : Prop :=
  Restates verbatim broken v e ∧ RestateAll v.inner e.inner

theorem startsObjectLike_iff (items : List Value) :
    Assembly.startsObjectLike items ↔ (Value.array items).IsBroken := by
  cases items with
  | nil => simp [Assembly.startsObjectLike, Value.IsBroken]
  | cons first rest =>
    cases first <;> simp [Assembly.startsObjectLike, Value.isObjectLike, Value.IsBroken]

theorem RestateAll.nil : RestateAll [] [] :=
  List.Forall₂.nil

theorem RestateAll.cons {values : List Value} {exprs : List Expr} {v : Value} {e : Expr}
    (present : v.isDefined) (first : Restates false v.IsBroken v e)
    (inside : RestateAll v.inner e.inner) (later : RestateAll values exprs) :
    RestateAll (v :: (v.inner ++ values)) (e :: (e.inner ++ exprs)) := by
  rw [RestateAll, List.filter_cons_of_pos present, List.filter_append]
  exact .cons first (List.rel_append inside later)

mutual

theorem isLiteral_build (verbatim : Bool) : ∀ (v : Value) (e : Expr),
    (assembly.build verbatim v).1 = some e → IsLiteral verbatim v.IsBroken v e
  | .null, e, h => by
    cases h
    exact ⟨⟨rfl, iff_of_false Bool.false_ne_true id, nofun⟩, .nil⟩
  | .boolean b, e, h => by
    cases h
    exact ⟨⟨rfl, iff_of_false Bool.false_ne_true id, nofun⟩, .nil⟩
  | .number n, e, h => by
    cases h
    exact ⟨⟨rfl, iff_of_false Bool.false_ne_true id, nofun⟩, .nil⟩
  | .string s, e, h => by
    cases h
    refine ⟨⟨rfl, iff_of_false Bool.false_ne_true id, ?_⟩, .nil⟩
    intro s raw same
    cases same
    rfl
  | .array items, e, h => by
    cases h
    obtain ⟨content, inside⟩ := restateAll_buildItems items 0
    exact ⟨⟨congrArg Value.array content, startsObjectLike_iff items, nofun⟩, inside⟩
  | .record entries, e, h => by
    cases h
    obtain ⟨content, inside⟩ := restateAll_buildEntries entries
    exact ⟨⟨congrArg Value.record content, iff_of_true rfl trivial, nofun⟩, inside⟩

theorem restateAll_buildItems : ∀ (items : List Value) (index : Nat),
    elementValues (assembly.buildItems index items).1 = Value.pruneItems items ∧
      RestateAll (Value.innerItems items) (innerElements (assembly.buildItems index items).1)
  | [], _ => ⟨rfl, .nil⟩
  | item :: rest, index => by
    obtain ⟨laterContent, later⟩ := restateAll_buildItems rest (index + 1)
    rw [Assembly.buildItems, Value.pruneItems, Value.innerItems]
    cases built : (assembly.build false item).1 with
    | none =>
      obtain rfl := Value.build_eq_none.mp built
      exact ⟨laterContent, later⟩
    | some e =>
      have present := Value.isDefined_of_build built
      obtain ⟨first, inside⟩ := isLiteral_build false item e built
      rw [if_pos present, ← first.content, ← laterContent]
      exact ⟨rfl, .cons present first inside later⟩

theorem restateAll_buildEntries : ∀ entries : List (Text × Value),
    propertyValues (assembly.buildEntries entries).1 = Value.pruneEntries entries ∧
      RestateAll (Value.innerEntries entries) (innerProperties (assembly.buildEntries entries).1)
  | [] => ⟨rfl, .nil⟩
  | (key, value) :: rest => by
    obtain ⟨laterContent, later⟩ := restateAll_buildEntries rest
    rw [Assembly.buildEntries, Value.pruneEntries, Value.innerEntries]
    cases built : (assembly.build false value).1 with
    | none =>
      obtain rfl := Value.build_eq_none.mp built
      exact ⟨laterContent, later⟩
    | some e =>
      have present := Value.isDefined_of_build built
      obtain ⟨first, inside⟩ := isLiteral_build false value e built
      rw [if_pos present, ← first.content, ← laterContent]
      exact ⟨rfl, .cons present first inside later⟩

end

/-- Nothing but what is undefined is lost in a literal, and nothing is added. An array can be forced
to several lines, and an object's layout is the caller's. -/
theorem isLiteral_ofValueWith (verbatim : Bool) :
    (∀ v, match (ofValueWith verbatim v).1 with
      | none => v = .undefined
      | some e => v ≠ .undefined ∧ IsLiteral verbatim v.IsBroken v e) ∧
    (∀ items force, IsLiteral false ((Value.array items).IsBroken ∨ force = true) (.array items)
      (ofItems items force).1) ∧
    ∀ entries multiLine, IsLiteral false (multiLine = true) (.record entries)
      (ofEntries entries multiLine).1 := by
  refine ⟨fun v => ?_, fun items force => ?_, fun entries multiLine => ?_⟩
  · cases built : (ofValueWith verbatim v).1 with
    | none => exact Value.build_eq_none.mp built
    | some e =>
      have present := Value.isDefined_of_build built
      refine ⟨?_, isLiteral_build verbatim v e built⟩
      rintro rfl
      cases present
  · obtain ⟨content, inside⟩ := restateAll_buildItems items 0
    refine ⟨⟨congrArg Value.array content, ?_, nofun⟩, inside⟩
    rw [← startsObjectLike_iff]
    exact Bool.or_eq_true_iff
  · obtain ⟨content, inside⟩ := restateAll_buildEntries entries
    exact ⟨⟨congrArg Value.record content, Iff.rfl, nofun⟩, inside⟩

example :
    (ofValueWith true (.array [.undefined, .record [], .string ['a']])).1 =
      some (.array [.object [] true, .string ['a'] false] false) := rfl

end Expr

end DataLiteral

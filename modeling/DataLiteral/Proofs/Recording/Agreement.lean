import DataLiteral.Declaration.TypeAlias
import DataLiteral.Proofs.Recording.Accounting

set_option autoImplicit false

namespace DataLiteral

namespace Assembly

structure Morphism {ν π ν' π' : Type} (A : Assembly ν π) (B : Assembly ν' π') where
  onNode : ν → ν'
  onProperty : π → π'
  null : onNode A.null = B.null
  boolean : ∀ b, onNode (A.boolean b) = B.boolean b
  number : ∀ n, onNode (A.number n) = B.number n
  string : ∀ s verbatim, onNode (A.string s verbatim) = B.string s verbatim
  array : ∀ elements multiLine,
    onNode (A.array elements multiLine) = B.array (elements.map onNode) multiLine
  property : ∀ key value, onProperty (A.property key value) = B.property key (onNode value)
  object : ∀ properties multiLine,
    onNode (A.object properties multiLine) = B.object (properties.map onProperty) multiLine

section

variable {ν π ν' π' : Type} {A : Assembly ν π} {B : Assembly ν' π'} (f : Morphism A B)

mutual

theorem build_map (verbatim : Bool) : ∀ v : Value,
    B.build verbatim v = (A.build verbatim v).map (Option.map f.onNode) id
  | .undefined => rfl
  | .null => by simp only [build, Prod.map, Option.map, f.null, id]
  | .boolean b => by simp only [build, Prod.map, Option.map, f.boolean, id]
  | .number n => by simp only [build, Prod.map, Option.map, f.number, id]
  | .string s => by simp only [build, Prod.map, Option.map, f.string, id]
  | .array items => by
    simp only [build, buildItems_map 0 items, Prod.map, Option.map, f.array, id]
  | .record entries => by
    simp only [build, buildEntries_map entries, Prod.map, Option.map, f.object, id]

theorem buildItems_map (index : Nat) : ∀ items : List Value,
    B.buildItems index items = (A.buildItems index items).map (List.map f.onNode) id
  | [] => rfl
  | item :: rest => by
    simp only [buildItems, build_map false item, buildItems_map (index + 1) rest, Prod.map, id]
    cases (A.build false item).1 <;> rfl

theorem buildEntries_map : ∀ entries : List (Text × Value),
    B.buildEntries entries = (A.buildEntries entries).map (List.map f.onProperty) id
  | [] => rfl
  | (key, value) :: rest => by
    simp only [buildEntries, build_map false value, buildEntries_map rest, Prod.map, id]
    cases (A.build false value).1 with
    | none => rfl
    | some node => simp only [Option.map, List.map_cons, f.property]

end

theorem buildArray_map (items : List Value) (force : Bool) :
    B.buildArray items force = (A.buildArray items force).map f.onNode id := by
  simp only [buildArray, buildItems_map f, Prod.map, f.array, id]

theorem buildObject_map (entries : Entries Value) (multiLine : Bool) :
    B.buildObject entries multiLine = (A.buildObject entries multiLine).map f.onNode id := by
  simp only [buildObject, buildEntries_map f, Prod.map, f.object, id]

end

end Assembly

namespace Outline

mutual

def expr : Outline → Expr
  | .null => .null
  | .boolean value => .boolean value
  | .number value => .number value
  | .string value unescaped => .string value unescaped
  | .array elements multiLine => .array (elementExprs elements) multiLine
  | .object properties multiLine => .object (propertyExprs properties) multiLine

def elementExprs : List Outline → List Expr
  | [] => []
  | element :: rest => element.expr :: elementExprs rest

def propertyExprs : List (Text × Outline) → List (Text × Expr)
  | [] => []
  | (key, value) :: rest => (key, value.expr) :: propertyExprs rest

end

theorem elementExprs_eq (elements : List Outline) : elementExprs elements = elements.map expr := by
  induction elements with
  | nil => rfl
  | cons element rest ih => simp only [elementExprs, ih, List.map_cons]

theorem propertyExprs_eq (properties : List (Text × Outline)) :
    propertyExprs properties = properties.map (Prod.map id expr) := by
  induction properties with
  | nil => rfl
  | cons property rest ih => simp only [propertyExprs, ih, List.map_cons, Prod.map, id]

def morphism : Assembly.Morphism assembly Expr.assembly where
  onNode := expr
  onProperty := Prod.map id expr
  null := rfl
  boolean _ := rfl
  number _ := rfl
  string _ _ := rfl
  array elements multiLine := congrArg (Expr.array · multiLine) (elementExprs_eq elements)
  property _ _ := rfl
  object properties multiLine := congrArg (Expr.object · multiLine) (propertyExprs_eq properties)

end Outline

namespace Recording

theorem run_buildArray (items : List Value) (force : Bool) (recording : Recording) :
    ((Outline.factory.buildArray items force).run recording).1 =
      Outline.assembly.buildArray items force := by
  simp only [Factory.buildArray, run_bind (run_buildItems items 0 recording)]
  rfl

theorem run_buildObject (entries : Entries Value) (multiLine : Bool) (recording : Recording) :
    ((Outline.factory.buildObject entries multiLine).run recording).1 =
      Outline.assembly.buildObject entries multiLine := by
  simp only [Factory.buildObject, run_bind (run_buildEntries entries recording)]
  rfl

open TypeAlias (Draft)

/-- Whatever was recorded before, a recording makes the outline of what is printed, and reports
what is reported there. Comments are recorded as they are given; in a declaration each of their
lines stands alone and without the carriage returns at its end. -/
theorem outlines (recording : Recording) :
    (∀ (v : Value) (unescape : Bool),
      Expr.ofValueWith unescape v =
        ((Outline.factory.build unescape v).run recording).1.map (Option.map Outline.expr) id) ∧
    (∀ (items : List Value) (force : Bool),
      Expr.ofItems items force =
        ((Outline.factory.buildArray items force).run recording).1.map Outline.expr id) ∧
    (∀ (entries : Entries Value) (multiLine : Bool),
      Expr.ofEntries entries multiLine =
        ((Outline.factory.buildObject entries multiLine).run recording).1.map Outline.expr id) ∧
    ∀ draft : Draft,
      let (decl, notices) := draft.build
      let (outline, recorded) := ((AliasOutline.factory.build draft.name draft.referenced
        draft.parameters draft.comments).run recording).1
      decl.modifiers.map Modifier.keyword = outline.modifiers ∧ decl.name = outline.name ∧
        decl.parameters = outline.parameters ∧ decl.referenced = outline.referenced ∧
        decl.docs = (outline.docs.flatMap (Text.splitOn '\n')).map (Text.trimEnd '\r') ∧
        notices = recorded := by
  refine ⟨fun v unescape => ?_, fun items force => ?_, fun entries multiLine => ?_, ?_⟩
  next =>
    rw [run_build]
    exact Assembly.build_map Outline.morphism unescape v
  next =>
    rw [run_buildArray]
    exact Assembly.buildArray_map Outline.morphism items force
  next =>
    rw [run_buildObject]
    exact Assembly.buildObject_map Outline.morphism entries multiLine
  next =>
    rintro ⟨name, referenced, parameters, comments⟩
    simp only [run_alias]
    rcases comments with _ | _ | ⟨line, rest⟩ <;> exact ⟨rfl, rfl, rfl, rfl, rfl, rfl⟩

end Recording

end DataLiteral

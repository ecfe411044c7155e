import Mathlib.Algebra.Ring.Nat
import DataLiteral.Declaration.Assembly
import DataLiteral.Proofs.Value.Parts
import DataLiteral.Proofs.Value.Places
import DataLiteral.Recording

set_option autoImplicit false

namespace DataLiteral

namespace Value

def ownEntries : Value → List (Text × Value)
  | .record entries => entries
  | _ => []

def propertyCalls (entries : List (Text × Value)) : Nat :=
  entries.countP fun entry => entry.2.isDefined

def callsFor (values : List Value) : Nat :=
  values.countP isDefined + propertyCalls (values.flatMap ownEntries)

/-- The constructor calls of a literal: one for each defined value, at any depth, and one for each
record entry, at any depth, whose value is defined. -/
def calls (v : Value) : Nat :=
  callsFor v.parts

theorem callsFor_append (first second : List Value) :
    callsFor (first ++ second) = callsFor first + callsFor second := by
  simp only [callsFor, propertyCalls, List.countP_append, List.flatMap_append]
  omega

theorem calls_eq (v : Value) :
    v.calls = callsFor v.inner + propertyCalls v.ownEntries + if v.isDefined then 1 else 0 := by
  simp only [calls, callsFor, propertyCalls, parts, List.countP_cons, List.flatMap_cons,
    List.countP_append]
  omega

theorem callsFor_innerItems_cons (item : Value) (rest : List Value) :
    callsFor (innerItems (item :: rest)) = item.calls + callsFor (innerItems rest) :=
  callsFor_append item.parts (innerItems rest)

theorem callsFor_innerEntries_cons (key : Text) (value : Value) (rest : List (Text × Value)) :
    callsFor (innerEntries ((key, value) :: rest)) = value.calls + callsFor (innerEntries rest) :=
  callsFor_append value.parts (innerEntries rest)

end Value

def Outline.assembly : Assembly Outline (Text × Outline) where
  null := .null
  boolean := .boolean
  number := .number
  string := .string
  array := .array
  property := Prod.mk
  object := .object

def AliasOutline.assembly : AliasAssembly Text Text AliasOutline where
  exported := "export".toList
  identifier := id
  parameter := id
  reference := id
  declare modifiers name parameters referenced := ⟨modifiers, name, parameters, referenced, []⟩
  attach node comments := { node with docs := node.docs ++ comments }

namespace Recording

open Value (callsFor propertyCalls)

def plus (recording : Recording) (calls attached : Nat) : Recording :=
  ⟨recording.calls + calls, recording.attached + attached⟩

theorem run_bind {α β : Type} {first : StateM Recording α} {next : α → StateM Recording β}
    {before after : Recording} {made : α} (h : first.run before = (made, after)) :
    (first >>= next).run before = (next made).run after := by
  rw [StateT.run_bind, h]
  rfl

theorem run_call_bind {α β : Type} (node : α) (next : α → StateM Recording β)
    (recording : Recording) :
    (call node >>= next).run recording = (next node).run (recording.plus 1 0) :=
  rfl

theorem plus_plus (recording : Recording) (calls attached laterCalls laterAttached : Nat) :
    (recording.plus calls attached).plus laterCalls laterAttached =
      recording.plus (calls + laterCalls) (attached + laterAttached) := by
  simp only [plus, Nat.add_assoc]

mutual

theorem run_build (unescape : Bool) : ∀ (v : Value) (recording : Recording),
    (Outline.factory.build unescape v).run recording =
      (Outline.assembly.build unescape v, recording.plus v.calls 0)
  | .undefined, _ | .null, _ | .boolean _, _ | .number _, _ | .string _, _ => rfl
  | .array items, recording => by
    simp only [Factory.build, run_bind (run_buildItems items 0 recording), Value.calls_eq]
    rfl
  | .record entries, recording => by
    simp only [Factory.build, run_bind (run_buildEntries entries recording), Value.calls_eq]
    rfl

theorem run_buildItems : ∀ (items : List Value) (index : Nat) (recording : Recording),
    (Outline.factory.buildItems index items).run recording =
      (Outline.assembly.buildItems index items,
        recording.plus (callsFor (Value.innerItems items)) 0)
  | [], _, _ => rfl
  | item :: rest, index, recording => by
    have first := run_build false item recording
    have later := run_buildItems rest (index + 1) (recording.plus item.calls 0)
    simp only [Factory.buildItems, run_bind first, run_bind later, plus_plus,
      Value.callsFor_innerItems_cons, Assembly.buildItems]
    cases (Outline.assembly.build false item).1 <;> rfl

theorem run_buildEntries : ∀ (entries : List (Text × Value)) (recording : Recording),
    (Outline.factory.buildEntries entries).run recording =
      (Outline.assembly.buildEntries entries,
        recording.plus (callsFor (Value.innerEntries entries) + propertyCalls entries) 0)
  | [], _ => rfl
  | (key, value) :: rest, recording => by
    have first := run_build false value recording
    simp only [Factory.buildEntries, run_bind first, Value.callsFor_innerEntries_cons,
      Assembly.buildEntries]
    cases built : (Outline.assembly.build false value).1 with
    | none =>
      have absent := Value.isDefined_eq_false.mpr (Value.build_eq_none.mp built)
      have later := run_buildEntries rest (recording.plus value.calls 0)
      have properties : propertyCalls ((key, value) :: rest) = propertyCalls rest :=
        List.countP_cons_of_neg (by simp [absent])
      simp only [run_bind later, plus_plus, properties, Nat.add_assoc]
      rfl
    | some node =>
      have present := Value.isDefined_of_build built
      have property : Outline.factory.property key node = call (key, node) := rfl
      have later := run_buildEntries rest (recording.plus (value.calls + 1) 0)
      have properties : propertyCalls ((key, value) :: rest) = propertyCalls rest + 1 :=
        List.countP_cons_of_pos present
      have total : value.calls + 1 + (callsFor (Value.innerEntries rest) + propertyCalls rest) =
          value.calls + callsFor (Value.innerEntries rest) + (propertyCalls rest + 1) := by
        omega
      simp only [property, run_call_bind, plus_plus, run_bind later, properties, total]
      rfl

end

theorem run_parameters (parameters : List Text) (recording : Recording) :
    (parameters.mapM call).run recording =
      (parameters, recording.plus parameters.length 0) := by
  induction parameters generalizing recording with
  | nil => rfl
  | cons p rest ih =>
    simp only [List.mapM_cons, run_call_bind, run_bind (ih (recording.plus 1 0)), plus_plus,
      List.length_cons, Nat.add_comm 1]
    rfl

namespace Build

def calls : Build → Nat
  | .literal v _ => v.calls
  | .array items _ => (Value.array items).calls
  | .object entries _ => (Value.record entries).calls
  | .alias _ _ parameters _ => 4 + parameters.length

def isCommented : Build → Bool
  | .alias _ _ _ (some (_ :: _)) => true
  | _ => false

def product : Build → Product
  | .literal v unescape => .ofLiteral (Outline.assembly.build unescape v).1
  | .array items force => .literal (Outline.assembly.buildArray items force).1
  | .object entries multiLine => .literal (Outline.assembly.buildObject entries multiLine).1
  | .alias name referenced parameters comments =>
      .alias (AliasOutline.assembly.build name referenced parameters comments).1

def notices : Build → List Notice
  | .literal v _ => Value.drops v.placed
  | .array items _ => Value.drops (Value.array items).placed
  | .object entries _ => Value.drops (Value.record entries).placed
  | .alias name referenced parameters _ => [.builtAlias name referenced parameters.length]

end Build

theorem run_alias (name referenced : Text) (parameters : List Text)
    (comments : Option (List Text)) (recording : Recording) :
    (AliasOutline.factory.build name referenced parameters comments).run recording =
      (AliasOutline.assembly.build name referenced parameters comments,
        recording.plus (4 + parameters.length)
          (Build.alias name referenced parameters comments).isCommented.toNat) := by
  have generics := run_parameters parameters ((recording.plus 1 0).plus 1 0)
  have kept : parameters.map AliasOutline.assembly.parameter = parameters := List.map_id parameters
  have total : 1 + 1 + parameters.length + 1 + 1 = 4 + parameters.length := by omega
  simp only [AliasFactory.build, AliasOutline.factory, run_call_bind, run_bind generics]
  simp only [plus_plus, total, AliasAssembly.build, kept]
  rcases comments with _ | _ | ⟨line, rest⟩ <;> rfl

theorem build_eq (recording : Recording) (b : Build) :
    recording.build b =
      (recording.plus b.calls b.isCommented.toNat, b.product, b.notices) := by
  cases b with
  | literal v unescape =>
    have made := run_build unescape v recording
    simp only [build, made, Value.build_notices]
    rfl
  | array items force =>
    have made := run_buildItems items 0 recording
    have reported := Value.buildItems_notices Outline.assembly items 0
    simp only [build, Factory.buildArray, run_bind made, reported, Build.calls, Value.calls_eq]
    rfl
  | object entries multiLine =>
    have made := run_buildEntries entries recording
    have reported := Value.buildEntries_notices Outline.assembly entries
    simp only [build, Factory.buildObject, run_bind made, reported, Build.calls, Value.calls_eq]
    rfl
  | _ name referenced parameters comments =>
    have made := run_alias name referenced parameters comments recording
    simp only [build, made]
    rfl

example :
    (start.build (.array [.undefined, .record [(['a'], .undefined)], .undefined] false)).2.2 =
      [.droppedItem 0, .droppedProperty ['a'], .droppedItem 2] :=
  rfl

theorem run_eq (recording : Recording) (builds : List Build) :
    recording.run builds =
      (recording.plus (builds.map Build.calls).sum (builds.countP Build.isCommented),
        builds.map fun b => (b.product, b.notices)) := by
  induction builds generalizing recording with
  | nil => rfl
  | cons first rest ih =>
    have commented : first.isCommented.toNat + rest.countP Build.isCommented =
        (first :: rest).countP Build.isCommented := by
      rw [List.countP_cons, Nat.add_comm]
      cases first.isCommented <;> rfl
    simp only [run, build_eq, ih, plus_plus, commented, List.map_cons, List.sum_cons]

/-- Over any run, each build adds its own calls and reports, whatever came before it. What a build
reports is in the order of the places inside its value, and no value inside is without a place or
has two. -/
theorem run_start (builds : List Build) :
    (start.run builds).1.calls = (builds.map Build.calls).sum ∧
      (start.run builds).1.attached = builds.countP Build.isCommented ∧
      (start.run builds).2 = builds.map (fun b => (b.product, b.notices)) ∧
      (∀ v : Value, v.placed.map Prod.snd = v.inner) ∧
      ∀ recording unescape,
        build recording (.literal .undefined unescape) = (recording, .nothing, []) := by
  refine ⟨?_, ?_, ?_, Value.map_placed, fun _ _ => rfl⟩ <;> rw [run_eq]
  next => exact Nat.zero_add _
  next => exact Nat.zero_add _

end Recording

end DataLiteral

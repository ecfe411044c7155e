import DataLiteral.Factory
import DataLiteral.Declaration.Factory

set_option autoImplicit false

namespace DataLiteral

inductive Outline where
  | null
  | boolean (value : Bool)
  | number (value : Number)
  | string (value : Text) (unescaped : Bool)
  | array (elements : List Outline) (multiLine : Bool)
  | object (properties : List (Text × Outline)) (multiLine : Bool)
  deriving Repr, Inhabited

structure AliasOutline where
  modifiers : List Text
  name : Text
  parameters : List Text
  referenced : Text
  docs : List Text
  deriving DecidableEq, Repr

structure Recording where
  calls : Nat
  attached : Nat
  deriving DecidableEq, Repr

namespace Recording

def start : Recording := ⟨0, 0⟩

def call {α : Type} (node : α) : StateM Recording α := do
  modify fun recording => { recording with calls := recording.calls + 1 }
  return node

def attachment {α : Type} (node : α) : StateM Recording α := do
  modify fun recording => { recording with attached := recording.attached + 1 }
  return node

end Recording

section

open Recording (call attachment)

def Outline.factory : Factory Recording Outline (Text × Outline) where
  null := call .null
  boolean b := call (.boolean b)
  number n := call (.number n)
  string s unescaped := call (.string s unescaped)
  array elements multiLine := call (.array elements multiLine)
  property key value := call (key, value)
  object properties multiLine := call (.object properties multiLine)

def AliasOutline.factory : AliasFactory Recording Text Text AliasOutline where
  exported := call "export".toList
  identifier := call
  parameter := call
  reference := call
  declare modifiers name parameters referenced :=
    call ⟨modifiers, name, parameters, referenced, []⟩
  attach node comments := attachment { node with docs := node.docs ++ comments }

end

namespace Recording

inductive Build where
  | literal (value : Value) (unescape : Bool)
  | array (items : List Value) (force : Bool)
  | object (entries : Entries Value) (multiLine : Bool)
  | alias (name referenced : Text) (parameters : List Text) (comments : Option (List Text))

inductive Product where
  | nothing
  | literal (outline : Outline)
  | alias (outline : AliasOutline)

def Product.ofLiteral : Option Outline → Product
  | none => .nothing
  | some outline => .literal outline

def build (recording : Recording) : Build → Recording × Product × List Notice
  | .literal value unescape =>
      let (made, next) := (Outline.factory.build unescape value).run recording
      (next, .ofLiteral made.1, made.2)
  | .array items force =>
      let (made, next) := (Outline.factory.buildArray items force).run recording
      (next, .literal made.1, made.2)
  | .object entries multiLine =>
      let (made, next) := (Outline.factory.buildObject entries multiLine).run recording
      (next, .literal made.1, made.2)
  | .alias name referenced parameters comments =>
      let (made, next) :=
        (AliasOutline.factory.build name referenced parameters comments).run recording
      (next, .alias made.1, made.2)

def run (recording : Recording) : List Build → Recording × List (Product × List Notice)
  | [] => (recording, [])
  | first :: rest =>
      let (next, outcome) := recording.build first
      let (last, later) := next.run rest
      (last, outcome :: later)

end Recording

end DataLiteral

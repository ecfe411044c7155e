import DataLiteral.Text.Position
import DataLiteral.Toml.Scalar

set_option autoImplicit false

namespace DataLiteral.Toml

open Text (Span)

structure Key where
  name : Text
  span : Span
  deriving DecidableEq, Repr

structure Path where
  parents : List Key
  key : Key
  deriving DecidableEq, Repr

inductive Target where
  | keys (path : Path)
  | unreadable (offset : Nat)
  deriving DecidableEq, Repr

def Target.below (parent : Key) : Target → Target
  | .keys path => .keys { path with parents := parent :: path.parents }
  | .unreadable offset => .unreadable offset

inductive Node where
  | scalar (span : Span) (value : Scalar)
  | unreadable (offset : Nat)
  | array (span : Span) (items : List Node)
  | braces (span : Span) (entries : List (Target × Node))
  deriving Repr

inductive Statement where
  | header (span : Span) (isArray : Bool) (target : Target)
  | definition (target : Target) (node : Node)
  deriving Repr

inductive Failure where
  | unreadable (offset : Nat)
  | pathTooLong
  | conflict (key : Key)
  | unusable (span : Span)
  deriving DecidableEq, Repr

def Failure.offset? : Failure → Option Nat
  | .unreadable offset => some offset
  | .pathTooLong => none
  | .conflict key => some key.span.start
  | .unusable span => some span.start

def maxKeys : Nat := 80

def Target.resolve : Target → Except Failure Path
  | .keys path => if path.parents.length < maxKeys then .ok path else .error .pathTooLong
  | .unreadable offset => .error (.unreadable offset)

end DataLiteral.Toml

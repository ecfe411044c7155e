import DataLiteral.Diagnostic
import DataLiteral.Json.Failure
import DataLiteral.Text.Digit

set_option autoImplicit false

namespace DataLiteral.Json

structure Fault where
  message : Text
  location : Option Text.Location
  deriving DecidableEq, Repr

namespace Fault

def ofFailure (source : Text) (failure : Failure) : Fault :=
  ⟨failure.cause.message, some (failure.location source)⟩

def splitLast? (mark : Text) : Text → Option (Text × Text)
  | [] => none
  | c :: rest =>
      match splitLast? mark rest with
      | some (before, after) => some (c :: before, after)
      | none =>
          if mark.isPrefixOf (c :: rest) then some ([], (c :: rest).drop mark.length) else none

def takeWordNumber? (text : Text) : Option (Nat × Text) :=
  let digits := text.takeWhile Char.isDigit
  let n := Text.numeral 10 digits
  if digits.isEmpty ∨ UInt64.size ≤ n then none else some (n, text.dropWhile Char.isDigit)

def splitLocation? (message : Text) : Option (Text × Text.Location) := do
  let (before, after) ← splitLast? " at line ".toList message
  let (line, after) ← takeWordNumber? after
  guard (" column ".toList.isPrefixOf after)
  let (column, after) ← takeWordNumber? (after.drop " column ".toList.length)
  guard after.isEmpty
  return (before, ⟨line, column⟩)

def ofMessage (message : Text) : Fault :=
  match splitLocation? message with
  | none => ⟨message, none⟩
  | some (before, location) => ⟨before, if location.line = 0 then none else some location⟩

def display (fault : Fault) : Text :=
  match fault.location with
  | none => fault.message
  | some location =>
      fault.message ++ " at line ".toList ++ .ofNat location.line ++ " column ".toList ++
        .ofNat location.column

def report (source : Text) (fault : Fault) : Report :=
  .described fault.display
    (fault.location.map fun location =>
      ⟨Text.offset source location, Text.offset source location⟩)

end Fault

end DataLiteral.Json

import DataLiteral.Text.Basic

set_option autoImplicit false

namespace DataLiteral.Text

structure LineDifference where
  line : Nat
  expected : Option Text
  actual : Option Text
  deriving DecidableEq, Repr

def differencesFrom (line : Nat) : List Text → List Text → List LineDifference
  | [], [] => []
  | e :: es, [] => ⟨line, some e, none⟩ :: differencesFrom (line + 1) es []
  | [], a :: as => ⟨line, none, some a⟩ :: differencesFrom (line + 1) [] as
  | e :: es, a :: as =>
      if e = a then differencesFrom (line + 1) es as
      else ⟨line, some e, some a⟩ :: differencesFrom (line + 1) es as

def shown : Option Text → Text
  | some line => line
  | none => "<missing>".toList

-- Two texts are compared as a report prints them: a line reading `<missing>` and a line that is
-- absent look the same and are not reported.
def LineDifference.isVisible (d : LineDifference) : Bool :=
  shown d.expected != shown d.actual

def differences (expected actual : Text) : List LineDifference :=
  (differencesFrom 1 (lines expected) (lines actual)).filter LineDifference.isVisible

def LineDifference.text (d : LineDifference) : Text :=
  "Line ".toList ++ ofNat d.line ++ ":\n  expected: ".toList ++ shown d.expected ++
    "\n  actual:   ".toList ++ shown d.actual ++ "\n".toList

def compare (expected actual : Text) : Option Text :=
  if expected = actual then none
  else
    let body := (differences expected actual).flatMap LineDifference.text
    some ("Content mismatch:\n".toList ++
      if body.isEmpty then "  (contents differ only in line endings)\n".toList else body)

end DataLiteral.Text

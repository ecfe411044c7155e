import DataLiteral.Text.Basic

set_option autoImplicit false

namespace DataLiteral.Text

def hexValue? (c : Char) : Option Nat :=
  if c.isDigit then some (c.toNat - '0'.toNat)
  else if 'a' ≤ c ∧ c ≤ 'f' then some (c.toNat - 'a'.toNat + 10)
  else if 'A' ≤ c ∧ c ≤ 'F' then some (c.toNat - 'A'.toNat + 10)
  else none

def digitValue (c : Char) : Nat :=
  (hexValue? c).getD 0

def isDigitBelow (base : Nat) (c : Char) : Bool :=
  match hexValue? c with
  | some value => value < base
  | none => false

def startsWithDigit : Text → Bool
  | c :: _ => c.isDigit
  | [] => false

def numeral (base : Nat) (digits : Text) : Nat :=
  digits.foldl (fun n c => base * n + digitValue c) 0

end DataLiteral.Text

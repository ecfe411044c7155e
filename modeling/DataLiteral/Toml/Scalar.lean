import DataLiteral.Decimal.Nearest
import DataLiteral.Toml.Datetime

set_option autoImplicit false

namespace DataLiteral.Toml

/-- A value without parts. Integers have any size here, and `hugeFloat` is a float beyond all
doubles. -/
inductive Scalar where
  | string (value : Text)
  | integer (value : Int)
  | float (value : Binary64)
  | hugeFloat
  | boolean (value : Bool)
  | datetime (value : Datetime)
  deriving DecidableEq, Repr

def ungroup? (isDigit : Char → Bool) (afterDigit : Bool) : Text → Option Text
  | [] => if afterDigit then some [] else none
  | c :: rest =>
      if isDigit c then (ungroup? isDigit true rest).map (c :: ·)
      else if c = '_' && afterDigit then ungroup? isDigit false rest
      else none

def decimalDigits? (text : Text) : Option Text :=
  ungroup? Char.isDigit false text

def wholeDigits? (text : Text) : Option Text := do
  let digits ← decimalDigits? text
  guard (digits.length = 1 ∨ digits.head? ≠ some '0')
  return digits

def takeSign : Text → Bool × Text
  | '+' :: rest => (false, rest)
  | '-' :: rest => (true, rest)
  | rest => (false, rest)

def signed (negative : Bool) (n : Nat) : Int :=
  if negative then -n else n

def readRadix? (base : Nat) (text : Text) : Option Int := do
  let digits ← ungroup? (Text.isDigitBelow base) false text
  return Text.numeral base digits

def readInteger? : Text → Option Int
  | '0' :: 'x' :: rest => readRadix? 16 rest
  | '0' :: 'o' :: rest => readRadix? 8 rest
  | '0' :: 'b' :: rest => readRadix? 2 rest
  | text => do
      let (negative, text) := takeSign text
      let digits ← wholeDigits? text
      return signed negative (Text.numeral 10 digits)

def isGroupedDigit (c : Char) : Bool :=
  c.isDigit || c == '_'

def takeFractionDigits? : Text → Option (Text × Text)
  | '.' :: rest => do
      let digits ← decimalDigits? (rest.takeWhile isGroupedDigit)
      return (digits, rest.dropWhile isGroupedDigit)
  | text => some ([], text)

def readExponent? : Text → Option Int
  | [] => some 0
  | mark :: rest => do
      guard (mark = 'e' ∨ mark = 'E')
      let (negative, digits) := takeSign rest
      let digits ← decimalDigits? digits
      return signed negative (Text.numeral 10 digits)

def readDecimal? (negative : Bool) (body : Text) : Option Binary64 := do
  let whole ← wholeDigits? (body.takeWhile isGroupedDigit)
  let tail := body.dropWhile isGroupedDigit
  guard (tail ≠ [])
  let (fraction, tail) ← takeFractionDigits? tail
  let exponent ← readExponent? tail
  return Decimal.nearest negative ⟨Text.numeral 10 (whole ++ fraction), exponent - fraction.length⟩

def readFloat? (text : Text) : Option Scalar :=
  let (negative, body) := takeSign text
  if body = "inf".toList then some (.float (.infinity negative))
  else if body = "nan".toList then
    some (.float (if negative then Binary64.nan.neg else .nan))
  else
    (readDecimal? negative body).map fun x => if x.isFinite then .float x else .hugeFloat

def readWord? (word : Text) : Option Scalar :=
  if word = "true".toList then some (.boolean true)
  else if word = "false".toList then some (.boolean false)
  else
    match readInteger? word, readFloat? word, readDatetime? word with
    | some n, _, _ => some (.integer n)
    | none, some x, _ => some x
    | none, none, some d => some (.datetime d)
    | none, none, none => none

end DataLiteral.Toml

import DataLiteral.Decimal.Notation

set_option autoImplicit false

namespace DataLiteral

inductive Number where
  | int (value : Int64)
  | uint (value : UInt64)
  | float (value : Binary64)
  deriving DecidableEq, Repr

namespace Number

def ofInt? (n : Int) : Option Number :=
  if Int64.minValue.toInt ≤ n ∧ n ≤ Int64.maxValue.toInt then some (.int (.ofInt n))
  else if 0 ≤ n ∧ n.toNat < UInt64.size then some (.uint (.ofNat n.toNat))
  else none

def same : Number → Number → Bool
  | .int a, .int b => a == b
  | .uint a, .uint b => a == b
  | .float a, .float b => a.same b
  | _, _ => false

def signText (negative : Bool) : Text :=
  if negative then ['-'] else []

def largeCode : Nat := (Binary64.ofNat (Decimal.tenTo 21)).code

def smallCode : Nat := (Binary64.ofRatio false 1 (Decimal.tenTo 6)).code

def usesExponent (x : Binary64) : Bool :=
  largeCode ≤ x.code || x.code != 0 && x.code < smallCode

def positionalText (x : Binary64) : Text :=
  signText x.isNegative ++
    if x.isZero then ['0'] else (Decimal.shortest x.code).positional

def scientificText (x : Binary64) : Text :=
  signText x.isNegative ++ (Decimal.shortest x.code).scientific

def display : Number → Text
  | .int n => Text.ofInt n.toInt
  | .uint n => Text.ofNat n.toNat
  | .float x =>
      if x.isNaN then "NaN".toList
      else if x.isInfinite then signText x.isNegative ++ "inf".toList
      else positionalText x

def literal : Number → Text
  | .int n => Text.ofInt n.toInt
  | .uint n => Text.ofNat n.toNat
  | .float x =>
      if x.isNaN then "NaN".toList
      else if x.isInfinite then signText x.isNegative ++ "Infinity".toList
      else if usesExponent x then scientificText x
      else positionalText x

end Number

end DataLiteral

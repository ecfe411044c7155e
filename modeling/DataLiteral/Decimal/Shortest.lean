import DataLiteral.Binary64

set_option autoImplicit false

namespace DataLiteral

structure Decimal where
  digits : Nat
  exponent : Int
  deriving DecidableEq, Repr

namespace Decimal

def tenTo (n : Nat) : Nat :=
  Nat.pow 10 n

theorem tenTo_pos (n : Nat) : 0 < tenTo n :=
  Nat.pow_pos (by decide)

-- Decimals are sought among the multiples of ten to the -341: every positive double exceeds ten
-- to the -324, so its first seventeen digits stand there.
def places : Nat := 341

def readsAs (code n : Nat) : Bool :=
  Binary64.nearestCode (n <<< Binary64.unitShift) (tenTo places) == code

def floor (code : Nat) : Nat :=
  (Binary64.units code * tenTo places) >>> Binary64.unitShift

def width (code : Nat) : Nat :=
  (Nat.toDigits 10 (floor code)).length

def isNearerAbove (code step n : Nat) : Bool :=
  ((2 * n + 1) * step) <<< Binary64.unitShift ≤ 2 * Binary64.units code * tenTo places

def pick (code count : Nat) : Option Decimal :=
  let step := tenTo (width code - count)
  let below := floor code / step
  let exponent : Int := (width code : Int) - count - places
  let above := readsAs code ((below + 1) * step)
  if readsAs code (below * step) && !(above && isNearerAbove code step below) then
    some ⟨below, exponent⟩
  else if above then some ⟨below + 1, exponent⟩
  else none

def shortest (code : Nat) : Decimal :=
  ((List.range 17).findSome? fun i => pick code (i + 1)).getD ⟨floor code, -places⟩

end Decimal

end DataLiteral

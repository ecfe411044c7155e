set_option autoImplicit false

namespace DataLiteral

structure Binary64 where
  bits : UInt64
  deriving DecidableEq, Repr

namespace Binary64

def signBit : Nat := 0x8000000000000000

def fractions : Nat := 0x10000000000000

def infinityCode : Nat := 0x7ff0000000000000

def unitShift : Nat := 1074

def code (x : Binary64) : Nat :=
  x.bits.toNat % signBit

def isNegative (x : Binary64) : Bool :=
  signBit ≤ x.bits.toNat

def isFinite (x : Binary64) : Bool :=
  x.code < infinityCode

def isInfinite (x : Binary64) : Bool :=
  x.code == infinityCode

def isNaN (x : Binary64) : Bool :=
  infinityCode < x.code

def isZero (x : Binary64) : Bool :=
  x.code == 0

def ofCode (negative : Bool) (code : Nat) : Binary64 :=
  ⟨UInt64.ofNat (if negative then signBit + code else code)⟩

def nan : Binary64 := ofCode false (infinityCode + fractions / 2)

def infinity (negative : Bool) : Binary64 := ofCode negative infinityCode

def zero (negative : Bool) : Binary64 := ofCode negative 0

def neg (x : Binary64) : Binary64 :=
  ofCode (!x.isNegative) x.code

-- The magnitude of a code, counted in least positive doubles.
def units (code : Nat) : Nat :=
  if code < fractions then code
  else (fractions + code % fractions) <<< (code / fractions - 1)

def same (x y : Binary64) : Bool :=
  !x.isNaN && !y.isNaN && (x.bits == y.bits || x.isZero && y.isZero)

def roundQuotient (num den : Nat) : Nat :=
  if 2 * (num % den) < den then num / den
  else if den < 2 * (num % den) then num / den + 1
  else num / den + num / den % 2

/-- The code nearest to `num / den` units, a half going to the even code. -/
def nearestCode (num den : Nat) : Nat :=
  let shift := (num / den).log2 - 52
  min infinityCode (shift * fractions + roundQuotient num (den <<< shift))

def ofRatio (negative : Bool) (num den : Nat) : Binary64 :=
  ofCode negative (nearestCode (num <<< unitShift) den)

def ofNat (n : Nat) : Binary64 :=
  ofRatio false n 1

def mul (x y : Binary64) : Binary64 :=
  ofCode (x.isNegative != y.isNegative)
    (nearestCode (units x.code * units y.code) (1 <<< unitShift))

def div (x y : Binary64) : Binary64 :=
  ofCode (x.isNegative != y.isNegative)
    (nearestCode (units x.code <<< unitShift) (units y.code))

theorem same_self (x : Binary64) : x.same x = !x.isNaN := by
  cases nan : x.isNaN <;> simp [same, nan]

theorem same_comm (x y : Binary64) : x.same y = y.same x := by
  simp only [same]
  cases x.isNaN <;> cases y.isNaN <;> cases x.isZero <;> cases y.isZero <;>
    simp [BEq.comm]

theorem code_lt (x : Binary64) : x.code < signBit :=
  Nat.mod_lt _ (by decide)

theorem ofCode_code (x : Binary64) : ofCode x.isNegative x.code = x := by
  obtain ⟨bits⟩ := x
  have bound := bits.toNat_lt
  by_cases sign : signBit ≤ bits.toNat
  · have negative : isNegative ⟨bits⟩ = true := decide_eq_true sign
    rw [negative]
    simp only [ofCode, code, if_true, mk.injEq, ← UInt64.toNat_inj, UInt64.toNat_ofNat', signBit]
      at sign ⊢
    omega
  · have positive : isNegative ⟨bits⟩ = false := decide_eq_false sign
    rw [positive]
    simp only [ofCode, code, Bool.false_eq_true, if_false, mk.injEq, ← UInt64.toNat_inj,
      UInt64.toNat_ofNat', signBit] at sign ⊢
    omega

theorem code_ofCode (negative : Bool) (c : Nat) (h : c < signBit) :
    (ofCode negative c).code = c := by
  simp only [ofCode, code, signBit] at h ⊢
  rw [UInt64.toNat_ofNat']
  split <;> omega

theorem isNegative_ofCode (negative : Bool) (c : Nat) (h : c < signBit) :
    (ofCode negative c).isNegative = negative := by
  simp only [signBit] at h
  cases negative
  · simp only [isNegative, ofCode, signBit, Bool.false_eq_true, if_false, decide_eq_false_iff_not,
      UInt64.toNat_ofNat']
    omega
  · simp only [isNegative, ofCode, signBit, if_true, decide_eq_true_eq, UInt64.toNat_ofNat']
    omega

theorem nearestCode_le (num den : Nat) : nearestCode num den ≤ infinityCode :=
  Nat.min_le_left _ _

end Binary64

end DataLiteral

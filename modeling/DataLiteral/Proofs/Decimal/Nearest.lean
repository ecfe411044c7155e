import DataLiteral.Decimal.Nearest
import DataLiteral.Proofs.Binary64.Rounding
import DataLiteral.Proofs.Decimal.Shortest

set_option autoImplicit false

namespace DataLiteral

open Binary64 (unitShift units infinityCode codeNear)

def Binary64.inUnits (x : ℚ) : ℚ :=
  x * (2 ^ unitShift : ℕ)

def Binary64.nearestTo (negative : Bool) (value : ℚ) : Binary64 :=
  .ofCode negative (min infinityCode (codeNear (inUnits value)))

open Binary64 (inUnits nearestTo)

namespace Decimal

theorem rat_nonneg (d : Decimal) : 0 ≤ d.rat := by
  unfold rat
  positivity

theorem inUnits_nonneg {x : ℚ} (h : 0 ≤ x) : 0 ≤ inUnits x :=
  mul_nonneg h (Nat.cast_nonneg _)

theorem units_infinity_le : units infinityCode ≤ 10 ^ extent * 2 ^ unitShift := by
  decide +kernel

theorem pow_unitShift_lt : 2 * 2 ^ unitShift < 10 ^ extent := by
  decide +kernel

theorem codeNear_of_large {d : Decimal} {n : ℕ} (nonzero : d.digits ≠ 0)
    (exponent : d.exponent = Int.ofNat n) (large : extent ≤ n) :
    infinityCode ≤ codeNear (inUnits d.rat) := by
  refine Binary64.le_codeNear ?_
  have least : (10 : ℚ) ^ extent ≤ d.rat := by
    rw [rat, exponent, Int.ofNat_eq_natCast, zpow_natCast]
    have one : (1 : ℚ) ≤ d.digits := by exact_mod_cast Nat.one_le_iff_ne_zero.mpr nonzero
    calc (10 : ℚ) ^ extent ≤ 10 ^ n := pow_le_pow_right₀ (by norm_num) large
      _ ≤ d.digits * 10 ^ n := le_mul_of_one_le_left (by positivity) one
  calc (units infinityCode : ℚ) ≤ (10 ^ extent * 2 ^ unitShift : ℕ) :=
        Nat.cast_le.mpr units_infinity_le
    _ = 10 ^ extent * (2 ^ unitShift : ℕ) := by rw [Nat.cast_mul, Nat.cast_pow, Nat.cast_ofNat]
    _ ≤ inUnits d.rat := mul_le_mul_of_nonneg_right least (Nat.cast_nonneg _)

theorem codeNear_of_small {d : Decimal} {n : ℕ} (exponent : d.exponent = Int.negSucc n)
    (small : d.digits.log2 + extent ≤ n) : codeNear (inUnits d.rat) = 0 := by
  refine Binary64.codeNear_of_lt_half (inUnits_nonneg d.rat_nonneg) ?_
  have digits : d.digits ≤ 10 ^ (d.digits.log2 + 1) :=
    (Nat.lt_log2_self.trans_le (Nat.pow_le_pow_left (by decide) _)).le
  have bound : d.digits * 10 ^ extent ≤ 10 ^ (n + 1) := by
    calc d.digits * 10 ^ extent ≤ 10 ^ (d.digits.log2 + 1) * 10 ^ extent :=
          Nat.mul_le_mul_right _ digits
      _ = 10 ^ (d.digits.log2 + 1 + extent) := (pow_add _ _ _).symm
      _ ≤ 10 ^ (n + 1) := Nat.pow_le_pow_right (by decide) (by omega)
  have tiny : d.digits * 2 ^ unitShift * 2 < 10 ^ (n + 1) := by
    by_cases zero : d.digits = 0
    · rw [zero, Nat.zero_mul, Nat.zero_mul]
      exact Nat.pow_pos (by decide)
    · calc d.digits * 2 ^ unitShift * 2 = d.digits * (2 * 2 ^ unitShift) := by ring
        _ < d.digits * 10 ^ extent :=
          Nat.mul_lt_mul_of_pos_left pow_unitShift_lt (Nat.pos_of_ne_zero zero)
        _ ≤ 10 ^ (n + 1) := bound
  have value : inUnits d.rat = (d.digits * 2 ^ unitShift : ℕ) / (10 ^ (n + 1) : ℕ) := by
    rw [inUnits, rat, exponent, zpow_negSucc, Nat.cast_mul, Nat.cast_pow 10, Nat.cast_ofNat]
    ring
  rw [value, div_lt_div_iff₀ (by positivity) (by norm_num), one_mul]
  exact_mod_cast tiny

theorem nearest_eq (negative : Bool) (d : Decimal) :
    nearest negative d = nearestTo negative d.rat := by
  rw [nearest, nearestTo]
  split
  · next zero =>
    have none' : inUnits d.rat = 0 := by rw [inUnits, rat, zero, Nat.cast_zero, zero_mul, zero_mul]
    rw [none', Binary64.codeNear_of_lt_half le_rfl (by norm_num), Nat.min_zero]
    rfl
  next nonzero =>
  split
  · next n exponent =>
    split
    · next large =>
      rw [Nat.min_eq_left (codeNear_of_large nonzero exponent large)]
      rfl
    · rw [Binary64.ofRatio, Binary64.nearestCode_eq_codeNear Nat.one_pos]
      rw [Nat.cast_one, div_one, Nat.shiftLeft_eq, tenTo_eq, inUnits, rat, exponent,
        Int.ofNat_eq_natCast, zpow_natCast, Nat.cast_mul, Nat.cast_mul, Nat.cast_pow 10,
        Nat.cast_ofNat]
  · next n exponent =>
    split
    · next small =>
      rw [codeNear_of_small exponent small, Nat.min_zero]
      rfl
    · rw [Binary64.ofRatio, Binary64.nearestCode_eq_codeNear (tenTo_pos _)]
      rw [Nat.shiftLeft_eq, tenTo_eq, inUnits, rat, exponent, zpow_negSucc, Nat.cast_mul,
        Nat.cast_pow 10, Nat.cast_ofNat]
      ring

theorem pow_unitShift_lt_places : 2 * 2 ^ unitShift < 10 ^ places := by
  decide +kernel

def Reads (code : ℕ) (value : ℚ) : Prop :=
  min infinityCode (codeNear (inUnits value)) = code

theorem readsAs_iff {code : ℕ} (n : ℕ) : readsAs code n ↔ Reads code (n / (10 ^ places : ℕ)) := by
  have ratio : ((n <<< unitShift : ℕ) : ℚ) / (tenTo places : ℕ) =
      inUnits (n / (10 ^ places : ℕ)) := by
    rw [Nat.shiftLeft_eq, tenTo_eq, inUnits, Nat.cast_mul]
    ring
  rw [readsAs, beq_iff_eq, Binary64.nearestCode_eq_codeNear (tenTo_pos _) ratio, Reads]

theorem codeNear_floor (code : ℕ) :
    codeNear (inUnits (rat ⟨floor code, -places⟩)) = code := by
  have wide : (2 * 2 ^ unitShift : ℕ) < ((10 ^ places : ℕ) : ℚ) :=
    Nat.cast_lt.mpr pow_unitShift_lt_places
  have unit : 0 < 2 ^ unitShift := Nat.pow_pos (by decide)
  have low := floor_mul_le code
  have high := lt_floor_mul code
  rw [Nat.add_one_mul] at high
  have value : inUnits (rat ⟨floor code, -places⟩) =
      (floor code * 2 ^ unitShift : ℕ) / (10 ^ places : ℕ) := by
    rw [inUnits, rat, zpow_neg, zpow_natCast, Nat.cast_mul, Nat.cast_pow 10, Nat.cast_ofNat]
    ring
  rw [Nat.cast_mul, Nat.cast_ofNat] at wide
  have low' : ((floor code * 2 ^ unitShift : ℕ) : ℚ) ≤ units code * (10 ^ places : ℕ) := by
    rw [← Nat.cast_mul]
    exact Nat.cast_le.mpr low
  have high' : (units code : ℚ) * (10 ^ places : ℕ) <
      (floor code * 2 ^ unitShift : ℕ) + (2 ^ unitShift : ℕ) := by
    rw [← Nat.cast_mul, ← Nat.cast_add]
    exact Nat.cast_lt.mpr high
  have unit' : (0 : ℚ) < (2 ^ unitShift : ℕ) := Nat.cast_pos.mpr unit
  have nonneg := inUnits_nonneg (rat_nonneg ⟨floor code, -places⟩)
  rw [value] at nonneg ⊢
  generalize ((floor code * 2 ^ unitShift : ℕ) : ℚ) = n at low' high' nonneg ⊢
  generalize ((10 ^ places : ℕ) : ℚ) = scale at wide low' high' nonneg ⊢
  generalize ((2 ^ unitShift : ℕ) : ℚ) = unit at wide high' unit'
  have positive : 0 < scale := by linarith
  have below : n / scale ≤ units code := (div_le_iff₀ positive).mpr low'
  have near : (units code : ℚ) - n / scale < 1 / 2 := by
    have close : (units code : ℚ) < n / scale + unit / scale := by
      rw [← add_div, lt_div_iff₀ positive]
      exact high'
    have small : unit / scale < 1 / 2 := by
      rw [div_lt_div_iff₀ positive (by norm_num)]
      linarith
    linarith
  obtain ⟨order, distance⟩ := Binary64.position_sub nonneg below
  rw [Binary64.position_units] at order distance
  refine Binary64.codeNear_eq_of_lt nonneg ?_
  rw [abs_sub_comm, abs_of_nonneg (sub_nonneg.mpr order)]
  calc (code : ℚ) - Binary64.position (n / scale)
      ≤ (units code - n / scale) / Binary64.gap (n / scale) := distance
    _ ≤ units code - n / scale :=
      div_le_self (sub_nonneg.mpr below) (Binary64.one_le_gap _)
    _ < 1 / 2 := near

theorem nearest_shortest (negative : Bool) {code : ℕ} (nonzero : code ≠ 0)
    (finite : code ≤ infinityCode) :
    nearest negative (shortest code) = .ofCode negative code := by
  rw [nearest_eq, nearestTo]
  rcases shortest_cases code with ⟨count, _, short, picked⟩ | all
  · obtain ⟨reads, exponent, _⟩ := pick_eq_some picked
    have wide := lt_width nonzero
    have place : (shortest code).exponent = ((width code - count : ℕ) : ℤ) - (places : ℕ) := by
      rw [exponent]
      omega
    have found : Reads code (shortest code).rat := by
      rw [readsAs_iff, tenTo_eq, Nat.cast_mul, Nat.cast_pow, Nat.cast_pow, Nat.cast_ofNat,
        mul_div_assoc] at reads
      rwa [rat, place, zpow_sub₀ (by norm_num), zpow_natCast, zpow_natCast]
    exact congrArg _ found
  · rw [all, codeNear_floor, Nat.min_eq_right finite]

end Decimal

end DataLiteral

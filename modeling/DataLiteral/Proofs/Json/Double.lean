import DataLiteral.Proofs.Json.Numeral
import DataLiteral.Proofs.Json.Scale
import DataLiteral.Proofs.Number.Value

set_option autoImplicit false

namespace DataLiteral.Json

open Binary64 (Within nearestTo infinityCode parts)
open Decimal (Numeral)
open Decimal.Numeral (exponentValue)

section

variable {d : Decimal} {significand : ℕ} {exponent : ℤ} {negative : Bool} {n : Numeral}
  {number : Number}

theorem within_of_leading {kept : ℕ} {place a b : ℚ} (wide : significandLimit < 10 * kept + 10)
    (positive : 0 < place) (low : kept * place ≤ b) (high : a < (kept + 1) * place) :
    a ≤ (1 + 49 / parts) * b := by
  have enough : parts ≤ 49 * kept := by
    have whole : 2 ^ 53 * 10000 ≤ 49 * kept := by
      simp only [significandLimit] at wide
      omega
    rw [parts]
    exact_mod_cast whole
  have step : place ≤ 49 / parts * (kept * place) := by
    have unit : 1 ≤ 49 / parts * kept := by
      rw [div_mul_eq_mul_div, one_le_div Binary64.parts_pos]
      exact enough
    calc place ≤ 49 / parts * kept * place := le_mul_of_one_le_left positive.le unit
      _ = 49 / parts * (kept * place) := mul_assoc _ _ _
  have part : 0 ≤ 49 / parts := div_nonneg (by norm_num) Binary64.parts_pos.le
  calc a ≤ kept * place + place := by linarith
    _ ≤ kept * place + 49 / parts * (kept * place) := by linarith
    _ = (1 + 49 / parts) * (kept * place) := by ring
    _ ≤ (1 + 49 / parts) * b := mul_le_mul_of_nonneg_left low (by linarith)

theorem Keeps.within (h : Keeps d significand exponent) :
    Within 49 (significand * 10 ^ exponent) d.rat := by
  cases h with
  | all digits scale =>
    rw [Decimal.rat, digits, scale]
    exact .refl (by positivity) (by norm_num)
  | leading kept place wide _ low high below above =>
    have power : (0 : ℚ) < 10 ^ place := by positivity
    exact ⟨within_of_leading wide power below high, within_of_leading wide power low above⟩

theorem double_float {x : Binary64} (h : x.code ≤ infinityCode) : (Number.float x).double = x := by
  have notNaN : x.isNaN = false := decide_eq_false (Nat.not_lt.mpr h)
  rw [Number.double, notNaN, if_neg Bool.false_ne_true]

theorem double_nearestTo (negative : Bool) (value : ℚ) :
    (Number.float (nearestTo negative value)).double = nearestTo negative value :=
  double_float (Binary64.code_nearestTo_le negative value)

theorem double_int {i : ℤ} (small : Int64.minValue.toInt ≤ i ∧ i ≤ Int64.maxValue.toInt) :
    (Number.int (.ofInt i)).double = nearestTo (decide (i < 0)) (i.natAbs : ℚ) := by
  have value : (Int64.ofInt i).toInt = i := by
    have low : Int64.minValue.toInt = -2 ^ 63 := by decide
    have high : Int64.maxValue.toInt = 2 ^ 63 - 1 := by decide
    exact Int64.toInt_ofInt_of_le (by omega) (by omega)
  rw [Number.double, value]
  split
  · next below => rw [Binary64.ofNat_eq, Binary64.neg_nearestTo, decide_eq_true below]; rfl
  · next above => rw [Binary64.ofNat_eq, decide_eq_false above]

theorem double_ofInt? {i : ℤ} (h : Number.ofInt? i = some number) :
    number.double = nearestTo (decide (i < 0)) (i.natAbs : ℚ) := by
  rw [Number.ofInt?] at h
  split at h
  · next small =>
    cases h
    exact double_int small
  split at h
  · next small =>
    cases h
    have value : (UInt64.ofNat i.toNat).toNat = i.toNat := UInt64.toNat_ofNat_of_lt' small.2
    have magnitude : i.toNat = i.natAbs := by omega
    rw [Number.double, value, Binary64.ofNat_eq, decide_eq_false (Int.not_lt.mpr small.1), magnitude]
  · cases h

theorem double_integer (negative : Bool) (digits : ℕ) :
    (integer negative digits).double = nearestTo negative digits := by
  rw [integer]
  split
  · next zero =>
    simp only [Bool.and_eq_true, beq_iff_eq] at zero
    obtain ⟨rfl, rfl⟩ := zero
    have shown : Binary64.zero true = nearestTo true ((0 : ℕ) : ℚ) := by
      rw [Nat.cast_zero, nearestTo_zero]
    rw [shown, double_nearestTo]
  · next nonzero =>
    have sign : decide ((if negative then -(digits : ℤ) else digits) < 0) = negative := by
      cases negative with
      | false => simp
      | true =>
        have positive : digits ≠ 0 := by simpa using nonzero
        simpa using Nat.pos_of_ne_zero positive
    have size : (if negative then -(digits : ℤ) else digits).natAbs = digits := by
      cases negative <;> simp
    split
    · next found => rw [double_ofInt? found, sign, size]
    · rw [Binary64.ofNat_eq]
      cases negative with
      | false => exact double_nearestTo false digits
      | true =>
        show (Number.float (nearestTo false digits).neg).double = _
        rw [Binary64.neg_nearestTo]
        exact double_nearestTo true digits

structure IsRead (negative : Bool) (d : Decimal) (x : Binary64) : Prop where
  sign : x.isNegative = negative
  close : |(x.code : ℤ) - (Decimal.nearest negative d).code| ≤ 4
  closer : 10 ^ (-289 : ℤ) ≤ d.rat → |(x.code : ℤ) - (Decimal.nearest negative d).code| ≤ 2
  short : d.digits ≤ 2 ^ 53 → |d.exponent| ≤ 22 → x = Decimal.nearest negative d
  whole : d.digits ≤ significandLimit → d.exponent = 0 → x = Decimal.nearest negative d

theorem IsRead.of_eq {x : Binary64} (h : x = nearestTo negative d.rat) : IsRead negative d x := by
  rw [← Decimal.nearest_eq] at h
  have same : |(x.code : ℤ) - (Decimal.nearest negative d).code| = 0 := by
    rw [h, sub_self, abs_zero]
  refine ⟨?_, by omega, fun _ => by omega, fun _ _ => h, fun _ _ => h⟩
  rw [h, Decimal.nearest_eq, Binary64.isNegative_nearestTo]

theorem Keeps.of_small (h : Keeps d significand exponent) (small : d.digits ≤ significandLimit) :
    significand = d.digits ∧ exponent = d.exponent := by
  cases h with
  | all digits scale => exact ⟨digits, scale⟩
  | leading _ _ _ large => exact absurd small (Nat.not_le.mpr large)

theorem signed_nearestTo (negative : Bool) (value : ℚ) :
    (if negative then (nearestTo false value).neg else nearestTo false value) =
      nearestTo negative value := by
  cases negative with
  | false => rfl
  | true => exact Binary64.neg_nearestTo false value

theorem code_signed (negative : Bool) (x : Binary64) :
    (if negative then x.neg else x).code = x.code := by
  cases negative with
  | false => rfl
  | true => exact Binary64.code_ofCode _ _ x.code_lt

theorem isNegative_signed (negative : Bool) {x : Binary64} (h : x.isNegative = false) :
    (if negative then x.neg else x).isNegative = negative := by
  cases negative with
  | false => exact h
  | true =>
    rw [if_pos rfl, Binary64.neg, Binary64.isNegative_ofCode _ _ x.code_lt, h]
    rfl

theorem exponent_of_large (keeps : Keeps d significand exponent)
    (small : significand ≤ significandLimit) (large : 10 ^ (-289 : ℤ) ≤ d.rat) :
    -308 ≤ exponent := by
  by_contra deep
  have scale : (10 : ℚ) ^ exponent ≤ 10 ^ (-309 : ℤ) :=
    zpow_le_zpow_right₀ (by norm_num) (by omega)
  have size : (significand : ℚ) ≤ 2 ^ 64 := by exact_mod_cast small.trans significandLimit_le
  have doubled : d.rat ≤ 2 * (significand * 10 ^ exponent) :=
    le_two_mul keeps.within.symm (by norm_num) (by positivity)
  have down : (10 : ℚ) ^ (-289 : ℤ) = 10 ^ 20 * 10 ^ (-309 : ℤ) := by
    rw [← zpow_natCast, ← zpow_add₀ (by norm_num)]
    rfl
  have power : (0 : ℚ) < 10 ^ (-309 : ℤ) := by positivity
  have bound : significand * (10 : ℚ) ^ exponent ≤ 2 ^ 64 * 10 ^ (-309 : ℤ) :=
    mul_le_mul size scale (by positivity) (by norm_num)
  rw [down] at large
  have cut : (10 ^ 20 : ℚ) * 10 ^ (-309 : ℤ) ≤ 2 * 2 ^ 64 * 10 ^ (-309 : ℤ) := by linarith
  have absurd' := le_of_mul_le_mul_right cut power
  norm_num at absurd'

theorem isRead_scaled {x : Binary64} (keeps : Keeps d significand exponent)
    (small : significand ≤ significandLimit) (scaled : scale significand exponent = some x) :
    IsRead negative d (Number.float (if negative then x.neg else x)).double := by
  rcases Nat.eq_zero_or_pos significand with rfl | positive
  · have nothing : d.rat = 0 := by
      rw [Decimal.rat, keeps.digits_eq_zero, Nat.cast_zero, zero_mul]
    apply IsRead.of_eq
    rw [scale_zero scaled, nothing, ← nearestTo_zero, signed_nearestTo, double_nearestTo]
  · obtain ⟨near, nearer⟩ := scale_isNear positive small scaled keeps.within d.rat_nonneg
    have codes : (nearestTo false d.rat).code = (Decimal.nearest negative d).code := by
      rw [Decimal.nearest_eq, Binary64.code_nearestTo, Binary64.code_nearestTo]
    have read : (Number.float (if negative then x.neg else x)).double =
        if negative then x.neg else x :=
      double_float (by rw [code_signed]; exact near.bound)
    rw [read]
    refine ⟨isNegative_signed negative near.sign, ?_, fun large => ?_, fun digits places => ?_,
      fun digits places => ?_⟩
    · rw [code_signed, ← codes]
      exact near.near
    · rw [code_signed, ← codes]
      exact (nearer (exponent_of_large keeps small large)).near
    · obtain ⟨rfl, rfl⟩ := keeps.of_small (digits.trans (by decide))
      obtain ⟨low, high⟩ := abs_le.mp places
      rw [scale_exact digits low high scaled, signed_nearestTo, Decimal.nearest_eq, Decimal.rat]
    · obtain ⟨rfl, rfl⟩ := keeps.of_small digits
      rw [places] at scaled
      rw [scale_whole positive small scaled, signed_nearestTo, Decimal.nearest_eq, Decimal.rat,
        places, zpow_zero, mul_one]

theorem nearest_of_vanishing (wellFormed : n.WellFormed) (short : n.text.length ≤ 2 ^ 28)
    (h : n.value.digits = 0 ∨ exponentValue n.exponent < -exponentLimit) :
    Decimal.nearest negative n.value = .zero negative := by
  rw [Decimal.nearest]
  split
  · rfl
  next nonzero =>
  have deep := h.resolve_left nonzero
  have isDigit : ∀ c ∈ n.whole ++ n.places, c.isDigit := by
    refine List.forall_mem_append.mpr ⟨wellFormed.whole.2, ?_⟩
    rcases wellFormed.fraction with none' | ⟨places, shape, isDigits⟩
    · rw [Numeral.places, none']
      exact List.forall_mem_nil _
    · rw [Numeral.places, shape]
      exact isDigits.2
  have size : (n.whole ++ n.places).length ≤ 2 ^ 28 := by
    simp only [Numeral.text, Numeral.places, List.length_append, List.length_drop] at short ⊢
    omega
  have digits : n.value.digits < 2 ^ (4 * (n.whole ++ n.places).length) := by
    calc n.value.digits < 10 ^ (n.whole ++ n.places).length := Text.numeral_lt isDigit
      _ ≤ (2 ^ 4) ^ (n.whole ++ n.places).length := Nat.pow_le_pow_left (by decide) _
      _ = 2 ^ (4 * (n.whole ++ n.places).length) := (pow_mul 2 4 _).symm
  have log := (Nat.log2_lt nonzero).mpr digits
  have place : n.value.exponent < -exponentLimit := by
    have places : n.value.exponent = exponentValue n.exponent - n.places.length := rfl
    omega
  simp only [exponentLimit] at place
  split
  · next k exponent =>
    have above : 0 ≤ n.value.exponent := exponent ▸ Int.natCast_nonneg k
    omega
  · next k exponent =>
    have small : n.value.digits.log2 + Decimal.extent ≤ k := by
      rw [exponent] at place
      simp only [Decimal.extent]
      omega
    rw [if_pos small]

theorem isRead_of_reads (reads : Reads negative n number) (wellFormed : n.WellFormed)
    (short : n.text.length ≤ 2 ^ 28) :
    IsRead negative n.value number.double := by
  cases reads with
  | integer plain small =>
    apply IsRead.of_eq
    have place : n.value.exponent = 0 := by
      rw [Numeral.value, Numeral.places, plain.1, plain.2]
      rfl
    rw [double_integer, Decimal.rat, place, zpow_zero, mul_one]
  | scaled significand exponent x keeps small scaled => exact isRead_scaled keeps small scaled
  | vanishing h =>
    apply IsRead.of_eq
    rw [← nearestTo_zero, double_nearestTo, nearestTo_zero, ← Decimal.nearest_eq,
      nearest_of_vanishing wellFormed short h]

end

/-- A number document is read as a double with the sign of its text that is at most four doubles
from the nearest one, and the literal that is written for it denotes this double. -/
theorem readNumberDocument_double {text : Text} {number : Number} (short : text.length ≤ 2 ^ 28)
    (h : readNumberDocument text = .ok number) :
    ∃ negative n, numeral? text = some (negative, n) ∧ IsRead negative n.value number.double ∧
      Script.numberValue? (Number.split number.literal).1 (Number.split number.literal).2 =
        some number.double := by
  obtain ⟨negative, n, found, wellFormed, reads, bound⟩ := numeral?_of_ok h
  exact ⟨negative, n, found, isRead_of_reads reads wellFormed (bound.trans short),
    Number.numberValue?_literal number⟩

theorem readNumberDocument_double_scaled :
    ∃ number, readNumberDocument "3e23".toList = .ok number ∧ ∃ negative n,
      numeral? "3e23".toList = some (negative, n) ∧ IsRead negative n.value number.double :=
  have read : readNumberDocument "3e23".toList = .ok (.float ⟨0x44cfc3842bd1f071⟩) := by
    decide +kernel
  have ⟨negative, n, found, isRead, _⟩ := readNumberDocument_double (by decide) read
  ⟨_, read, negative, n, found, isRead⟩

-- The power of ten is rounded, and then the product is rounded the same way.
theorem readNumberDocument_rounded_twice :
    readNumberDocument "3e23".toList = .ok (.float ⟨0x44cfc3842bd1f071⟩) ∧
      numeral? "3e23".toList = some (false, ⟨['3'], [], "e23".toList⟩) ∧
      Script.numberValue? false (Number.float ⟨0x44cfc3842bd1f071⟩).literal ≠
        some (Decimal.nearest false (Numeral.value ⟨['3'], [], "e23".toList⟩)) := by
  refine ⟨by decide +kernel, by decide +kernel, by decide +kernel⟩

end DataLiteral.Json

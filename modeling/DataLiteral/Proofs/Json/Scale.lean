import DataLiteral.Json.Number
import DataLiteral.Proofs.Binary64.Arithmetic

set_option autoImplicit false

namespace DataLiteral.Json

open Binary64 (Within Approximates nearestTo codeNear inUnits units magnitude infinityCode parts)

structure IsNear (k : ℕ) (x : Binary64) (v : ℚ) : Prop where
  sign : x.isNegative = false
  bound : x.code ≤ infinityCode
  near : |(x.code : ℤ) - (nearestTo false v).code| ≤ k

section

variable {c v w : ℚ} {k s n : ℕ} {x y : Binary64}

theorem isNear_nearestTo {p : ℚ}
    (h : |((nearestTo false p).code : ℤ) - (nearestTo false v).code| ≤ k) :
    IsNear k (nearestTo false p) v :=
  ⟨Binary64.isNegative_nearestTo false p, Binary64.code_nearestTo_le false p, h⟩

theorem significandLimit_le : significandLimit ≤ 2 ^ 64 := by decide

theorem mul_tenTo (positive : 0 < s) (small : s ≤ significandLimit) (reached : n ≤ 308)
    (close : Within 49 (s * 10 ^ n) v) (hv : 0 ≤ v) :
    IsNear 2 ((Binary64.ofNat s).mul (tenTo n)) v := by
  have factor := Binary64.approximates_ofNat positive (small.trans significandLimit_le)
  have nonneg : (0 : ℚ) ≤ s := Nat.cast_nonneg s
  obtain ⟨p, hp, product, within⟩ := factor.mul (Binary64.approximates_tenTo reached)
    (e := 19057) (by norm_num) (by norm_num) nonneg (by positivity) (by norm_num [parts])
  have total : Within 19107 p v :=
    within.trans close (by norm_num) (by norm_num) hp hv (by norm_num [parts])
  rw [tenTo, product]
  exact isNear_nearestTo (total.code_sub_le hp hv (by norm_num) (by norm_num) false false)

theorem div_tenTo (positive : 0 < s) (small : s ≤ significandLimit) (reached : n ≤ 308) :
    ∃ p, 0 ≤ p ∧ (Binary64.ofNat s).div (tenTo n) = nearestTo false p ∧
      Within 19057 p (s / 10 ^ n) :=
  (Binary64.approximates_ofNat positive (small.trans significandLimit_le)).div
    (Binary64.approximates_tenTo reached) (by norm_num) (by norm_num) (Nat.cast_nonneg s)
    (by positivity) (by norm_num [parts])

theorem div_tenTo_isNear (positive : 0 < s) (small : s ≤ significandLimit) (reached : n ≤ 308)
    (close : Within 49 (s / 10 ^ n) v) (hv : 0 ≤ v) :
    IsNear 2 ((Binary64.ofNat s).div (tenTo n)) v := by
  obtain ⟨p, hp, quotient, within⟩ := div_tenTo positive small reached
  have total : Within 19107 p v :=
    within.trans close (by norm_num) (by norm_num) hp hv (by norm_num [parts])
  rw [quotient]
  exact isNear_nearestTo (total.code_sub_le hp hv (by norm_num) (by norm_num) false false)

theorem le_two_mul (h : Within c v w) (hc : c ≤ 20000) (hw : 0 ≤ w) : v ≤ 2 * w := by
  have part : c / parts ≤ 1 := by
    rw [div_le_one Binary64.parts_pos]
    exact hc.trans (by norm_num [parts])
  calc v ≤ (1 + c / parts) * w := h.1
    _ ≤ 2 * w := mul_le_mul_of_nonneg_right (by linarith) hw

theorem one_le_of_within {m : ℚ} (h : Within c m (10 ^ n)) (hc : c ≤ 20000) (moves : 1 ≤ n)
    (hm : 0 ≤ m) : 1 ≤ m := by
  have ten : (10 : ℚ) ≤ 10 ^ n := le_self_pow₀ (by norm_num) (by omega)
  have doubled := le_two_mul h.symm hc hm
  linarith

theorem inUnits_step : 2 * inUnits (2 ^ 64 / Decimal.tenTo 308) ≤ units (66 * 2 ^ 52) := by
  have bound : 2 * (2 ^ 64 * 2 ^ Binary64.unitShift) ≤ units (66 * 2 ^ 52) * Decimal.tenTo 308 := by
    decide +kernel
  have power : (0 : ℚ) < Decimal.tenTo 308 := Nat.cast_pos.mpr (Decimal.tenTo_pos 308)
  have shape : 2 * inUnits (2 ^ 64 / Decimal.tenTo 308) =
      (2 * (2 ^ 64 * 2 ^ Binary64.unitShift) : ℕ) / Decimal.tenTo 308 := by
    rw [inUnits]
    push_cast
    ring
  rw [shape, div_le_iff₀ power, ← Nat.cast_mul]
  exact Nat.cast_le.mpr bound

theorem first_step (positive : 0 < s) (small : s ≤ significandLimit) :
    ∃ p, 0 ≤ p ∧ (Binary64.ofNat s).div (tenTo 308) = nearestTo false p ∧
      Within 19057 p (s / Decimal.tenTo 308) ∧ codeNear (inUnits p) ≤ 66 * 2 ^ 52 := by
  obtain ⟨p, hp, quotient, within⟩ := div_tenTo positive small le_rfl
  rw [← Binary64.tenTo_cast] at within
  refine ⟨p, hp, quotient, within, Binary64.codeNear_le (Decimal.inUnits_nonneg hp) ?_⟩
  have small' : (s : ℚ) ≤ 2 ^ 64 := by exact_mod_cast small.trans significandLimit_le
  have doubled : p ≤ 2 * (s / Decimal.tenTo 308) :=
    le_two_mul within (by norm_num) (by positivity)
  calc inUnits p ≤ 2 * (s / Decimal.tenTo 308) * (2 ^ Binary64.unitShift : ℕ) :=
        mul_le_mul_of_nonneg_right doubled (Nat.cast_nonneg _)
    _ ≤ 2 * (2 ^ 64 / Decimal.tenTo 308) * (2 ^ Binary64.unitShift : ℕ) := by gcongr
    _ = 2 * inUnits (2 ^ 64 / Decimal.tenTo 308) := mul_assoc _ _ _
    _ ≤ units (66 * 2 ^ 52) := inUnits_step

theorem units_codeNear_sub_least {r : ℚ} (nonneg : 0 ≤ r) (least : r < 2 ^ 52) :
    |(units (codeNear r) : ℚ) - r| ≤ 1 / 2 := by
  have start : Binary64.binade r = 0 :=
    Binary64.binade_eq (.inl rfl) (least.trans (by norm_num))
  have near := Binary64.units_codeNear_sub nonneg
  rwa [Binary64.gap, start, pow_zero] at near

theorem abs_position_div_sub {b : ℕ} {p m : ℚ} (hp : 0 ≤ p) (hm : 1 ≤ m)
    (near : |(units b : ℚ) - inUnits p| ≤ 1 / 2) :
    |Binary64.position (inUnits (magnitude b / m)) - Binary64.position (inUnits (p / m))| ≤
      1 / 2 := by
  have positive : 0 < m := one_pos.trans_le hm
  have nonneg : 0 ≤ inUnits (magnitude b / m) :=
    Decimal.inUnits_nonneg (div_nonneg (Binary64.magnitude_nonneg b) positive.le)
  have nonneg' : 0 ≤ inUnits (p / m) := Decimal.inUnits_nonneg (div_nonneg hp positive.le)
  calc |Binary64.position (inUnits (magnitude b / m)) - Binary64.position (inUnits (p / m))|
      ≤ |inUnits (magnitude b / m) - inUnits (p / m)| / Binary64.gap _ :=
        Binary64.abs_position_sub_le nonneg nonneg'
    _ ≤ |inUnits (magnitude b / m) - inUnits (p / m)| :=
        div_le_self (abs_nonneg _) (Binary64.one_le_gap _)
    _ = |(units b : ℚ) - inUnits p| / m := by
        rw [Binary64.inUnits_div, Binary64.inUnits_div, Binary64.inUnits_magnitude, ← sub_div,
          abs_div, abs_of_pos positive]
    _ ≤ |(units b : ℚ) - inUnits p| := div_le_self (abs_nonneg _) hm
    _ ≤ 1 / 2 := near

section

variable {p v' : ℚ} (hp : 0 ≤ p) (finite : codeNear (inUnits p) < infinityCode)
  (within : Within 19057 p v') (hv' : 0 ≤ v') (reached : n ≤ 308)
  (close : Within 49 (v' / 10 ^ n) v) (hv : 0 ≤ v)

include finite within hv' reached close hv

theorem div_normal (normal : 2 ^ 52 ≤ inUnits p) :
    IsNear 4 ((nearestTo false p).div (tenTo n)) v := by
  have tens : (0 : ℚ) < 10 ^ n := by positivity
  have step : Approximates 29059 (nearestTo false p) v' :=
    (Approximates.of_nearestTo normal finite).trans within (by norm_num) (by norm_num) hv'
      (by norm_num [parts])
  obtain ⟨q, hq, divided, within'⟩ := step.div (Binary64.approximates_tenTo reached) (e := 38115)
    (by norm_num) (by norm_num) hv' tens (by norm_num [parts])
  have total : Within 38165 q v :=
    within'.trans close (by norm_num) (by norm_num) hq hv (by norm_num [parts])
  rw [tenTo, divided]
  exact isNear_nearestTo (total.code_sub_le hq hv (by norm_num) (by norm_num) false false)

include hp

-- One of the least doubles is off by half a unit, whatever that is of it, and still is when it is
-- divided.
theorem div_least (moves : 1 ≤ n) (least : inUnits p < 2 ^ 52) :
    IsNear 4 ((nearestTo false p).div (tenTo n)) v := by
  obtain ⟨t, finite', shape, within'⟩ := Binary64.approximates_tenTo reached
  have tens : (0 : ℚ) < 10 ^ n := by positivity
  have nonzero := within'.pos (by norm_num) tens
  have large : 1 ≤ magnitude t := one_le_of_within within' (by norm_num) moves nonzero.le
  have quotient : 0 ≤ p / magnitude t := div_nonneg hp nonzero.le
  have quotient' : 0 ≤ magnitude (codeNear (inUnits p)) / magnitude t :=
    div_nonneg (Binary64.magnitude_nonneg _) nonzero.le
  have first := abs_position_div_sub hp large
    (units_codeNear_sub_least (Decimal.inUnits_nonneg hp) least)
  have unrounded : Within 28113 (p / magnitude t) (v' / 10 ^ n) :=
    within.div within' (by norm_num) (by norm_num) hp hv' tens (by norm_num [parts])
  have total : Within 28163 (p / magnitude t) v :=
    unrounded.trans close (by norm_num) (by norm_num) quotient hv (by norm_num [parts])
  have second := total.inUnits.position_sub_le (Decimal.inUnits_nonneg quotient)
    (Decimal.inUnits_nonneg hv) (by norm_num)
  rw [tenTo, shape, Binary64.nearestTo_of_finite finite,
    Binary64.div_ofCode (finite.trans Binary64.infinityCode_lt_signBit)
      (finite'.trans Binary64.infinityCode_lt_signBit) (Binary64.units_ne_zero nonzero)]
  refine isNear_nearestTo (Binary64.code_nearestTo_sub_le quotient' hv ?_ false false)
  calc _ ≤ _ := abs_sub_le _ (Binary64.position (inUnits (p / magnitude t))) _
    _ ≤ 1 / 2 + 28163 / 10000 := add_le_add first second
    _ < (4 : ℕ) := by norm_num

end

theorem second_step (positive : 0 < s) (small : s ≤ significandLimit) (moves : 1 ≤ n)
    (reached : n ≤ 308) (close : Within 49 (s / Decimal.tenTo 308 / 10 ^ n) v) (hv : 0 ≤ v) :
    IsNear 4 (((Binary64.ofNat s).div (tenTo 308)).div (tenTo n)) v := by
  obtain ⟨p, hp, quotient, within, below⟩ := first_step positive small
  have finite : codeNear (inUnits p) < infinityCode := below.trans_lt (by decide)
  have nonneg : (0 : ℚ) ≤ s / Decimal.tenTo 308 := by positivity
  rw [quotient]
  rcases le_or_gt (2 ^ 52) (inUnits p) with normal | least
  · exact div_normal finite within nonneg reached close hv normal
  · exact div_least hp finite within nonneg reached close hv moves least

theorem nearestTo_of_lt_half {q : ℚ} (hq : 0 ≤ q) (small : inUnits q < 1 / 2) (negative : Bool) :
    nearestTo negative q = .zero negative := by
  rw [nearestTo, Binary64.codeNear_of_lt_half (Decimal.inUnits_nonneg hq) small, Nat.min_zero]
  rfl

theorem four_units_lt : 4 * units (66 * 2 ^ 52) < Decimal.tenTo 308 := by
  decide +kernel

theorem two_steps (positive : 0 < s) (small : s ≤ significandLimit) :
    ((Binary64.ofNat s).div (tenTo 308)).div (tenTo 308) = .zero false := by
  obtain ⟨p, hp, quotient, _, below⟩ := first_step positive small
  have finite : codeNear (inUnits p) < infinityCode := below.trans_lt (by decide)
  obtain ⟨t, finite', shape, within⟩ := Binary64.approximates_tenTo (Nat.le_refl 308)
  rw [← Binary64.tenTo_cast] at within
  have tens : (0 : ℚ) < Decimal.tenTo 308 := Nat.cast_pos.mpr (Decimal.tenTo_pos 308)
  have nonzero := within.pos (by norm_num) tens
  rw [quotient, tenTo, shape, Binary64.nearestTo_of_finite finite,
    Binary64.div_ofCode (finite.trans Binary64.infinityCode_lt_signBit)
      (finite'.trans Binary64.infinityCode_lt_signBit) (Binary64.units_ne_zero nonzero)]
  refine nearestTo_of_lt_half (div_nonneg (Binary64.magnitude_nonneg _) nonzero.le) ?_ false
  have doubled := le_two_mul within.symm (by norm_num) nonzero.le
  have order : (units (codeNear (inUnits p)) : ℚ) ≤ units (66 * 2 ^ 52) :=
    Nat.cast_le.mpr (Binary64.units_strictMono.monotone below)
  have wide : (4 * units (66 * 2 ^ 52) : ℚ) < Decimal.tenTo 308 := by
    exact_mod_cast four_units_lt
  rw [Binary64.inUnits_div, Binary64.inUnits_magnitude, div_lt_iff₀ nonzero]
  linarith

theorem divideSteps_zero (count : ℕ) : divideSteps (.zero false) count = .zero false := by
  cases count <;> rfl

theorem magnitude_zero : magnitude 0 = 0 := by
  have none' : units 0 = 0 := rfl
  rw [magnitude, none', Nat.cast_zero, zero_div]

theorem nearestTo_zero (negative : Bool) : nearestTo negative 0 = .zero negative := by
  refine nearestTo_of_lt_half le_rfl ?_ negative
  rw [inUnits, zero_mul]
  norm_num

theorem zero_mul_tenTo (reached : n ≤ 308) : (Binary64.zero false).mul (tenTo n) = .zero false := by
  obtain ⟨t, finite, shape, _⟩ := Binary64.approximates_tenTo reached
  have zero : 0 < Binary64.signBit := by decide
  rw [tenTo, shape, Binary64.zero,
    Binary64.mul_ofCode zero (finite.trans Binary64.infinityCode_lt_signBit), magnitude_zero,
    zero_mul, nearestTo_zero]
  rfl

theorem zero_div_tenTo (reached : n ≤ 308) : (Binary64.zero false).div (tenTo n) = .zero false := by
  obtain ⟨t, finite, shape, within⟩ := Binary64.approximates_tenTo reached
  have nonzero := within.pos (by norm_num) (by positivity)
  have zero : 0 < Binary64.signBit := by decide
  rw [tenTo, shape, Binary64.zero, Binary64.div_ofCode zero
    (finite.trans Binary64.infinityCode_lt_signBit) (Binary64.units_ne_zero nonzero),
    magnitude_zero, zero_div, nearestTo_zero]
  rfl

theorem isZero_nearestTo {p : ℚ} (h : (nearestTo false p).isZero) :
    nearestTo false p = .zero false := by
  have code : min infinityCode (codeNear (inUnits p)) = 0 := by
    rw [← Binary64.code_nearestTo false p]
    exact beq_iff_eq.mp h
  rw [nearestTo, code]
  rfl

theorem isZero_ofNat (positive : 0 < s) (small : s ≤ significandLimit) :
    (Binary64.ofNat s).isZero = false := by
  obtain ⟨code, finite, shape, within⟩ :=
    Binary64.approximates_ofNat positive (small.trans significandLimit_le)
  have nonzero := Binary64.units_ne_zero (within.pos (by norm_num) (Nat.cast_pos.mpr positive))
  have code' : code ≠ 0 := by
    rintro rfl
    exact nonzero rfl
  rw [shape, Binary64.isZero, Binary64.code_ofCode _ _ (finite.trans (by decide))]
  exact beq_eq_false_iff_ne.mpr code'

theorem divideSteps_two (positive : 0 < s) (small : s ≤ significandLimit) (count : ℕ) :
    divideSteps (.ofNat s) (count + 2) = .zero false := by
  rw [divideSteps, isZero_ofNat positive small, if_neg Bool.false_ne_true, divideSteps]
  split
  · next vanished =>
    obtain ⟨p, _, quotient, _⟩ := first_step positive small
    rw [quotient] at vanished ⊢
    exact isZero_nearestTo vanished
  · rw [two_steps positive small, divideSteps_zero]

theorem least_lt : 4 * (2 ^ 64 * 2 ^ Binary64.unitShift) < Decimal.tenTo 617 := by
  decide +kernel

theorem nearestTo_of_many (small : s ≤ significandLimit) (many : 617 ≤ n)
    (close : Within 49 (s / Decimal.tenTo n) v) (hv : 0 ≤ v) (negative : Bool) :
    nearestTo negative v = .zero negative := by
  refine nearestTo_of_lt_half hv ?_ negative
  have power : (0 : ℚ) < Decimal.tenTo n := Nat.cast_pos.mpr (Decimal.tenTo_pos n)
  have doubled := le_two_mul close.symm (by norm_num) (div_nonneg (Nat.cast_nonneg s) power.le)
  have bound : 4 * (s * 2 ^ Binary64.unitShift) < Decimal.tenTo n := by
    calc 4 * (s * 2 ^ Binary64.unitShift) ≤ 4 * (2 ^ 64 * 2 ^ Binary64.unitShift) :=
          Nat.mul_le_mul_left _ (Nat.mul_le_mul_right _ (small.trans significandLimit_le))
      _ < Decimal.tenTo 617 := least_lt
      _ ≤ Decimal.tenTo n := Binary64.tenTo_mono many
  have bound' : (4 * (s * (2 ^ Binary64.unitShift : ℕ)) : ℚ) < Decimal.tenTo n := by
    exact_mod_cast bound
  calc inUnits v ≤ 2 * (s / Decimal.tenTo n) * (2 ^ Binary64.unitShift : ℕ) :=
        mul_le_mul_of_nonneg_right doubled (Nat.cast_nonneg _)
    _ = 4 * (s * (2 ^ Binary64.unitShift : ℕ)) / Decimal.tenTo n / 2 := by ring
    _ < 1 / 2 := by
      rw [div_lt_div_iff_of_pos_right two_pos, div_lt_one power]
      exact bound'

theorem isNear_zero (h : nearestTo false v = .zero false) (k : ℕ) : IsNear k (.zero false) v := by
  rw [← h]
  apply isNear_nearestTo
  rw [sub_self, abs_zero]
  exact Int.natCast_nonneg k

theorem IsNear.mono {m : ℕ} (h : IsNear k x v) (le : k ≤ m) : IsNear m x v :=
  ⟨h.sign, h.bound, h.near.trans (Int.ofNat_le.mpr le)⟩

theorem scale_isNear {exponent : ℤ} (positive : 0 < s) (small : s ≤ significandLimit)
    (scaled : scale s exponent = some x) (close : Within 49 (s * 10 ^ exponent) v) (hv : 0 ≤ v) :
    IsNear 4 x v ∧ (-308 ≤ exponent → IsNear 2 x v) := by
  cases exponent with
  | ofNat n =>
    rw [Int.ofNat_eq_natCast, zpow_natCast] at close
    simp only [scale] at scaled
    split at scaled
    · next reached =>
      split at scaled <;> cases scaled
      have near := mul_tenTo positive small reached close hv
      exact ⟨near.mono (by decide), fun _ => near⟩
    · rw [isZero_ofNat positive small] at scaled
      cases scaled
  | negSucc n =>
    rw [zpow_negSucc, ← div_eq_mul_inv] at close
    simp only [scale, Option.some.injEq] at scaled
    subst scaled
    have reached : n % 308 + 1 ≤ 308 := Nat.mod_lt n (by decide)
    have split' := Nat.div_add_mod n 308
    match count : n / 308 with
    | 0 =>
      have place : n % 308 + 1 = n + 1 := by omega
      rw [place] at reached ⊢
      have near := div_tenTo_isNear positive small reached close hv
      exact ⟨near.mono (by decide), fun _ => near⟩
    | 1 =>
      have place : n + 1 = 308 + (n % 308 + 1) := by omega
      have far : ¬-308 ≤ Int.negSucc n := by omega
      have close' : Within 49 (s / Decimal.tenTo 308 / 10 ^ (n % 308 + 1)) v := by
        rw [Binary64.tenTo_cast, div_div, ← pow_add, ← place]
        exact close
      have near := second_step positive small (Nat.le_add_left 1 _) reached close' hv
      rw [divideSteps, isZero_ofNat positive small, if_neg Bool.false_ne_true]
      exact ⟨near, fun above => absurd above far⟩
    | m + 2 =>
      have far : ¬-308 ≤ Int.negSucc n := by omega
      rw [← Binary64.tenTo_cast] at close
      have nothing := nearestTo_of_many small (by omega) close hv false
      rw [divideSteps_two positive small, zero_div_tenTo reached]
      exact ⟨isNear_zero nothing 4, fun above => absurd above far⟩

theorem scale_zero {exponent : ℤ} (scaled : scale 0 exponent = some x) : x = .zero false := by
  have zero : Binary64.ofNat 0 = .zero false := by decide +kernel
  cases exponent with
  | ofNat n =>
    simp only [scale, zero] at scaled
    split at scaled
    · next reached =>
      rw [zero_mul_tenTo reached] at scaled
      split at scaled <;> cases scaled
      rfl
    · split at scaled <;> cases scaled
      rfl
  | negSucc n =>
    simp only [scale, zero, Option.some.injEq] at scaled
    rw [← scaled, divideSteps_zero, zero_div_tenTo (Nat.mod_lt n (by decide))]

theorem ofNat_exact {m : ℕ} (short : m ≤ 2 ^ 53) (bound : m * 2 ^ k ≤ Decimal.tenTo 308) :
    ∃ code < infinityCode, Binary64.ofNat (m * 2 ^ k) = .ofCode false code ∧
      magnitude code = (m * 2 ^ k : ℕ) := by
  obtain ⟨code, shown⟩ := Binary64.exists_units short (k + Binary64.unitShift)
  have exact' : inUnits (m * 2 ^ k : ℕ) = units code := by
    rw [shown, inUnits, ← Nat.cast_mul, pow_add, mul_assoc]
  have found : codeNear (inUnits (m * 2 ^ k : ℕ)) = code := by
    rw [exact', Binary64.codeNear_units]
  have finite : code < infinityCode := by
    have below : codeNear (inUnits (m * 2 ^ k : ℕ)) ≤ infinityCode - 1 := by
      refine Binary64.codeNear_le (Decimal.inUnits_nonneg (Nat.cast_nonneg _)) ?_
      rw [inUnits, ← Nat.cast_mul]
      exact Nat.cast_le.mpr ((Nat.mul_le_mul_right _ bound).trans Binary64.tenTo_le_units)
    rw [found] at below
    exact below.trans_lt (by decide)
  refine ⟨code, finite, ?_, ?_⟩
  · rw [Binary64.ofNat_eq, nearestTo, found, Nat.min_eq_right finite.le]
  · rw [magnitude, ← exact', inUnits]
    field_simp

theorem tenTo_exact (short : n ≤ 22) :
    ∃ code < infinityCode, tenTo n = .ofCode false code ∧ magnitude code = 10 ^ n := by
  have factors : Decimal.tenTo n = 5 ^ n * 2 ^ n := by
    rw [Decimal.tenTo_eq, ← mul_pow]
    rfl
  have odd : 5 ^ n ≤ 2 ^ 53 := (Nat.pow_le_pow_right (by decide) short).trans (by decide)
  have bound : 5 ^ n * 2 ^ n ≤ Decimal.tenTo 308 := by
    rw [← factors]
    exact Binary64.tenTo_mono (short.trans (by decide))
  have found := ofNat_exact odd bound
  rw [← factors, Binary64.tenTo_cast] at found
  exact found

theorem scale_exact {exponent : ℤ} (short : s ≤ 2 ^ 53) (low : -22 ≤ exponent)
    (high : exponent ≤ 22) (scaled : scale s exponent = some x) :
    x = nearestTo false (s * 10 ^ exponent) := by
  have bound : s * 2 ^ 0 ≤ Decimal.tenTo 308 := by
    have wide : 2 ^ 53 * 2 ^ 0 ≤ Decimal.tenTo 308 := by decide +kernel
    exact (Nat.mul_le_mul_right _ short).trans wide
  obtain ⟨a, finite, shape, value⟩ := ofNat_exact short bound
  rw [pow_zero, Nat.mul_one] at shape value
  have finite' := finite.trans Binary64.infinityCode_lt_signBit
  cases exponent with
  | ofNat n =>
    have small : n ≤ 22 := Int.ofNat_le.mp high
    obtain ⟨b, reached, power, tens⟩ := tenTo_exact small
    rw [Int.ofNat_eq_natCast, zpow_natCast, ← value, ← tens,
      ← Binary64.mul_ofCode finite' (reached.trans Binary64.infinityCode_lt_signBit), ← shape,
      ← power]
    simp only [scale] at scaled
    rw [if_pos (by omega)] at scaled
    split at scaled <;> cases scaled
    rfl
  | negSucc n =>
    have small : n + 1 ≤ 22 := by omega
    obtain ⟨b, reached, power, tens⟩ := tenTo_exact small
    have nonzero : units b ≠ 0 := Binary64.units_ne_zero (by rw [tens]; positivity)
    have steps : n / 308 = 0 := by omega
    have last : n % 308 = n := by omega
    rw [zpow_negSucc, ← div_eq_mul_inv, ← value, ← tens,
      ← Binary64.div_ofCode finite' (reached.trans Binary64.infinityCode_lt_signBit) nonzero,
      ← shape, ← power]
    simp only [scale, Option.some.injEq, steps, last, divideSteps] at scaled
    exact scaled.symm

theorem scale_whole (positive : 0 < s) (small : s ≤ significandLimit)
    (scaled : scale s 0 = some x) : x = nearestTo false s := by
  obtain ⟨a, finite, shape, _⟩ :=
    Binary64.approximates_ofNat positive (small.trans significandLimit_le)
  obtain ⟨b, finite', power, one⟩ := tenTo_exact (Nat.zero_le 22)
  have rounded : nearestTo false (magnitude a * magnitude b) = .ofCode false a := by
    rw [one, pow_zero, mul_one, nearestTo, Binary64.inUnits_magnitude, Binary64.codeNear_units,
      Nat.min_eq_right finite.le]
  have product : (Binary64.ofNat s).mul (tenTo 0) = nearestTo false s := by
    rw [← Binary64.ofNat_eq, shape, power,
      Binary64.mul_ofCode (finite.trans Binary64.infinityCode_lt_signBit)
        (finite'.trans Binary64.infinityCode_lt_signBit), rounded]
  have unfolded : scale s (Int.ofNat 0) = some x := scaled
  simp only [scale, Nat.zero_le, if_true, product] at unfolded
  split at unfolded <;> cases unfolded
  rfl

end

end DataLiteral.Json

import DataLiteral.Proofs.Binary64.Closeness
import DataLiteral.Proofs.Decimal.Nearest

set_option autoImplicit false

namespace DataLiteral.Binary64

def magnitude (code : ℕ) : ℚ :=
  units code / (2 ^ unitShift : ℕ)

section

variable {a b : ℕ} {x y : Binary64} {c d e v w a' b' : ℚ}

theorem inUnits_magnitude (code : ℕ) : inUnits (magnitude code) = units code := by
  rw [inUnits, magnitude]
  field_simp

theorem magnitude_nonneg (code : ℕ) : 0 ≤ magnitude code := by
  unfold magnitude
  positivity

theorem min_infinityCode_lt (code : ℕ) : min infinityCode code < signBit :=
  (Nat.min_le_left _ _).trans_lt (by decide)

theorem code_nearestTo (negative : Bool) (value : ℚ) :
    (nearestTo negative value).code = min infinityCode (codeNear (inUnits value)) :=
  code_ofCode _ _ (min_infinityCode_lt _)

theorem nearestTo_of_finite {value : ℚ} (finite : codeNear (inUnits value) < infinityCode)
    (negative : Bool) : nearestTo negative value = ofCode negative (codeNear (inUnits value)) := by
  rw [nearestTo, Nat.min_eq_right finite.le]

theorem inUnits_div (v w : ℚ) : inUnits (v / w) = inUnits v / w := by
  rw [inUnits, inUnits]
  ring

theorem code_nearestTo_le (negative : Bool) (value : ℚ) :
    (nearestTo negative value).code ≤ infinityCode := by
  rw [code_nearestTo]
  exact Nat.min_le_left _ _

theorem isNegative_nearestTo (negative : Bool) (value : ℚ) :
    (nearestTo negative value).isNegative = negative :=
  isNegative_ofCode _ _ (min_infinityCode_lt _)

theorem neg_ofCode {code : ℕ} (negative : Bool) (h : code < signBit) :
    (ofCode negative code).neg = ofCode (!negative) code := by
  rw [neg, isNegative_ofCode negative code h, code_ofCode negative code h]

theorem neg_nearestTo (negative : Bool) (value : ℚ) :
    (nearestTo negative value).neg = nearestTo (!negative) value :=
  neg_ofCode negative (min_infinityCode_lt _)

theorem ofNat_eq (n : ℕ) : ofNat n = nearestTo false n := by
  rw [ofNat, ofRatio, nearestCode_eq_codeNear Nat.one_pos rfl]
  rw [Nat.cast_one, div_one, Nat.shiftLeft_eq, Nat.cast_mul]
  rfl

theorem mul_ofCode (ha : a < signBit) (hb : b < signBit) :
    (ofCode false a).mul (ofCode false b) = nearestTo false (magnitude a * magnitude b) := by
  have ratio : ((units a * units b : ℕ) : ℚ) / (1 <<< unitShift : ℕ) =
      inUnits (magnitude a * magnitude b) := by
    rw [Nat.one_shiftLeft, inUnits, magnitude, magnitude, Nat.cast_mul]
    field_simp
  rw [mul, isNegative_ofCode _ _ ha, isNegative_ofCode _ _ hb, code_ofCode _ _ ha,
    code_ofCode _ _ hb, nearestCode_eq_codeNear (by decide +kernel) ratio]
  rfl

theorem div_ofCode (ha : a < signBit) (hb : b < signBit) (nonzero : units b ≠ 0) :
    (ofCode false a).div (ofCode false b) = nearestTo false (magnitude a / magnitude b) := by
  have ratio : ((units a <<< unitShift : ℕ) : ℚ) / (units b : ℕ) =
      inUnits (magnitude a / magnitude b) := by
    rw [Nat.shiftLeft_eq, inUnits, magnitude, magnitude, Nat.cast_mul]
    field_simp
  rw [div, isNegative_ofCode _ _ ha, isNegative_ofCode _ _ hb, code_ofCode _ _ ha,
    code_ofCode _ _ hb, nearestCode_eq_codeNear (Nat.pos_of_ne_zero nonzero) ratio]
  rfl

theorem Within.inUnits (h : Within c v w) : Within c (inUnits v) (inUnits w) :=
  h.scale (Nat.cast_nonneg _)

theorem code_nearestTo_sub_le {k : ℕ} (hv : 0 ≤ v) (hw : 0 ≤ w)
    (apart : |position (inUnits v) - position (inUnits w)| < k) (negative negative' : Bool) :
    |((nearestTo negative v).code : ℤ) - (nearestTo negative' w).code| ≤ k := by
  have codes := codeNear_sub_le (Decimal.inUnits_nonneg hv) (Decimal.inUnits_nonneg hw) apart
  rw [code_nearestTo, code_nearestTo]
  rw [abs_le] at codes ⊢
  omega

theorem Within.code_sub_le (h : Within c v w) {k : ℕ} (hv : 0 ≤ v) (hw : 0 ≤ w) (hc : 0 ≤ c)
    (small : c < 10000 * k) (negative negative' : Bool) :
    |((nearestTo negative v).code : ℤ) - (nearestTo negative' w).code| ≤ k := by
  have bound := h.inUnits.position_sub_le (Decimal.inUnits_nonneg hv) (Decimal.inUnits_nonneg hw) hc
  exact code_nearestTo_sub_le hv hw (by linarith) negative negative'

theorem infinityCode_lt_signBit : infinityCode < signBit := by decide

def Approximates (c : ℚ) (x : Binary64) (v : ℚ) : Prop :=
  ∃ code < infinityCode, x = ofCode false code ∧ Within c (magnitude code) v

theorem Within.pos (h : Within c v w) (hc : 0 ≤ c) (hw : 0 < w) : 0 < v := by
  have grown : w ≤ (1 + c / parts) * v := h.2
  exact pos_of_mul_pos_right (hw.trans_le grown) (factor_pos hc).le

theorem Within.of_inUnits (h : Within c (Binary64.inUnits v) (Binary64.inUnits w)) :
    Within c v w := by
  have back (value : ℚ) : Binary64.inUnits value * ((2 ^ unitShift : ℕ) : ℚ)⁻¹ = value := by
    rw [Binary64.inUnits]
    field_simp
  have scaled := h.scale (inv_nonneg.mpr (Nat.cast_nonneg (2 ^ unitShift)))
  rwa [back, back] at scaled

theorem Approximates.of_nearestTo {p : ℚ} (normal : 2 ^ 52 ≤ Binary64.inUnits p)
    (finite : codeNear (Binary64.inUnits p) < infinityCode) :
    Approximates 10001 (nearestTo false p) p := by
  refine ⟨_, finite, nearestTo_of_finite finite false, .of_inUnits ?_⟩
  rw [inUnits_magnitude]
  exact units_codeNear_within normal

theorem approximates_ofNat {n : ℕ} (positive : 0 < n) (small : n ≤ 2 ^ 64) :
    Approximates 10001 (ofNat n) n := by
  have top : units (1087 * 2 ^ 52) = 2 ^ 64 * 2 ^ unitShift := by decide +kernel
  have one : (1 : ℚ) ≤ n := by exact_mod_cast positive
  rw [ofNat_eq]
  refine .of_nearestTo ?_ ?_
  · calc (2 : ℚ) ^ 52 ≤ (2 ^ unitShift : ℕ) := by
          rw [Nat.cast_pow, Nat.cast_ofNat]
          exact pow_le_pow_right₀ (by norm_num) (by decide)
      _ ≤ inUnits n := le_mul_of_one_le_left (Nat.cast_nonneg _) one
  · have below : codeNear (inUnits n) ≤ 1087 * 2 ^ 52 := by
      refine codeNear_le (Decimal.inUnits_nonneg (Nat.cast_nonneg n)) ?_
      rw [top, Nat.cast_mul, inUnits]
      have small' : (n : ℚ) ≤ (2 ^ 64 : ℕ) := Nat.cast_le.mpr small
      exact mul_le_mul_of_nonneg_right small' (Nat.cast_nonneg _)
    exact below.trans_lt (by decide)

def lastPlace (n : ℕ) : ℕ :=
  n * 217706 / 65536 - 52

def shortPower (n : ℕ) : ℕ :=
  (10 ^ n + 2 ^ lastPlace n / 2) / 2 ^ lastPlace n

theorem shortPower_near : ∀ n < 309, shortPower n ≤ 2 ^ 53 ∧
    shortPower n * 2 ^ lastPlace n * (2 ^ 53 * 10000) ≤ (2 ^ 53 * 10000 + 9054) * 10 ^ n ∧
    (2 ^ 53 * 10000 - 9054) * 10 ^ n ≤ shortPower n * 2 ^ lastPlace n * (2 ^ 53 * 10000) := by
  decide +kernel

theorem abs_shortPower_sub {n : ℕ} (small : n ≤ 308) :
    |(shortPower n * 2 ^ lastPlace n - 10 ^ n : ℚ)| ≤ 9054 / parts * 10 ^ n := by
  obtain ⟨_, above, below⟩ := shortPower_near n (Nat.lt_succ_of_le small)
  have above' : (shortPower n * 2 ^ lastPlace n : ℚ) * parts ≤ (parts + 9054) * 10 ^ n := by
    rw [parts]
    exact_mod_cast above
  have below' : (parts - 9054) * 10 ^ n ≤ (shortPower n * 2 ^ lastPlace n : ℚ) * parts := by
    rw [parts]
    have whole : ((2 ^ 53 * 10000 - 9054 : ℕ) : ℚ) = 2 ^ 53 * 10000 - 9054 := by norm_num
    rw [← whole]
    exact_mod_cast below
  rw [div_mul_eq_mul_div, le_div_iff₀ parts_pos, ← abs_of_pos parts_pos, ← abs_mul, abs_le]
  constructor <;> linarith

theorem tenTo_le_units : Decimal.tenTo 308 * 2 ^ unitShift ≤ units (infinityCode - 1) := by
  decide +kernel

theorem tenTo_mono {m n : ℕ} (h : m ≤ n) : Decimal.tenTo m ≤ Decimal.tenTo n :=
  Nat.pow_le_pow_right (by decide) h

theorem tenTo_cast (n : ℕ) : ((Decimal.tenTo n : ℕ) : ℚ) = 10 ^ n := by
  rw [Decimal.tenTo_eq, Nat.cast_pow, Nat.cast_ofNat]

theorem approximates_tenTo {n : ℕ} (small : n ≤ 308) :
    Approximates 9055 (ofNat (Decimal.tenTo n)) (10 ^ n) := by
  have nonneg : 0 ≤ inUnits (10 ^ n) := Decimal.inUnits_nonneg (by positivity)
  have finite : codeNear (inUnits (10 ^ n)) < infinityCode := by
    have bound := (Nat.mul_le_mul_right (2 ^ unitShift) (tenTo_mono small)).trans tenTo_le_units
    have below : codeNear (inUnits (10 ^ n)) ≤ infinityCode - 1 := by
      refine codeNear_le nonneg ?_
      rw [inUnits, ← tenTo_cast, ← Nat.cast_mul]
      exact Nat.cast_le.mpr bound
    exact below.trans_lt (by decide)
  obtain ⟨code, shown⟩ := exists_units (shortPower_near n (Nat.lt_succ_of_le small)).1
    (lastPlace n + unitShift)
  have scaled : (units code : ℚ) = inUnits (shortPower n * 2 ^ lastPlace n) := by
    rw [shown, inUnits, pow_add]
    push_cast
    ring
  have close : |(units (codeNear (inUnits (10 ^ n))) : ℚ) - inUnits (10 ^ n)| ≤
      9054 / parts * inUnits (10 ^ n) := by
    calc |(units (codeNear (inUnits (10 ^ n))) : ℚ) - inUnits (10 ^ n)|
        ≤ |(units code : ℚ) - inUnits (10 ^ n)| := codeNear_nearest nonneg code
      _ = |(shortPower n * 2 ^ lastPlace n - 10 ^ n : ℚ)| * (2 ^ unitShift : ℕ) := by
        rw [scaled, inUnits, inUnits, ← sub_mul, abs_mul, Nat.abs_cast]
      _ ≤ 9054 / parts * 10 ^ n * (2 ^ unitShift : ℕ) :=
        mul_le_mul_of_nonneg_right (abs_shortPower_sub small) (Nat.cast_nonneg _)
      _ = 9054 / parts * inUnits (10 ^ n) := mul_assoc _ _ _
  rw [ofNat_eq, tenTo_cast]
  refine ⟨_, finite, nearestTo_of_finite finite false, .of_inUnits ?_⟩
  have near := within_of_abs_sub_le close (by norm_num) (by norm_num) nonneg
  rw [inUnits_magnitude]
  norm_num at near ⊢
  exact near

theorem Approximates.trans (h : Approximates c x v) (close : Within d v w) (hc : 0 ≤ c) (hd : 0 ≤ d)
    (hw : 0 ≤ w) (total : c + d + c * d / parts ≤ e) : Approximates e x w := by
  obtain ⟨code, finite, rfl, within⟩ := h
  exact ⟨code, finite, rfl, within.trans close hc hd (magnitude_nonneg code) hw total⟩

theorem Approximates.mul (hx : Approximates c x v) (hy : Approximates d y w) (hc : 0 ≤ c)
    (hd : 0 ≤ d) (hv : 0 ≤ v) (hw : 0 ≤ w) (total : c + d + c * d / parts ≤ e) :
    ∃ p, 0 ≤ p ∧ x.mul y = nearestTo false p ∧ Within e p (v * w) := by
  obtain ⟨a, finite, rfl, close⟩ := hx
  obtain ⟨b, finite', rfl, close'⟩ := hy
  have nonneg := magnitude_nonneg a
  have nonneg' := magnitude_nonneg b
  refine ⟨_, mul_nonneg nonneg nonneg', mul_ofCode (finite.trans infinityCode_lt_signBit)
    (finite'.trans infinityCode_lt_signBit), ?_⟩
  exact close.mul close' hc hd nonneg hv nonneg' hw total

theorem Within.div (h : Within c a' v) (h' : Within d b' w) (hc : 0 ≤ c) (hd : 0 ≤ d)
    (ha : 0 ≤ a') (hv : 0 ≤ v) (hw : 0 < w) (total : c + d + c * d / parts ≤ e) :
    Within e (a' / b') (v / w) := by
  have positive := h'.pos hd hw
  rw [div_eq_mul_inv, div_eq_mul_inv]
  exact h.mul (h'.inv positive hw) hc hd ha hv (inv_nonneg.mpr positive.le) (inv_nonneg.mpr hw.le)
    total

theorem units_ne_zero (h : 0 < magnitude b) : units b ≠ 0 := by
  intro zero
  rw [magnitude, zero, Nat.cast_zero, zero_div] at h
  exact lt_irrefl 0 h

theorem Approximates.div (hx : Approximates c x v) (hy : Approximates d y w) (hc : 0 ≤ c)
    (hd : 0 ≤ d) (hv : 0 ≤ v) (hw : 0 < w) (total : c + d + c * d / parts ≤ e) :
    ∃ p, 0 ≤ p ∧ x.div y = nearestTo false p ∧ Within e p (v / w) := by
  obtain ⟨a, finite, rfl, close⟩ := hx
  obtain ⟨b, finite', rfl, close'⟩ := hy
  have nonneg := magnitude_nonneg a
  have positive := close'.pos hd hw
  refine ⟨_, div_nonneg nonneg positive.le, div_ofCode (finite.trans infinityCode_lt_signBit)
    (finite'.trans infinityCode_lt_signBit) (units_ne_zero positive), ?_⟩
  exact close.div close' hc hd nonneg hv hw total

end

end DataLiteral.Binary64

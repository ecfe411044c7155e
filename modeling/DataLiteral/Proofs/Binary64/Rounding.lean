import Mathlib
import DataLiteral.Binary64

set_option autoImplicit false

namespace DataLiteral.Binary64

theorem fractions_eq : fractions = 2 ^ 52 := by decide

/-- How often the least gap between doubles has doubled at a magnitude, counted in least positive
doubles. -/
def binade (r : ℚ) : ℕ :=
  ⌊r⌋₊.log2 - 52

def gap (r : ℚ) : ℚ :=
  2 ^ binade r

/-- Where a magnitude stands among the codes: the code itself for a double, and between two codes
for a number between two doubles. -/
def position (r : ℚ) : ℚ :=
  binade r * 2 ^ 52 + r / gap r

theorem gap_pos (r : ℚ) : 0 < gap r :=
  pow_pos (by norm_num) _

theorem one_le_gap (r : ℚ) : 1 ≤ gap r :=
  one_le_pow₀ (by norm_num)

theorem binade_mono {a b : ℚ} (h : a ≤ b) : binade a ≤ binade b := by
  rw [binade, binade, Nat.log2_eq_log_two, Nat.log2_eq_log_two]
  exact Nat.sub_le_sub_right (Nat.log_mono_right (Nat.floor_mono h)) 52

theorem lt_gap {r : ℚ} : r < 2 ^ 53 * gap r := by
  have digits : ⌊r⌋₊ < 2 ^ (⌊r⌋₊.log2 + 1) := Nat.lt_log2_self
  have wide : ⌊r⌋₊.log2 + 1 ≤ 53 + binade r := by
    unfold binade
    omega
  have bound : ⌊r⌋₊ + 1 ≤ 2 ^ (53 + binade r) :=
    Nat.succ_le_of_lt (digits.trans_le (Nat.pow_le_pow_right (by decide) wide))
  calc r < ⌊r⌋₊ + 1 := Nat.lt_floor_add_one r
    _ ≤ 2 ^ (53 + binade r) := by exact_mod_cast bound
    _ = 2 ^ 53 * gap r := pow_add _ _ _

theorem gap_le {r : ℚ} (h : binade r ≠ 0) : 2 ^ 52 * gap r ≤ r := by
  have wide : 52 + binade r = ⌊r⌋₊.log2 := by
    unfold binade at h ⊢
    omega
  have nonzero : ⌊r⌋₊ ≠ 0 := by
    intro zero
    rw [binade, zero] at h
    exact h (by decide)
  have bound : 2 ^ (52 + binade r) ≤ ⌊r⌋₊ := by
    rw [wide]
    exact Nat.log2_self_le nonzero
  have positive : 0 ≤ r := by
    by_contra negative
    exact nonzero (Nat.floor_of_nonpos (le_of_lt (not_le.mp negative)))
  calc 2 ^ 52 * gap r = 2 ^ (52 + binade r) := (pow_add _ _ _).symm
    _ ≤ (⌊r⌋₊ : ℚ) := by exact_mod_cast bound
    _ ≤ r := Nat.floor_le positive

theorem binade_eq {r : ℚ} {s : ℕ} (lower : s = 0 ∨ 2 ^ 52 * 2 ^ s ≤ r) (upper : r < 2 ^ 53 * 2 ^ s) :
    binade r = s := by
  have notAbove : binade r ≤ s := by
    by_contra above
    have low := gap_le (r := r) (by omega)
    have power : (2 : ℚ) ^ (s + 1) ≤ gap r := pow_le_pow_right₀ (by norm_num) (by omega)
    rw [pow_succ] at power
    linarith
  have notBelow : s ≤ binade r := by
    by_contra below
    have high := lt_gap (r := r)
    have power : gap r * 2 ≤ 2 ^ s := by
      rw [gap, ← pow_succ]
      exact pow_le_pow_right₀ (by norm_num) (by omega)
    rcases lower with zero | lower
    · omega
    · linarith
  exact le_antisymm notAbove notBelow

theorem position_of {r : ℚ} {s : ℕ} (lower : s = 0 ∨ 2 ^ 52 * 2 ^ s ≤ r)
    (upper : r < 2 ^ 53 * 2 ^ s) : position r = s * 2 ^ 52 + r / 2 ^ s := by
  rw [position, gap, binade_eq lower upper]

theorem units_add {s m : ℕ} (lower : s = 0 ∨ 2 ^ 52 ≤ m) (upper : m ≤ 2 ^ 53) :
    units (s * 2 ^ 52 + m) = m * 2 ^ s := by
  unfold units
  rw [fractions_eq]
  by_cases small : m < 2 ^ 52
  · obtain rfl : s = 0 := by omega
    rw [if_pos (by omega)]
    simp
  by_cases top : m = 2 ^ 53
  · subst top
    have quotient : (s * 2 ^ 52 + 2 ^ 53) / 2 ^ 52 = s + 2 := by omega
    have remainder : (s * 2 ^ 52 + 2 ^ 53) % 2 ^ 52 = 0 := by omega
    have shift : s + 2 - 1 = s + 1 := by omega
    rw [if_neg (by omega), quotient, remainder, Nat.shiftLeft_eq, shift, pow_succ]
    ring
  · have quotient : (s * 2 ^ 52 + m) / 2 ^ 52 = s + 1 := by omega
    have remainder : (s * 2 ^ 52 + m) % 2 ^ 52 = m - 2 ^ 52 := by omega
    rw [if_neg (by omega), quotient, remainder, Nat.shiftLeft_eq, Nat.add_sub_cancel,
      Nat.add_sub_cancel' (by omega)]

theorem exists_significand (code : ℕ) :
    ∃ s m, code = s * 2 ^ 52 + m ∧ (s = 0 ∨ 2 ^ 52 ≤ m) ∧ m < 2 ^ 53 := by
  by_cases small : code < 2 ^ 52
  · exact ⟨0, code, by omega, .inl rfl, by omega⟩
  · exact ⟨code / 2 ^ 52 - 1, code % 2 ^ 52 + 2 ^ 52, by omega, .inr (by omega), by omega⟩

theorem position_units (code : ℕ) : position (units code) = code := by
  obtain ⟨s, m, rfl, lower, upper⟩ := exists_significand code
  rw [units_add lower upper.le]
  have power : (0 : ℚ) < 2 ^ s := by positivity
  have low : s = 0 ∨ (2 : ℚ) ^ 52 * 2 ^ s ≤ ((m * 2 ^ s : ℕ) : ℚ) := by
    refine lower.imp_right fun lower => ?_
    push_cast
    exact mul_le_mul_of_nonneg_right (by exact_mod_cast lower) power.le
  have high : ((m * 2 ^ s : ℕ) : ℚ) < 2 ^ 53 * 2 ^ s := by
    push_cast
    exact mul_lt_mul_of_pos_right (by exact_mod_cast upper) power
  rw [position_of low high, Nat.cast_mul, Nat.cast_pow, Nat.cast_ofNat,
    mul_div_cancel_right₀ _ power.ne']
  norm_cast

theorem position_sub {a b : ℚ} (nonneg : 0 ≤ a) (h : a ≤ b) :
    position a ≤ position b ∧ position b - position a ≤ (b - a) / gap a := by
  obtain ⟨k, shift⟩ : ∃ k, binade b = binade a + k := ⟨_, (Nat.add_sub_of_le (binade_mono h)).symm⟩
  have positive := gap_pos a
  have power : gap b = gap a * 2 ^ k := by rw [gap, gap, shift, pow_add]
  have low := lt_gap (r := a)
  simp only [position, power, shift]
  push_cast
  generalize gap a = g at *
  cases k with
  | zero =>
    have grows : a / g ≤ b / g := by gcongr
    have same : (b - a) / g = b / g - a / g := sub_div b a g
    simp only [Nat.cast_zero, pow_zero, mul_one, add_zero]
    constructor <;> linarith
  | succ k =>
    have high := gap_le (r := b) (by omega)
    rw [power] at high
    obtain ⟨x, rfl⟩ : ∃ x, b = x * (g * 2 ^ (k + 1)) := ⟨b / (g * 2 ^ (k + 1)), by field_simp⟩
    obtain ⟨y, rfl⟩ : ∃ y, a = y * g := ⟨a / g, by field_simp⟩
    have wide : (0 : ℚ) < g * 2 ^ (k + 1) := by positivity
    have xLow : 2 ^ 52 ≤ x := le_of_mul_le_mul_right high wide
    have yHigh : y < 2 ^ 53 := lt_of_mul_lt_mul_right low positive.le
    have doubles : (k + 1 : ℚ) + 1 ≤ 2 ^ (k + 1) := by exact_mod_cast Nat.lt_two_pow_self
    have rises : 2 ^ 52 * (k + 1) ≤ x * (2 ^ (k + 1) - 1) := by
      have step : (k + 1 : ℚ) ≤ 2 ^ (k + 1) - 1 := by linarith
      exact mul_le_mul xLow step (by positivity) (by linarith)
    rw [mul_div_cancel_right₀ _ wide.ne', mul_div_cancel_right₀ _ positive.ne']
    have quotient : (x * (g * 2 ^ (k + 1)) - y * g) / g = x * 2 ^ (k + 1) - y := by
      field_simp
    rw [quotient]
    have count : (0 : ℚ) ≤ k := Nat.cast_nonneg k
    constructor <;> push_cast <;> nlinarith

theorem roundQuotient_nearest (num : ℕ) {den : ℕ} (h : 0 < den) :
    |(roundQuotient num den : ℚ) - num / den| < 1 / 2 ∨
      |(roundQuotient num den : ℚ) - num / den| = 1 / 2 ∧ roundQuotient num den % 2 = 0 := by
  have positive : (0 : ℚ) < den := by exact_mod_cast h
  have split : (num : ℚ) = den * (num / den : ℕ) + (num % den : ℕ) := by
    exact_mod_cast (Nat.div_add_mod num den).symm
  have ratio : (num : ℚ) / den = (num / den : ℕ) + (num % den : ℕ) / den := by
    rw [split, add_div, mul_div_cancel_left₀ _ positive.ne']
  have nonneg : (0 : ℚ) ≤ (num % den : ℕ) / den := by positivity
  have less : ((num % den : ℕ) : ℚ) / den < 1 := by
    rw [div_lt_one positive]
    exact_mod_cast Nat.mod_lt num h
  rw [ratio, roundQuotient]
  split
  · next below =>
    have half : ((num % den : ℕ) : ℚ) / den < 1 / 2 := by
      rw [div_lt_div_iff₀ positive (by norm_num)]
      exact_mod_cast (by omega)
    refine .inl (abs_lt.mpr ?_)
    constructor <;> linarith
  split
  · next above =>
    have half : 1 / 2 < ((num % den : ℕ) : ℚ) / den := by
      rw [div_lt_div_iff₀ (by norm_num) positive]
      exact_mod_cast (by omega)
    refine .inl (abs_lt.mpr ?_)
    push_cast
    constructor <;> linarith
  · have tie : ((num % den : ℕ) : ℚ) / den = 1 / 2 := by
      rw [div_eq_div_iff positive.ne' (by norm_num)]
      exact_mod_cast (by omega)
    refine .inr ⟨?_, by omega⟩
    rw [tie]
    rcases Nat.mod_two_eq_zero_or_one (num / den) with even | odd
    · rw [even, Nat.add_zero, sub_add_cancel_left, abs_neg, abs_of_pos (by norm_num)]
    · rw [odd, Nat.cast_add, add_sub_add_left_eq_sub, abs_of_pos (by norm_num)]
      norm_num

def rawCode (num den : ℕ) : ℕ :=
  ((num / den).log2 - 52) * fractions + roundQuotient num (den <<< ((num / den).log2 - 52))

theorem nearestCode_eq (num den : ℕ) : nearestCode num den = min infinityCode (rawCode num den) :=
  rfl

theorem eq_of_abs_sub_lt_one {a b : ℕ} (h : |(a : ℚ) - b| < 1) : a = b := by
  have whole : |(a : ℤ) - b| < 1 := by exact_mod_cast h
  exact_mod_cast sub_eq_zero.mp (Int.abs_lt_one_iff.mp whole)

section

variable {num den : ℕ} {r : ℚ}

theorem exists_rawCode (h : 0 < den) (ratio : (num : ℚ) / den = r) :
    ∃ m : ℕ, rawCode num den = binade r * 2 ^ 52 + m ∧
      |(m : ℚ) - r / gap r| ≤ 1 / 2 ∧ (|(m : ℚ) - r / gap r| = 1 / 2 → m % 2 = 0) := by
  subst ratio
  have shift : (num / den).log2 - 52 = binade ((num : ℚ) / den) := by
    rw [binade, Nat.floor_div_eq_div]
  refine ⟨roundQuotient num (den <<< binade ((num : ℚ) / den)), ?_, ?_⟩
  · rw [rawCode, shift, fractions_eq]
  have scaled : 0 < den <<< binade ((num : ℚ) / den) := by
    rw [Nat.shiftLeft_eq]
    positivity
  have rounded := roundQuotient_nearest num scaled
  have same : (num : ℚ) / (den <<< binade ((num : ℚ) / den) : ℕ) =
      num / den / gap (num / den) := by
    rw [Nat.shiftLeft_eq, div_div, gap]
    push_cast
    rfl
  rw [same] at rounded
  rcases rounded with close | ⟨tie, even⟩
  · exact ⟨close.le, fun tie => absurd tie close.ne⟩
  · exact ⟨tie.le, fun _ => even⟩

theorem rawCode_sub (h : 0 < den) (ratio : (num : ℚ) / den = r) :
    |(rawCode num den : ℚ) - position r| ≤ 1 / 2 := by
  obtain ⟨m, code, close, _⟩ := exists_rawCode h ratio
  rw [code, position, Nat.cast_add, Nat.cast_mul, Nat.cast_pow, Nat.cast_ofNat,
    add_sub_add_left_eq_sub]
  exact close

theorem significand_bounds {m : ℕ} (close : |(m : ℚ) - r / gap r| ≤ 1 / 2) :
    (binade r = 0 ∨ 2 ^ 52 ≤ m) ∧ m ≤ 2 ^ 53 := by
  have positive := gap_pos r
  obtain ⟨below, above⟩ := abs_le.mp close
  have quotient : r / gap r < 2 ^ 53 := (div_lt_iff₀ positive).mpr lt_gap
  have high : (m : ℚ) < 2 ^ 53 + 1 := by linarith
  refine ⟨?_, Nat.lt_succ_iff.mp (by exact_mod_cast high)⟩
  by_cases zero : binade r = 0
  · exact .inl zero
  · have least : 2 ^ 52 ≤ r / gap r := (le_div_iff₀ positive).mpr (gap_le zero)
    have low : (2 ^ 52 : ℚ) < m + 1 := by linarith
    exact .inr (Nat.lt_succ_iff.mp (by exact_mod_cast low))

theorem units_significand {m : ℕ} (low : binade r = 0 ∨ 2 ^ 52 ≤ m) (high : m ≤ 2 ^ 53) :
    (units (binade r * 2 ^ 52 + m) : ℚ) - r = (m - r / gap r) * gap r := by
  rw [units_add low high, sub_mul, div_mul_cancel₀ _ (gap_pos r).ne', gap, Nat.cast_mul,
    Nat.cast_pow, Nat.cast_ofNat]

theorem units_rawCode_sub (h : 0 < den) (ratio : (num : ℚ) / den = r) :
    |(units (rawCode num den) : ℚ) - r| ≤ gap r / 2 := by
  obtain ⟨m, code, close, _⟩ := exists_rawCode h ratio
  obtain ⟨low, high⟩ := significand_bounds close
  have positive := gap_pos r
  rw [code, units_significand low high, abs_mul, abs_of_pos positive]
  calc |(m : ℚ) - r / gap r| * gap r ≤ 1 / 2 * gap r := by gcongr
    _ = gap r / 2 := by ring

theorem units_strictMono : StrictMono units := by
  intro a b less
  by_contra above
  have swapped : (units b : ℚ) ≤ units a := by exact_mod_cast not_lt.mp above
  have order := (position_sub (Nat.cast_nonneg _) swapped).1
  rw [position_units, position_units] at order
  exact absurd (by exact_mod_cast order) (Nat.not_le.mpr less)

theorem far_below {m code : ℕ} (low : binade r = 0 ∨ 2 ^ 52 ≤ m) (high : m ≤ 2 ^ 53)
    (close : |(m : ℚ) - r / gap r| ≤ 1 / 2) (less : code < binade r * 2 ^ 52 + m) :
    gap r / 2 ≤ |(units code : ℚ) - r| ∨
      |(units (binade r * 2 ^ 52 + m) : ℚ) - r| < |(units code : ℚ) - r| := by
  have positive := gap_pos r
  by_cases inside : binade r = 0 ∨ 2 ^ 52 ≤ m - 1
  · have nonzero : 1 ≤ m := by omega
    have next := units_significand (r := r) inside (by omega)
    rw [Nat.cast_sub nonzero, Nat.cast_one] at next
    have order : (units code : ℚ) ≤ units (binade r * 2 ^ 52 + (m - 1)) := by
      exact_mod_cast units_strictMono.monotone (by omega)
    have half : 1 / 2 ≤ -((m : ℚ) - 1 - r / gap r) := by linarith [(abs_le.mp close).2]
    refine .inl (le_abs.mpr (.inr ?_))
    calc gap r / 2 = 1 / 2 * gap r := by ring
      _ ≤ -(m - 1 - r / gap r) * gap r := mul_le_mul_of_nonneg_right half positive.le
      _ = -(units (binade r * 2 ^ 52 + (m - 1)) - r) := by rw [next, neg_mul]
      _ ≤ -(units code - r) := neg_le_neg (sub_le_sub_right order r)
  · have least : m = 2 ^ 52 := by omega
    have start : 2 ^ 52 ≤ r / gap r := (le_div_iff₀ positive).mpr (gap_le (by omega))
    have order : (units code : ℚ) < units (binade r * 2 ^ 52 + m) := by
      exact_mod_cast units_strictMono less
    have reached : (units (binade r * 2 ^ 52 + m) : ℚ) - r ≤ 0 := by
      rw [units_significand low high]
      refine mul_nonpos_of_nonpos_of_nonneg (sub_nonpos.mpr ?_) positive.le
      rwa [least, Nat.cast_pow, Nat.cast_ofNat]
    rw [abs_of_nonpos reached, abs_of_nonpos (by linarith)]
    exact .inr (neg_lt_neg (sub_lt_sub_right order r))

theorem far_above {m code : ℕ} (low : binade r = 0 ∨ 2 ^ 52 ≤ m) (high : m ≤ 2 ^ 53)
    (close : |(m : ℚ) - r / gap r| ≤ 1 / 2) (more : binade r * 2 ^ 52 + m < code) :
    gap r / 2 ≤ |(units code : ℚ) - r| ∨
      |(units (binade r * 2 ^ 52 + m) : ℚ) - r| < |(units code : ℚ) - r| := by
  have positive := gap_pos r
  by_cases inside : m + 1 ≤ 2 ^ 53
  · have next := units_significand (r := r) (m := m + 1) (by omega) inside
    rw [Nat.cast_add, Nat.cast_one] at next
    have order : (units (binade r * 2 ^ 52 + (m + 1)) : ℚ) ≤ units code := by
      exact_mod_cast units_strictMono.monotone (by omega)
    have half : 1 / 2 ≤ (m : ℚ) + 1 - r / gap r := by linarith [(abs_le.mp close).1]
    refine .inl (le_abs.mpr (.inl ?_))
    calc gap r / 2 = 1 / 2 * gap r := by ring
      _ ≤ (m + 1 - r / gap r) * gap r := mul_le_mul_of_nonneg_right half positive.le
      _ = units (binade r * 2 ^ 52 + (m + 1)) - r := next.symm
      _ ≤ units code - r := sub_le_sub_right order r
  · have most : m = 2 ^ 53 := by omega
    have stop : r / gap r ≤ 2 ^ 53 := ((div_lt_iff₀ positive).mpr lt_gap).le
    have order : (units (binade r * 2 ^ 52 + m) : ℚ) < units code := by
      exact_mod_cast units_strictMono more
    have reached : 0 ≤ (units (binade r * 2 ^ 52 + m) : ℚ) - r := by
      rw [units_significand low high]
      refine mul_nonneg (sub_nonneg.mpr ?_) positive.le
      rwa [most, Nat.cast_pow, Nat.cast_ofNat]
    rw [abs_of_nonneg reached, abs_of_nonneg (by linarith)]
    exact .inr (sub_lt_sub_right order r)

theorem rawCode_nearest (h : 0 < den) (ratio : (num : ℚ) / den = r) {code : ℕ}
    (other : code ≠ rawCode num den) :
    |(units (rawCode num den) : ℚ) - r| ≤ |(units code : ℚ) - r| ∧
      (|(units (rawCode num den) : ℚ) - r| = |(units code : ℚ) - r| →
        rawCode num den % 2 = 0) := by
  obtain ⟨m, found, close, even⟩ := exists_rawCode h ratio
  obtain ⟨low, high⟩ := significand_bounds close
  have positive := gap_pos r
  have distance : |(units (rawCode num den) : ℚ) - r| = |(m : ℚ) - r / gap r| * gap r := by
    rw [found, units_significand low high, abs_mul, abs_of_pos positive]
  have far : gap r / 2 ≤ |(units code : ℚ) - r| ∨
      |(units (rawCode num den) : ℚ) - r| < |(units code : ℚ) - r| := by
    rw [found] at other ⊢
    rcases Nat.lt_or_gt_of_ne other with less | more
    · exact far_below low high close less
    · exact far_above low high close more
  rcases far with half | beyond
  · have within : |(m : ℚ) - r / gap r| * gap r ≤ 1 / 2 * gap r := by gcongr
    refine ⟨by rw [distance]; linarith, fun tie => ?_⟩
    rw [distance] at tie
    have exact' : |(m : ℚ) - r / gap r| * gap r = 1 / 2 * gap r := by linarith
    have parity := even (mul_right_cancel₀ positive.ne' exact')
    omega
  · exact ⟨beyond.le, fun tie => absurd tie beyond.ne⟩

theorem rawCode_eq_of_lt {code : ℕ} (h : 0 < den) (ratio : (num : ℚ) / den = r)
    (close : |position r - code| < 1 / 2) : rawCode num den = code := by
  have rounded := rawCode_sub h ratio
  have apart : |(rawCode num den : ℚ) - code| < 1 := by
    calc |(rawCode num den : ℚ) - code|
        ≤ |(rawCode num den : ℚ) - position r| + |position r - code| := abs_sub_le _ _ _
      _ < 1 := by linarith
  exact eq_of_abs_sub_lt_one apart

end

theorem roundQuotient_mul {k : ℕ} (h : 0 < k) (num den : ℕ) :
    roundQuotient (k * num) (k * den) = roundQuotient num den := by
  simp only [roundQuotient, Nat.mul_mod_mul_left, Nat.mul_div_mul_left _ _ h, Nat.mul_left_comm 2 k,
    Nat.mul_lt_mul_left h]

theorem rawCode_mul {k : ℕ} (h : 0 < k) (num den : ℕ) :
    rawCode (k * num) (k * den) = rawCode num den := by
  simp only [rawCode, Nat.mul_div_mul_left _ _ h, Nat.shiftLeft_eq, Nat.mul_assoc,
    roundQuotient_mul h]

theorem rawCode_congr {num den num' den' : ℕ} (h : 0 < den) (h' : 0 < den')
    (same : (num : ℚ) / den = num' / den') : rawCode num den = rawCode num' den' := by
  rw [div_eq_div_iff (by exact_mod_cast h.ne') (by exact_mod_cast h'.ne')] at same
  have cross : num * den' = num' * den := by exact_mod_cast same
  calc rawCode num den = rawCode (den' * num) (den' * den) := (rawCode_mul h' _ _).symm
    _ = rawCode (den * num') (den * den') := by
      rw [Nat.mul_comm den' num, cross, Nat.mul_comm num' den, Nat.mul_comm den' den]
    _ = rawCode num' den' := rawCode_mul h _ _

def codeNear (r : ℚ) : ℕ :=
  rawCode r.num.toNat r.den

theorem ratio_self {r : ℚ} (nonneg : 0 ≤ r) : (r.num.toNat : ℚ) / r.den = r := by
  have cast : ((r.num.toNat : ℤ) : ℚ) = r.num :=
    congrArg _ (Int.toNat_of_nonneg (Rat.num_nonneg.mpr nonneg))
  rw [Int.cast_natCast] at cast
  rw [cast, Rat.num_div_den]

theorem rawCode_eq_codeNear {num den : ℕ} {r : ℚ} (h : 0 < den) (ratio : (num : ℚ) / den = r) :
    rawCode num den = codeNear r := by
  have nonneg : 0 ≤ r := ratio ▸ by positivity
  exact rawCode_congr h r.den_pos (ratio.trans (ratio_self nonneg).symm)

theorem nearestCode_eq_codeNear {num den : ℕ} {r : ℚ} (h : 0 < den)
    (ratio : (num : ℚ) / den = r) : nearestCode num den = min infinityCode (codeNear r) := by
  rw [nearestCode_eq, rawCode_eq_codeNear h ratio]

section

variable {r : ℚ}

theorem codeNear_sub (nonneg : 0 ≤ r) : |(codeNear r : ℚ) - position r| ≤ 1 / 2 :=
  rawCode_sub r.den_pos (ratio_self nonneg)

theorem units_codeNear_sub (nonneg : 0 ≤ r) : |(units (codeNear r) : ℚ) - r| ≤ gap r / 2 :=
  units_rawCode_sub r.den_pos (ratio_self nonneg)

theorem codeNear_nearest (nonneg : 0 ≤ r) (code : ℕ) :
    |(units (codeNear r) : ℚ) - r| ≤ |(units code : ℚ) - r| := by
  by_cases same : code = codeNear r
  · rw [same]
  · exact (rawCode_nearest r.den_pos (ratio_self nonneg) same).1

theorem codeNear_even (nonneg : 0 ≤ r) {code : ℕ} (other : code ≠ codeNear r)
    (tie : |(units (codeNear r) : ℚ) - r| = |(units code : ℚ) - r|) : codeNear r % 2 = 0 :=
  (rawCode_nearest r.den_pos (ratio_self nonneg) other).2 tie

theorem codeNear_eq_of_lt {code : ℕ} (nonneg : 0 ≤ r) (close : |position r - code| < 1 / 2) :
    codeNear r = code :=
  rawCode_eq_of_lt r.den_pos (ratio_self nonneg) close

-- From here on the code is known by these facts only.
attribute [irreducible] codeNear

theorem codeNear_units (code : ℕ) : codeNear (units code) = code := by
  refine codeNear_eq_of_lt (Nat.cast_nonneg _) ?_
  rw [position_units, sub_self, abs_zero]
  norm_num

theorem codeNear_of_lt_half (nonneg : 0 ≤ r) (small : r < 1 / 2) : codeNear r = 0 := by
  have start : position 0 = 0 := by simp [position, gap, binade]
  have gap' : gap 0 = 1 := by simp [gap, binade]
  obtain ⟨low, high⟩ := position_sub le_rfl nonneg
  rw [start, gap', sub_zero, sub_zero, div_one] at high
  rw [start] at low
  refine codeNear_eq_of_lt nonneg ?_
  rw [Nat.cast_zero, sub_zero, abs_of_nonneg low]
  exact high.trans_lt small

theorem le_codeNear {code : ℕ} (above : (units code : ℚ) ≤ r) : code ≤ codeNear r := by
  have nonneg : 0 ≤ r := (Nat.cast_nonneg _).trans above
  have order := (position_sub (Nat.cast_nonneg _) above).1
  rw [position_units] at order
  obtain ⟨below, _⟩ := abs_le.mp (codeNear_sub nonneg)
  have bound : (code : ℚ) < codeNear r + 1 := by linarith
  exact Nat.lt_succ_iff.mp (by exact_mod_cast bound)

theorem codeNear_le {code : ℕ} (nonneg : 0 ≤ r) (below : r ≤ units code) : codeNear r ≤ code := by
  have order := (position_sub nonneg below).1
  rw [position_units] at order
  obtain ⟨_, above⟩ := abs_le.mp (codeNear_sub nonneg)
  have bound : (codeNear r : ℚ) < code + 1 := by linarith
  exact Nat.lt_succ_iff.mp (by exact_mod_cast bound)

end

theorem middle_le {p q a : ℚ} (order : p < q) (near : |q - a| ≤ |p - a|) : p + q ≤ 2 * a := by
  have squares := sq_le_sq.mpr near
  by_contra below
  nlinarith

theorem le_middle {p q a : ℚ} (order : p < q) (near : |p - a| ≤ |q - a|) : 2 * a ≤ p + q := by
  have squares := sq_le_sq.mpr near
  by_contra above
  nlinarith

theorem codeNear_mono {a b : ℚ} (nonneg : 0 ≤ a) (h : a ≤ b) : codeNear a ≤ codeNear b := by
  by_contra above
  have order : (units (codeNear b) : ℚ) < units (codeNear a) := by
    exact_mod_cast units_strictMono (not_le.mp above)
  have low := middle_le order (codeNear_nearest nonneg _)
  have high := le_middle order (codeNear_nearest (nonneg.trans h) _)
  obtain rfl : a = b := by linarith
  exact above le_rfl

theorem exists_units_double (code : ℕ) : ∃ code', units code' = 2 * units code := by
  obtain ⟨s, m, rfl, lower, upper⟩ := exists_significand code
  rw [units_add lower upper.le]
  by_cases small : m < 2 ^ 52
  · obtain rfl : s = 0 := by omega
    exact ⟨0 * 2 ^ 52 + 2 * m, by rw [units_add (.inl rfl) (by omega)]; ring⟩
  · exact ⟨(s + 1) * 2 ^ 52 + m, by rw [units_add (.inr (by omega)) upper.le]; ring⟩

theorem exists_units {m : ℕ} (short : m ≤ 2 ^ 53) (k : ℕ) : ∃ code, units code = m * 2 ^ k := by
  induction k with
  | zero => exact ⟨0 * 2 ^ 52 + m, by rw [units_add (.inl rfl) short]⟩
  | succ k ih =>
    obtain ⟨code, shown⟩ := ih
    obtain ⟨code', doubled⟩ := exists_units_double code
    exact ⟨code', by rw [doubled, shown]; ring⟩

end DataLiteral.Binary64

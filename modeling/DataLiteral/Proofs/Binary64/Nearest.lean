import DataLiteral.Proofs.Binary64.Arithmetic

set_option autoImplicit false

namespace DataLiteral.Binary64

def rat (x : Binary64) : ℚ :=
  if x.isNegative then -magnitude x.code else magnitude x.code

/-- Whether no other double is nearer to a number, and none is as near unless this one is even.
Infinity counts as the magnitude that comes after the largest finite one. -/
def IsNearest (code : ℕ) (value : ℚ) : Prop :=
  ∀ other ≤ infinityCode, other ≠ code →
    |magnitude code - value| ≤ |magnitude other - value| ∧
      (|magnitude code - value| = |magnitude other - value| → code % 2 = 0)

section

variable {code other : ℕ} {value : ℚ}

theorem magnitude_strictMono : StrictMono magnitude := by
  intro a b less
  have order : (units a : ℚ) < units b := by exact_mod_cast units_strictMono less
  exact div_lt_div_of_pos_right order (by positivity)

theorem magnitude_eq_zero_iff : magnitude code = 0 ↔ code = 0 := by
  have nothing : magnitude 0 = 0 := by
    rw [magnitude, show units 0 = 0 from rfl, Nat.cast_zero, zero_div]
  rw [← nothing, magnitude_strictMono.injective.eq_iff]

theorem abs_magnitude_sub (code : ℕ) (value : ℚ) :
    |magnitude code - value| = |(units code : ℚ) - inUnits value| / (2 ^ unitShift : ℕ) := by
  have unit : (0 : ℚ) < (2 ^ unitShift : ℕ) := by positivity
  have scaled : magnitude code - value = (units code - inUnits value) / (2 ^ unitShift : ℕ) := by
    rw [magnitude, inUnits, sub_div, mul_div_cancel_right₀ _ unit.ne']
  rw [scaled, abs_div, abs_of_pos unit]

theorem abs_magnitude_le_iff : |magnitude code - value| ≤ |magnitude other - value| ↔
    |(units code : ℚ) - inUnits value| ≤ |(units other : ℚ) - inUnits value| := by
  rw [abs_magnitude_sub, abs_magnitude_sub]
  exact div_le_div_iff_of_pos_right (by positivity)

theorem isNearest_infinityCode (above : infinityCode < codeNear (inUnits value))
    (nonneg : 0 ≤ inUnits value) : IsNearest infinityCode value := by
  have beyond : (units infinityCode : ℚ) < units (codeNear (inUnits value)) := by
    exact_mod_cast units_strictMono above
  have middle := middle_le beyond (codeNear_nearest nonneg infinityCode)
  intro other bound different
  have less : (units other : ℚ) < units infinityCode := by
    exact_mod_cast units_strictMono (lt_of_le_of_ne bound different)
  refine ⟨?_, fun _ => by decide⟩
  rw [abs_magnitude_le_iff, abs_of_neg (by linarith), abs_of_neg (by linarith)]
  linarith

theorem isNearest_codeNear (nonneg : 0 ≤ value) :
    IsNearest (min infinityCode (codeNear (inUnits value))) value := by
  have scaled := Decimal.inUnits_nonneg nonneg
  by_cases above : infinityCode < codeNear (inUnits value)
  next =>
    rw [Nat.min_eq_left above.le]
    exact isNearest_infinityCode above scaled
  next =>
    rw [Nat.min_eq_right (not_lt.mp above)]
    intro other _ different
    refine ⟨abs_magnitude_le_iff.mpr (codeNear_nearest scaled other), fun tie => ?_⟩
    apply codeNear_even scaled different
    exact le_antisymm (abs_magnitude_le_iff.mp tie.le) (abs_magnitude_le_iff.mp tie.ge)

theorem IsNearest.not_lt (h : IsNearest code value) (h' : IsNearest other value)
    (bound : other ≤ infinityCode) : ¬code < other := by
  intro less
  obtain ⟨near, even⟩ := h other bound less.ne'
  obtain ⟨near', even'⟩ := h' code (less.le.trans bound) less.ne
  have tie := le_antisymm near near'
  have both := even tie
  have both' := even' tie.symm
  have between : code + 1 < other := by omega
  have low := magnitude_strictMono (Nat.lt_succ_self code)
  have high := magnitude_strictMono between
  obtain ⟨nearest, _⟩ := h (code + 1) (by omega) (by omega)
  have middle := middle_le (low.trans high) near'
  have middle' := le_middle low nearest
  linarith

theorem IsNearest.unique (h : IsNearest code value) (h' : IsNearest other value)
    (bound : code ≤ infinityCode) (bound' : other ≤ infinityCode) : code = other :=
  le_antisymm (Nat.le_of_not_lt (h'.not_lt h bound)) (Nat.le_of_not_lt (h.not_lt h' bound'))

theorem isNearest_iff (nonneg : 0 ≤ value) (bound : code ≤ infinityCode) :
    IsNearest code value ↔ min infinityCode (codeNear (inUnits value)) = code := by
  have found := isNearest_codeNear nonneg
  constructor
  next => exact fun h => found.unique h (Nat.min_le_left _ _) bound
  next =>
    rintro rfl
    exact found

end

end DataLiteral.Binary64

import DataLiteral.Proofs.Number.Spelling

set_option autoImplicit false

namespace DataLiteral

open Binary64 (infinityCode magnitude magnitude_strictMono unitShift units)

structure Binary64.IsWhole (x : Binary64) (n : ℤ) : Prop where
  finite : x.isFinite
  value : x.rat = n
  sign : n = 0 → x.isNegative = false

namespace Binary64

theorem exists_magnitude {n : ℕ} (short : n ≤ 2 ^ 53) {k : ℕ} (once : k ≤ 1) :
    ∃ code < infinityCode, magnitude code = (n * 2 ^ k : ℕ) := by
  obtain ⟨code, shown⟩ := exists_units short (k + unitShift)
  have most : 2 ^ 53 * 2 ^ (1 + unitShift) < units infinityCode := by decide +kernel
  have power : 2 ^ (k + unitShift) ≤ 2 ^ (1 + unitShift) :=
    Nat.pow_le_pow_right (by decide) (Nat.add_le_add_right once _)
  refine ⟨code, units_strictMono.lt_iff_lt.mp ?_, ?_⟩
  next =>
    rw [shown]
    exact (Nat.mul_le_mul short power).trans_lt most
  next =>
    rw [magnitude, shown, pow_add, ← mul_assoc, Nat.cast_mul,
      mul_div_cancel_right₀ _ (by positivity)]

theorem exists_isWhole {n : ℤ} (small : |n| ≤ 2 ^ 53) : ∃ x : Binary64, x.IsWhole n := by
  have bounds := abs_le.mp small
  have short : n.natAbs ≤ 2 ^ 53 := by omega
  obtain ⟨code, finite, value⟩ := exists_magnitude short (Nat.zero_le 1)
  have bound : code < signBit := finite.trans infinityCode_lt_signBit
  have sign := isNegative_ofCode (decide (n < 0)) code bound
  have shown := code_ofCode (decide (n < 0)) code bound
  rw [pow_zero, mul_one, Nat.cast_natAbs] at value
  refine ⟨ofCode (decide (n < 0)) code, decide_eq_true (by rwa [shown]), ?_, ?_⟩
  next =>
    rw [rat, sign, shown, value]
    by_cases negative : n < 0
    next =>
      rw [decide_eq_true negative, if_pos rfl, abs_of_neg negative, Int.cast_neg, neg_neg]
    next =>
      rw [decide_eq_false negative, if_neg Bool.false_ne_true, abs_of_nonneg (not_lt.mp negative)]
  next =>
    rintro rfl
    exact sign

theorem IsWhole.parts {x : Binary64} {n : ℤ} (h : x.IsWhole n) :
    magnitude x.code = n.natAbs ∧ x.isNegative = decide (n < 0) := by
  have value := h.value
  have nonneg := magnitude_nonneg x.code
  rw [rat] at value
  cases sign : x.isNegative with
  | true =>
    rw [sign, if_pos rfl] at value
    have below : n ≤ 0 := by
      have cast : (n : ℚ) ≤ 0 := by linarith
      exact_mod_cast cast
    have negative : n < 0 := by
      refine lt_of_le_of_ne below fun zero => ?_
      rw [h.sign zero] at sign
      cases sign
    refine ⟨?_, (decide_eq_true negative).symm⟩
    rw [Nat.cast_natAbs, abs_of_neg negative, Int.cast_neg, ← value, neg_neg]
  | false =>
    rw [sign, if_neg Bool.false_ne_true] at value
    have above : 0 ≤ n := by
      have cast : (0 : ℚ) ≤ n := by linarith
      exact_mod_cast cast
    refine ⟨?_, (decide_eq_false (not_lt.mpr above)).symm⟩
    rw [Nat.cast_natAbs, abs_of_nonneg above, value]

end Binary64

namespace Decimal

section

variable {code m n : ℕ} {d d' : Decimal}

theorem eq_of_reads (finite : code < infinityCode) (value : magnitude code = n)
    (small : n ≤ 2 ^ 53) (apart : m ≤ 2 ^ 53 ∨ 2 ∣ m) (reads : Reads code m) : m = n := by
  by_cases short : m ≤ 2 ^ 53
  next =>
    obtain ⟨other, bound, value'⟩ := Binary64.exists_magnitude short (Nat.zero_le 1)
    rw [pow_zero, mul_one] at value'
    have same : other = code := by
      have own := reads_magnitude bound.le
      rw [value'] at own
      exact own.symm.trans reads
    rw [same, value] at value'
    exact_mod_cast value'.symm
  next =>
    have even := apart.resolve_left short
    obtain ⟨other, bound, value'⟩ :=
      Binary64.exists_magnitude (n := 2 ^ 52 + 1) (by decide) (le_refl 1)
    have less : code < other := by
      rw [← magnitude_strictMono.lt_iff_lt, value, value']
      exact_mod_cast show n < (2 ^ 52 + 1) * 2 ^ 1 by omega
    have order : magnitude other ≤ m := by
      rw [value']
      exact_mod_cast show (2 ^ 52 + 1) * 2 ^ 1 ≤ m by omega
    have far : other ≤ Binary64.codeNear (Binary64.inUnits m) := by
      apply Binary64.le_codeNear
      rw [← Binary64.inUnits_magnitude]
      exact mul_le_mul_of_nonneg_right order (Nat.cast_nonneg _)
    rw [Reads] at reads
    omega

theorem units_natCast (value : magnitude code = n) : units code = n * 2 ^ unitShift := by
  rw [magnitude, div_eq_iff (by positivity)] at value
  exact_mod_cast value

theorem floor_natCast (value : magnitude code = n) : floor code = n * 10 ^ places := by
  rw [floor_eq, units_natCast value, Nat.mul_right_comm, Nat.mul_div_cancel _ (by positivity)]

theorem width_natCast (positive : 0 < n) (value : magnitude code = n) :
    width code = (Text.ofNat n).length + places := by
  rw [width, floor_natCast value]
  show (Text.ofNat (n * 10 ^ places)).length = _
  rw [Text.ofNat_mul_pow positive, List.length_append, List.length_replicate]

theorem pick_natCast (finite : code < infinityCode) (positive : 0 < n)
    (value : magnitude code = n) : pick code (Text.ofNat n).length = some ⟨n, 0⟩ := by
  have unit : ((10 ^ places : ℕ) : ℚ) ≠ 0 := by positivity
  have reads : readsAs code (n * 10 ^ places) := by
    rw [readsAs_iff, Nat.cast_mul, mul_div_cancel_right₀ _ unit, ← value]
    exact reads_magnitude finite.le
  have cut : floor code / 10 ^ places = n := by
    rw [floor_natCast value, Nat.mul_div_cancel _ (by positivity)]
  have notAbove : isNearerAbove code (10 ^ places) n = false := by
    rw [isNearerAbove, units_natCast value, tenTo_eq, decide_eq_false_iff_not, not_le,
      Nat.shiftLeft_eq]
    calc 2 * (n * 2 ^ unitShift) * 10 ^ places = 2 * n * 10 ^ places * 2 ^ unitShift := by ring
      _ < (2 * n + 1) * 10 ^ places * 2 ^ unitShift := by
        gcongr
        exact Nat.lt_succ_self _
  have exponent :
      (((Text.ofNat n).length + places : ℕ) : ℤ) - (Text.ofNat n).length - places = 0 := by
    push_cast
    ring
  simp only [pick, width_natCast positive value, Nat.add_sub_cancel_left, tenTo_eq, cut, reads,
    notAbove, exponent, Bool.and_false, Bool.not_false, Bool.and_self, if_true]

theorem rat_shortest (finite : code < infinityCode) (positive : 0 < n) (small : n ≤ 2 ^ 53)
    (value : magnitude code = n) : (shortest code).rat = n := by
  have most : (Text.ofNat n).length ≤ 17 :=
    (Text.length_ofNat_le_iff (by decide)).mpr (small.trans_lt (by decide))
  have least : 0 < (Text.ofNat n).length := List.length_pos_iff.mpr (Text.ofNat_ne_nil n)
  have whole := pick_natCast finite positive value
  obtain ⟨count, _, fewer, picked⟩ :=
    exists_pick_le least most (Option.isSome_iff_exists.mpr ⟨_, whole⟩)
  obtain ⟨k, total⟩ := Nat.exists_eq_add_of_le fewer
  by_cases last : k = 0
  next =>
    rw [last, Nat.add_zero] at total
    rw [total, picked] at whole
    rw [Option.some.inj whole, rat, zpow_zero, mul_one]
  next =>
    obtain ⟨reads, exponent, _⟩ := pick_eq_some picked
    rw [width_natCast positive value, total] at reads exponent
    have place : (shortest code).exponent = k := by
      rw [exponent]
      push_cast
      ring
    have natural : (shortest code).rat = ((shortest code).digits * 10 ^ k : ℕ) := by
      rw [rat, place, zpow_natCast, Nat.cast_mul, Nat.cast_pow, Nat.cast_ofNat]
    have unit : ((10 ^ places : ℕ) : ℚ) ≠ 0 := by positivity
    rw [readsAs_iff, Nat.add_assoc, Nat.add_sub_cancel_left, tenTo_eq, pow_add, ← mul_assoc,
      Nat.cast_mul, mul_div_cancel_right₀ _ unit] at reads
    rw [natural, Nat.cast_inj]
    apply eq_of_reads finite value small (.inr _) reads
    exact Dvd.dvd.mul_left (dvd_pow (by decide : 2 ∣ 10) last) _

theorem point_eq_of_rat_eq (nonzero : d.digits ≠ 0) (same : d.rat = d'.rat) :
    d.point = d'.point := by
  have digits := significant_eq_of_rat_eq same
  have value := rat_eq_significant d
  have positive : d.rat ≠ 0 := by
    rw [rat]
    exact mul_ne_zero (Nat.cast_ne_zero.mpr nonzero) (by positivity)
  have shown : (Text.numeral 10 d.significant : ℚ) ≠ 0 := by
    intro zero
    rw [zero, zero_mul] at value
    exact positive value
  rw [same, rat_eq_significant d', ← digits, mul_right_inj' shown] at value
  have power := zpow_right_injective₀ (by norm_num : (0 : ℚ) < 10) (by norm_num) value
  linarith

theorem positional_eq_of_rat_eq (nonzero : d.digits ≠ 0) (same : d.rat = d'.rat) :
    d.positional = d'.positional := by
  rw [positional, positional, significant_eq_of_rat_eq same, point_eq_of_rat_eq nonzero same]

theorem positional_natCast (n : ℕ) : positional ⟨n, 0⟩ = Text.ofNat n := by
  obtain ⟨k, split⟩ := significant_append ⟨n, 0⟩
  have least : 0 < (Text.ofNat n).length := List.length_pos_iff.mpr (Text.ofNat_ne_nil n)
  obtain ⟨whole, size⟩ := Nat.exists_eq_succ_of_ne_zero least.ne'
  have place : point ⟨n, 0⟩ = Int.ofNat (whole + 1) := by
    rw [point, size, add_zero]
    rfl
  have total := congrArg List.length split
  rw [List.length_append, List.length_replicate, size] at total
  have zeros : whole + 1 - (significant ⟨n, 0⟩).length = k := by omega
  have padded : (significant ⟨n, 0⟩).length ≤ whole + 1 := by omega
  rw [positional, place]
  refine (if_pos padded).trans ?_
  rw [zeros]
  exact split.symm

end

end Decimal

namespace Number

theorem not_usesExponent {x : Binary64} {n : ℕ} (positive : 0 < n) (small : n ≤ 2 ^ 53)
    (value : magnitude x.code = n) : usesExponent x = false := by
  have least : units smallCode < 2 ^ unitShift := by decide +kernel
  have tiny : magnitude smallCode < 1 := by
    rw [magnitude, div_lt_one (by positivity)]
    exact Nat.cast_lt.mpr least
  rw [← Bool.not_eq_true, usesExponent_iff, not_or, ← smallCode_eq, value]
  constructor
  next =>
    rw [not_le]
    exact_mod_cast small.trans_lt (by decide : 2 ^ 53 < 10 ^ 21)
  next =>
    rintro ⟨_, below⟩
    exact absurd (below.trans tiny) (not_lt.mpr (Nat.one_le_cast.mpr positive))

theorem finiteMagnitude_natCast {x : Binary64} {n : ℕ} (finite : x.isFinite) (small : n ≤ 2 ^ 53)
    (value : magnitude x.code = n) : finiteMagnitude x = Text.ofNat n := by
  have isZero : x.isZero ↔ n = 0 := by
    rw [Binary64.isZero, beq_iff_eq, ← Binary64.magnitude_eq_zero_iff, value, Nat.cast_eq_zero]
  rw [finiteMagnitude]
  by_cases zero : n = 0
  next =>
    rw [if_pos (isZero.mpr zero), zero]
    rfl
  next =>
    have positive := Nat.pos_of_ne_zero zero
    have nonzero : x.code ≠ 0 := by
      intro none'
      exact zero (isZero.mp (beq_iff_eq.mpr none'))
    have shown := Decimal.rat_shortest (of_decide_eq_true finite) positive small value
    have plain : (Decimal.shortest x.code).rat = Decimal.rat ⟨n, 0⟩ := by
      rw [shown, Decimal.rat, zpow_zero, mul_one]
    rw [if_neg (mt isZero.mp zero), not_usesExponent positive small value,
      if_neg Bool.false_ne_true,
      Decimal.positional_eq_of_rat_eq (Decimal.digits_shortest nonzero) plain,
      Decimal.positional_natCast]

theorem ofInt_eq_signText (n : ℤ) :
    Text.ofInt n = signText (decide (n < 0)) ++ Text.ofNat n.natAbs := by
  cases n with
  | ofNat n =>
    rw [decide_eq_false (by simp)]
    rfl
  | negSucc n =>
    rw [decide_eq_true (Int.negSucc_lt_zero n)]
    rfl

/-- Each integer of 53 bits is a double, and it is written alike as a number of every kind that it
fits. -/
theorem literal_whole {n : ℤ} (small : |n| ≤ 2 ^ 53) :
    (∃ x : Binary64, x.IsWhole n) ∧ ∀ x : Binary64, x.IsWhole n →
      (float x).literal = (int (.ofInt n)).literal ∧
        (0 ≤ n → (float x).literal = (uint (.ofNat n.toNat)).literal) := by
  refine ⟨Binary64.exists_isWhole small, fun x whole => ?_⟩
  obtain ⟨value, sign⟩ := whole.parts
  have bounds := abs_le.mp small
  have short : n.natAbs ≤ 2 ^ 53 := by omega
  have written : (float x).literal = Text.ofInt n := by
    rw [literal_finite whole.finite, sign, finiteMagnitude_natCast whole.finite short value,
      ofInt_eq_signText]
  constructor
  next =>
    have same : (Int64.ofInt n).toInt = n :=
      Int64.toInt_ofInt_of_le (by omega) (by omega)
    rw [written, literal, same]
  next =>
    intro nonneg
    obtain ⟨size, rfl⟩ := Int.eq_ofNat_of_zero_le nonneg
    have same : (UInt64.ofNat size).toNat = size :=
      UInt64.toNat_ofNat_of_lt' (show size < 2 ^ 64 by omega)
    rw [written, Int.toNat_natCast, literal, same]
    rfl

theorem literal_whole_last :
    let x : Binary64 := ⟨0x4340000000000000⟩
    |(2 ^ 53 : ℤ)| ≤ 2 ^ 53 ∧ x.IsWhole (2 ^ 53) ∧
      (float x).literal = (int 9007199254740992).literal ∧
        (float x).literal = (uint 9007199254740992).literal := by
  intro x
  have small : |(2 ^ 53 : ℤ)| ≤ 2 ^ 53 := by decide
  have exact' : units x.code = 2 ^ 53 * 2 ^ unitShift := by decide +kernel
  have whole : x.IsWhole (2 ^ 53) := by
    refine ⟨by decide, ?_, by decide⟩
    rw [Binary64.rat, show x.isNegative = false by decide, if_neg Bool.false_ne_true, magnitude,
      exact', Nat.cast_mul, mul_div_cancel_right₀ _ (by positivity)]
    norm_num
  obtain ⟨signed, unsigned⟩ := (literal_whole small).2 x whole
  exact ⟨small, whole, signed, unsigned (by decide)⟩

end Number

end DataLiteral

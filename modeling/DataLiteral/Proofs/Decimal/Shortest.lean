import DataLiteral.Proofs.Decimal.Notation

set_option autoImplicit false

namespace DataLiteral.Decimal

open Binary64 (units unitShift fractions)

@[simp] theorem tenTo_eq (n : Nat) : tenTo n = 10 ^ n := rfl

theorem units_pos {code : Nat} (h : code ≠ 0) : 0 < units code := by
  unfold units
  split
  · exact Nat.pos_of_ne_zero h
  · rw [Nat.shiftLeft_eq]
    have base : 0 < fractions := by decide
    positivity

theorem le_shiftRight {a b k s : Nat} (positive : 0 < a) (h : k * 2 ^ s ≤ b) :
    k ≤ (a * b) >>> s := by
  rw [Nat.shiftRight_eq_div_pow, Nat.le_div_iff_mul_le (by positivity)]
  exact h.trans (Nat.le_mul_of_pos_left _ positive)

theorem floor_eq (code : ℕ) : floor code = units code * 10 ^ places / 2 ^ unitShift := by
  rw [floor, Nat.shiftRight_eq_div_pow, tenTo_eq]

theorem floor_mul_le (code : ℕ) : floor code * 2 ^ unitShift ≤ units code * 10 ^ places := by
  rw [floor_eq]
  exact Nat.div_mul_le_self _ _

theorem lt_floor_mul (code : ℕ) : units code * 10 ^ places < (floor code + 1) * 2 ^ unitShift := by
  rw [floor_eq, Nat.add_one_mul]
  exact Nat.lt_div_mul_add (Nat.pow_pos (by decide))

theorem le_floor {code : Nat} (h : code ≠ 0) : 10 ^ 17 ≤ floor code := by
  have least : 10 ^ 17 * 2 ^ unitShift ≤ tenTo places := by decide +kernel
  exact le_shiftRight (units_pos h) least

theorem pow_le_of_lt_width {code k : Nat} (h : code ≠ 0) (bound : k < width code) :
    10 ^ k ≤ floor code := by
  cases k with
  | zero => exact Nat.one_le_of_lt (le_floor h)
  | succ k =>
    rw [← Nat.not_lt]
    intro small
    have short : width code ≤ k + 1 := (Text.length_ofNat_le_iff (Nat.succ_pos k)).mpr small
    omega

theorem lt_width {code : Nat} (h : code ≠ 0) : 17 < width code := by
  rw [← Nat.not_le]
  intro short
  have small : floor code < 10 ^ 17 := (Text.length_ofNat_le_iff (by decide)).mp short
  exact absurd (le_floor h) (Nat.not_le.mpr small)

theorem below_pos {code count : Nat} (h : code ≠ 0) (positive : 0 < count) :
    0 < floor code / tenTo (width code - count) := by
  have wide := lt_width h
  exact Nat.div_pos (pow_le_of_lt_width h (by omega)) (tenTo_pos _)

theorem pick_eq_some {code count : Nat} {d : Decimal} (h : pick code count = some d) :
    readsAs code (d.digits * tenTo (width code - count)) ∧
      d.exponent = (width code : Int) - count - places ∧
      floor code / tenTo (width code - count) ≤ d.digits := by
  simp only [pick] at h
  split at h
  · next reads =>
    cases h
    exact ⟨(Bool.and_eq_true _ _ ▸ reads).1, rfl, Nat.le_refl _⟩
  split at h
  · next reads =>
    cases h
    exact ⟨reads, rfl, Nat.le_succ _⟩
  · cases h

theorem shortest_cases (code : Nat) :
    (∃ count, 0 < count ∧ count ≤ 17 ∧ pick code count = some (shortest code)) ∨
      shortest code = ⟨floor code, -places⟩ := by
  unfold shortest
  cases found : (List.range 17).findSome? fun i => pick code (i + 1) with
  | none => exact .inr rfl
  | some d =>
    obtain ⟨i, member, picked⟩ := List.exists_of_findSome?_eq_some found
    exact .inl ⟨i + 1, Nat.succ_pos i, List.mem_range.mp member, picked⟩

theorem digits_shortest {code : Nat} (h : code ≠ 0) : (shortest code).digits ≠ 0 := by
  rcases shortest_cases code with ⟨count, positive, _, picked⟩ | all
  · have leading := below_pos h positive
    have bound := (pick_eq_some picked).2.2
    omega
  · rw [all]
    exact Nat.ne_of_gt (Nat.lt_of_lt_of_le (by positivity) (le_floor h))

end DataLiteral.Decimal

import DataLiteral.Proofs.Json.Numeral
import DataLiteral.Proofs.Json.Scale

set_option autoImplicit false

namespace DataLiteral

namespace Binary64

def IsPlain (x : Binary64) : Prop :=
  ∃ code < infinityCode, x = ofCode false code

theorem IsPlain.isFinite {x : Binary64} (h : x.IsPlain) : x.isFinite := by
  obtain ⟨code, finite, rfl⟩ := h
  rw [Binary64.isFinite, code_ofCode false code (finite.trans infinityCode_lt_signBit)]
  exact decide_eq_true finite

theorem isFinite_neg {x : Binary64} (h : x.isFinite) : x.neg.isFinite := by
  have same : x.neg.code = x.code := code_ofCode _ _ x.code_lt
  rw [Binary64.isFinite, same]
  exact h

theorem isPlain_ofNat {n : ℕ} (small : n ≤ 2 ^ 64) : (ofNat n).IsPlain := by
  rcases Nat.eq_zero_or_pos n with rfl | positive
  next => exact ⟨0, by decide, by decide +kernel⟩
  next =>
    obtain ⟨code, finite, shape, _⟩ := approximates_ofNat positive small
    exact ⟨code, finite, shape⟩

theorem code_mul_le (x y : Binary64) : (x.mul y).code ≤ infinityCode := by
  have below := nearestCode_le (units x.code * units y.code) (1 <<< unitShift)
  rw [mul, code_ofCode _ _ (below.trans_lt infinityCode_lt_signBit)]
  exact below

end Binary64

namespace Json

open Binary64 (IsPlain infinityCode inUnits magnitude codeNear)

section

variable {n s : ℕ} {x : Binary64}

theorem isPlain_div_tenTo (h : IsPlain x) (moves : 1 ≤ n) (reached : n ≤ 308) :
    IsPlain (x.div (tenTo n)) := by
  obtain ⟨a, finite, rfl⟩ := h
  obtain ⟨t, finite', shape, within⟩ := Binary64.approximates_tenTo reached
  have large : 1 ≤ magnitude t :=
    one_le_of_within within (by norm_num) moves (Binary64.magnitude_nonneg t)
  have positive : 0 < magnitude t := one_pos.trans_le large
  have quotient : 0 ≤ magnitude a / magnitude t :=
    div_nonneg (Binary64.magnitude_nonneg a) positive.le
  have below : codeNear (inUnits (magnitude a / magnitude t)) ≤ a := by
    apply Binary64.codeNear_le (Decimal.inUnits_nonneg quotient)
    rw [Binary64.inUnits_div, Binary64.inUnits_magnitude]
    exact div_le_self (Nat.cast_nonneg _) large
  refine ⟨_, below.trans_lt finite, ?_⟩
  rw [tenTo, shape, Binary64.div_ofCode (finite.trans Binary64.infinityCode_lt_signBit)
    (finite'.trans Binary64.infinityCode_lt_signBit) (Binary64.units_ne_zero positive)]
  exact Binary64.nearestTo_of_finite (below.trans_lt finite) false

theorem isPlain_divideSteps (h : IsPlain x) (count : ℕ) : IsPlain (divideSteps x count) := by
  induction count generalizing x with
  | zero => exact h
  | succ count ih =>
    rw [divideSteps]
    split
    next => exact h
    next => exact ih (isPlain_div_tenTo h (by decide) (by decide))

theorem isFinite_scale {exponent : ℤ} (small : s ≤ significandLimit)
    (scaled : scale s exponent = some x) : x.isFinite := by
  have start := Binary64.isPlain_ofNat (small.trans significandLimit_le)
  cases exponent with
  | ofNat n =>
    simp only [scale] at scaled
    split at scaled
    next =>
      split at scaled
      next => cases scaled
      next finite =>
        cases scaled
        have bound := Binary64.code_mul_le (.ofNat s) (tenTo n)
        simp only [Binary64.isInfinite, beq_iff_eq] at finite
        exact decide_eq_true (lt_of_le_of_ne bound finite)
    next =>
      split at scaled <;> cases scaled
      exact start.isFinite
  | negSucc n =>
    simp only [scale, Option.some.injEq] at scaled
    subst scaled
    have reached : n % 308 + 1 ≤ 308 := Nat.mod_lt n (by decide)
    exact (isPlain_div_tenTo (isPlain_divideSteps start _) (Nat.le_add_left 1 _) reached).isFinite

end

end Json

end DataLiteral

import DataLiteral.Proofs.Binary64.Arithmetic
import DataLiteral.Proofs.Number.Literal
import DataLiteral.Proofs.Script.Evaluation

set_option autoImplicit false

namespace DataLiteral

open Binary64 (codeNear infinityCode inUnits nearestTo)
open Decimal (Writes)
open Script (magnitudeValue? numberValue?)

namespace Number

def double : Number → Binary64
  | .int n => if n.toInt < 0 then (Binary64.ofNat n.toInt.natAbs).neg else .ofNat n.toInt.natAbs
  | .uint n => .ofNat n.toNat
  | .float x => if x.isNaN then .nan else x

theorem magnitudeValue?_of_writes {magnitude : Text} {value : ℚ} (h : Writes magnitude value) :
    magnitudeValue? magnitude = some (nearestTo false value) := by
  obtain ⟨n, rfl, wellFormed, rfl⟩ := id h
  have notName : Script.isNumberName n.text = false := by
    rcases magnitude_cases (isMagnitude_of_writes h) with name | name | ⟨notName, _⟩
    · have digit := startsWithDigit_of_writes h
      rw [name] at digit
      cases digit
    · have digit := startsWithDigit_of_writes h
      rw [name] at digit
      cases digit
    · exact notName
  simp only [Script.isNumberName, Bool.or_eq_false_iff, decide_eq_false_iff_not] at notName
  have taken : Decimal.Numeral.take n.text = some (n, []) := by
    have ends : Decimal.Numeral.Ends [] := by simp [Decimal.Numeral.Ends]
    have found := Decimal.Numeral.take_text wellFormed ends
    rwa [List.append_nil] at found
  rw [magnitudeValue?, if_neg notName.1, if_neg notName.2, taken]
  dsimp only
  rw [Decimal.nearest_eq]

theorem numberValue?_of_writes {magnitude : Text} {value : ℚ} (negative : Bool)
    (h : Writes magnitude value) :
    numberValue? negative magnitude = some (nearestTo negative value) := by
  rw [numberValue?, magnitudeValue?_of_writes h, Option.map_some]
  cases negative with
  | false => rfl
  | true => rw [if_pos rfl, Binary64.neg_nearestTo, Bool.not_false]

theorem codeNear_finiteMagnitude {x : Binary64} (h : x.isFinite) :
    min infinityCode (codeNear (inUnits (if x.isZero then 0 else (Decimal.shortest x.code).rat))) =
      x.code := by
  have bound : x.code < infinityCode := of_decide_eq_true h
  cases zero : x.isZero with
  | true =>
    have code : x.code = 0 := beq_iff_eq.mp zero
    have none' : inUnits 0 = 0 := zero_mul _
    rw [if_pos rfl, none', Binary64.codeNear_of_lt_half le_rfl (by norm_num), code, Nat.min_zero]
  | false =>
    have read := Decimal.nearest_shortest false (beq_eq_false_iff_ne.mp zero) bound.le
    rw [Decimal.nearest_eq] at read
    have codes := congrArg Binary64.code read
    rw [if_neg Bool.false_ne_true]
    rwa [Binary64.code_nearestTo, Binary64.code_ofCode _ _ x.code_lt] at codes

theorem numberValue?_literal (n : Number) :
    numberValue? (split n.literal).1 (split n.literal).2 = some n.double := by
  have read (negative : Bool) {magnitude : Text} {value : ℚ} (writes : Writes magnitude value)
      (shape : n.literal = signText negative ++ magnitude) :
      numberValue? (split n.literal).1 (split n.literal).2 =
        some (nearestTo negative value) := by
    rw [shape, split_append negative (isMagnitude_of_writes writes)]
    exact numberValue?_of_writes negative writes
  cases n with
  | int n =>
    cases shape : n.toInt with
    | ofNat k =>
      rw [read false (Decimal.writes_ofNat k) (by rw [literal, shape]; rfl), double, shape,
        Int.ofNat_eq_natCast, if_neg (Int.not_lt.mpr (Int.natCast_nonneg k)), Int.natAbs_natCast,
        ← Binary64.ofNat_eq]
    | negSucc k =>
      rw [read true (Decimal.writes_ofNat (k + 1)) (by rw [literal, shape]; rfl), double, shape,
        if_pos (by omega), Int.natAbs_negSucc, Binary64.ofNat_eq, Binary64.neg_nearestTo]
      rfl
  | uint n => rw [read false (Decimal.writes_ofNat n.toNat) rfl, double, ← Binary64.ofNat_eq]
  | float x =>
    rw [double]
    rcases kinds x with nan | infinite | finite
    · rw [literal_nan nan, if_pos nan]
      rfl
    · have code : x.code = infinityCode := beq_iff_eq.mp infinite
      have notNaN : x.isNaN = false := decide_eq_false (by rw [code]; exact Nat.lt_irrefl _)
      have same := Binary64.ofCode_code x
      rw [code] at same
      rw [literal_infinite infinite, split_append _ (.inl rfl), notNaN,
        if_neg Bool.false_ne_true, ← same]
      cases x.isNegative <;> rfl
    · have bound : x.code < infinityCode := of_decide_eq_true finite
      have notNaN : x.isNaN = false := decide_eq_false (Nat.lt_asymm bound)
      rw [read x.isNegative (writes_finiteMagnitude x) (literal_finite finite),
        nearestTo, codeNear_finiteMagnitude finite, Binary64.ofCode_code, notNaN,
        if_neg Bool.false_ne_true]

end Number

end DataLiteral

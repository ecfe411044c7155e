import DataLiteral.Number
import DataLiteral.Proofs.Decimal.Shortest
import DataLiteral.Proofs.Script.Lexing
import DataLiteral.Proofs.Script.Tree

set_option autoImplicit false

namespace DataLiteral.Number

open Decimal (Writes)
open Script (Token Yields isNumberName)

def split : Text → Bool × Text
  | '-' :: magnitude => (true, magnitude)
  | magnitude => (false, magnitude)

def magnitudeToken (magnitude : Text) : Token :=
  if isNumberName magnitude then .word magnitude else .numeral magnitude

def tokens (literal : Text) : List Token :=
  if (split literal).1 then [.mark .minus, magnitudeToken (split literal).2]
  else [magnitudeToken (split literal).2]

def IsMagnitude (magnitude : Text) : Prop :=
  isNumberName magnitude ∨ ∃ value, Writes magnitude value

theorem isMagnitude_of_writes {magnitude : Text} {value : ℚ} (h : Writes magnitude value) :
    IsMagnitude magnitude :=
  .inr ⟨value, h⟩

theorem startsWithDigit_of_writes {magnitude : Text} {value : ℚ} (h : Writes magnitude value) :
    Text.startsWithDigit magnitude := by
  obtain ⟨n, rfl, wellFormed, _⟩ := h
  rw [Decimal.Numeral.text, List.append_assoc]
  exact Decimal.Numeral.startsWithDigit_append wellFormed.whole

theorem magnitude_cases {magnitude : Text} (h : IsMagnitude magnitude) :
    magnitude = "NaN".toList ∨ magnitude = "Infinity".toList ∨
      isNumberName magnitude = false ∧ ∃ value, Writes magnitude value := by
  rcases h with name | ⟨value, writes⟩
  · simp only [isNumberName, Bool.or_eq_true, decide_eq_true_eq] at name
    exact name.imp_right .inl
  · refine .inr (.inr ⟨?_, value, writes⟩)
    have digit := startsWithDigit_of_writes writes
    simp only [isNumberName, Bool.or_eq_false_iff, decide_eq_false_iff_not]
    constructor <;> rintro rfl <;> cases digit

theorem split_append {magnitude : Text} (negative : Bool) (h : IsMagnitude magnitude) :
    split (signText negative ++ magnitude) = (negative, magnitude) := by
  cases negative with
  | true => rfl
  | false =>
    have notMinus : magnitude.head? ≠ some '-' := by
      rcases magnitude_cases h with rfl | rfl | ⟨_, value, writes⟩
      · decide
      · decide
      · have digit := startsWithDigit_of_writes writes
        cases magnitude with
        | nil => simp
        | cons c rest =>
          intro minus
          cases minus
          cases digit
    rw [signText, if_neg Bool.false_ne_true, List.nil_append]
    unfold split
    split
    · exact absurd rfl notMinus
    · rfl

theorem usesExponent_of_isZero {x : Binary64} (h : x.isZero) : usesExponent x = false := by
  have code : x.code = 0 := beq_iff_eq.mp h
  have large : decide (largeCode ≤ 0) = false := by decide +kernel
  rw [usesExponent, code, large, bne_self_eq_false, Bool.false_and, Bool.or_false]

def finiteMagnitude (x : Binary64) : Text :=
  if x.isZero then ['0']
  else if usesExponent x then (Decimal.shortest x.code).scientific
  else (Decimal.shortest x.code).positional

theorem literal_finite {x : Binary64} (h : x.isFinite) :
    (Number.float x).literal = signText x.isNegative ++ finiteMagnitude x := by
  have bound : x.code < Binary64.infinityCode := of_decide_eq_true h
  have notNaN : x.isNaN = false := decide_eq_false (Nat.lt_asymm bound)
  have notInfinite : x.isInfinite = false := beq_eq_false_iff_ne.mpr (Nat.ne_of_lt bound)
  rw [literal, notNaN, notInfinite, finiteMagnitude, scientificText, positionalText]
  cases zero : x.isZero with
  | true =>
    simp only [usesExponent_of_isZero zero, if_true, Bool.false_eq_true, if_false]
  | false =>
    cases usesExponent x <;> simp only [if_true, Bool.false_eq_true, if_false]

theorem literal_infinite {x : Binary64} (h : x.isInfinite) :
    (Number.float x).literal = signText x.isNegative ++ "Infinity".toList := by
  have code : x.code = Binary64.infinityCode := beq_iff_eq.mp h
  have notNaN : x.isNaN = false := decide_eq_false (by rw [code]; exact Nat.lt_irrefl _)
  rw [literal, notNaN, h]
  rfl

theorem literal_nan {x : Binary64} (h : x.isNaN) : (Number.float x).literal = "NaN".toList := by
  rw [literal, if_pos h]

theorem kinds (x : Binary64) : x.isNaN ∨ x.isInfinite ∨ x.isFinite := by
  simp only [Binary64.isNaN, Binary64.isInfinite, Binary64.isFinite, decide_eq_true_eq, beq_iff_eq]
  omega

theorem writes_finiteMagnitude (x : Binary64) :
    Writes (finiteMagnitude x) (if x.isZero then 0 else (Decimal.shortest x.code).rat) := by
  rw [finiteMagnitude]
  cases zero : x.isZero with
  | true =>
    rw [if_pos rfl, if_pos rfl]
    exact_mod_cast Decimal.writes_ofNat 0
  | false =>
    have nonzero := Decimal.digits_shortest (beq_eq_false_iff_ne.mp zero)
    rw [if_neg Bool.false_ne_true, if_neg Bool.false_ne_true]
    cases usesExponent x with
    | true =>
      rw [if_pos rfl]
      exact Decimal.writes_scientific nonzero
    | false =>
      rw [if_neg Bool.false_ne_true]
      exact Decimal.writes_positional nonzero

theorem literal_eq (n : Number) :
    ∃ negative magnitude, n.literal = signText negative ++ magnitude ∧ IsMagnitude magnitude := by
  cases n with
  | int value =>
    cases shape : value.toInt with
    | ofNat k =>
      refine ⟨false, Text.ofNat k, ?_, isMagnitude_of_writes (Decimal.writes_ofNat k)⟩
      rw [literal, shape]
      rfl
    | negSucc k =>
      refine ⟨true, Text.ofNat (k + 1), ?_, isMagnitude_of_writes (Decimal.writes_ofNat (k + 1))⟩
      rw [literal, shape]
      rfl
  | uint value => exact ⟨false, _, rfl, isMagnitude_of_writes (Decimal.writes_ofNat value.toNat)⟩
  | float x =>
    rcases kinds x with nan | infinite | finite
    · exact ⟨false, _, literal_nan nan, .inl rfl⟩
    · exact ⟨x.isNegative, _, literal_infinite infinite, .inl rfl⟩
    · exact ⟨x.isNegative, _, literal_finite finite,
        isMagnitude_of_writes (writes_finiteMagnitude x)⟩

theorem yields_magnitude {magnitude : Text} (h : IsMagnitude magnitude) :
    Yields magnitude [magnitudeToken magnitude] := by
  rcases magnitude_cases h with rfl | rfl | ⟨notName, value, n, rfl, wellFormed, _⟩
  · exact Script.yields_word ⟨'N', _, rfl, by decide⟩ (List.all_eq_true.mp rfl)
  · exact Script.yields_word ⟨'I', _, rfl, by decide⟩ (List.all_eq_true.mp rfl)
  · rw [magnitudeToken, notName]
    exact Script.yields_numeral wellFormed

theorem yields_literal (n : Number) : Yields n.literal (tokens n.literal) := by
  obtain ⟨negative, magnitude, shape, isMagnitude⟩ := literal_eq n
  have read := yields_magnitude isMagnitude
  rw [shape, tokens, split_append negative isMagnitude]
  cases negative with
  | true => exact read.mark .minus
  | false => exact read

theorem parseValue_tokens (n : Number) (fuel : Nat) (rest : List Token) :
    Script.parseValue (fuel + 1) (tokens n.literal ++ rest) =
      some (.number (split n.literal).1 (split n.literal).2, rest) := by
  obtain ⟨negative, magnitude, shape, isMagnitude⟩ := literal_eq n
  rw [shape, tokens, split_append negative isMagnitude]
  rcases magnitude_cases isMagnitude with rfl | rfl | ⟨notName, _⟩
  · cases negative <;> rfl
  · cases negative <;> rfl
  · rw [magnitudeToken, notName]
    cases negative <;> rfl

end DataLiteral.Number

import DataLiteral.Proofs.Json.Printed

set_option autoImplicit false

namespace DataLiteral

open Decimal.Numeral (IsDigits)

namespace Text

def WritesInteger (text : Text) (value : ℤ) : Prop :=
  ∃ negative digits, text = Number.signText negative ++ digits ∧ IsDigits digits ∧
    (digits.length = 1 ∨ digits.head? ≠ some '0') ∧
    value = if negative then -(numeral 10 digits : ℤ) else numeral 10 digits

def minusZero : Text := "-0".toList

theorem WritesInteger.cases {text : Text} {value : ℤ} (h : text.WritesInteger value) :
    text = minusZero ∧ value = 0 ∨ text ≠ minusZero ∧ text = ofInt value := by
  obtain ⟨negative, digits, rfl, isDigits, noZero, rfl⟩ := h
  have written := ofNat_numeral isDigits.2 noZero isDigits.1
  cases negative with
  | false =>
    refine .inr ⟨fun minus => ?_, written.symm⟩
    have first : '-' ∈ digits := by
      rw [show digits = minusZero from minus]
      exact List.mem_cons_self
    cases isDigits.2 '-' first
  | true =>
    rw [if_pos rfl]
    by_cases zero : numeral 10 digits = 0
    next =>
      rw [zero] at written ⊢
      rw [← written]
      exact .inl ⟨rfl, rfl⟩
    next =>
      rw [ofInt_neg zero, written]
      refine .inr ⟨fun minus => zero ?_, rfl⟩
      have digit : digits = ['0'] := List.tail_eq_of_cons_eq minus
      rw [digit]
      rfl

end Text

namespace Number

theorem exists_isInteger {value : ℤ} (low : -2 ^ 63 ≤ value) (high : value < 2 ^ 64) :
    ∃ number : Number, number.isInteger ∧ number.literal = Text.ofInt value ∧
      ((∃ n, number = .int n ∧ n.toInt = value) ↔ value < 2 ^ 63) ∧
      ((∃ n, number = .uint n ∧ (n.toNat : ℤ) = value) ↔ 2 ^ 63 ≤ value) := by
  by_cases fits : value < 2 ^ 63
  next =>
    have same : (Int64.ofInt value).toInt = value := Int64.toInt_ofInt_of_le low fits
    refine ⟨.int (.ofInt value), rfl, congrArg Text.ofInt same, ?_, ?_⟩
    next => exact iff_of_true ⟨_, rfl, same⟩ fits
    next => exact iff_of_false (by simp) (not_le.mpr fits)
  next =>
    obtain ⟨size, rfl⟩ := Int.eq_ofNat_of_zero_le (a := value) (by omega)
    have same : (UInt64.ofNat size).toNat = size :=
      UInt64.toNat_ofNat_of_lt' (show size < 2 ^ 64 by omega)
    have most : Int64.maxValue.toInt = 2 ^ 63 - 1 := by decide
    refine ⟨.uint (.ofNat size), decide_eq_true (by omega), congrArg Text.ofNat same, ?_, ?_⟩
    next => exact iff_of_false (by simp) fits
    next => exact iff_of_true ⟨_, rfl, congrArg _ same⟩ (not_lt.mp fits)

theorem literal_minusZero : (Number.float (.zero true)).literal = Text.minusZero := by
  decide +kernel

end Number

namespace Json

theorem read_literal {n : Number} (h : n.isInteger) : read n.literal = .ok (.number n) :=
  read_of_spells (spells_number h)

theorem read_minusZero : read Text.minusZero = .ok (.number (.float (.zero true))) := by
  cbv

variable {text : Text} {value : ℤ}

theorem read_integer (h : text.WritesInteger value) (low : -2 ^ 63 ≤ value)
    (high : value < 2 ^ 64) :
    ∃ number, read text = .ok (.number number) ∧ number.literal = text ∧
      ((∃ n, number = .int n ∧ n.toInt = value) ↔ value < 2 ^ 63 ∧ text ≠ Text.minusZero) ∧
      ((∃ n, number = .uint n ∧ (n.toNat : ℤ) = value) ↔ 2 ^ 63 ≤ value) ∧
      (number = .float (.zero true) ↔ text = Text.minusZero) := by
  rcases h.cases with ⟨rfl, rfl⟩ | ⟨plain, written⟩
  next =>
    exact ⟨_, read_minusZero, Number.literal_minusZero, by simp, by simp, by simp⟩
  next =>
    obtain ⟨number, isInteger, literal, signed, unsigned⟩ := Number.exists_isInteger low high
    rw [← written] at literal
    have back : read text = .ok (.number number) := literal ▸ read_literal isInteger
    refine ⟨number, back, literal, ?_, unsigned, ?_⟩
    next => rw [signed, and_iff_left plain]
    next => exact iff_of_false (by rintro rfl; cases isInteger) plain

end Json

/-- Integers in range keep every digit from the document to the literal, in the kind that they need:
signed if they fit, unsigned if not, and a float for zero with a sign. So no two of them are written
alike. -/
theorem Source.readJson_integer {text : Text} {value : ℤ} (h : text.WritesInteger value)
    (low : -2 ^ 63 ≤ value) (high : value < 2 ^ 64) (name : Text) :
    ∃ number, (⟨text, name⟩ : Source).readJson = .ok (.number number) ∧ number.literal = text ∧
      ((∃ n, number = .int n ∧ n.toInt = value) ↔ value < 2 ^ 63 ∧ text ≠ Text.minusZero) ∧
      ((∃ n, number = .uint n ∧ (n.toNat : ℤ) = value) ↔ 2 ^ 63 ≤ value) ∧
      (number = .float (.zero true) ↔ text = Text.minusZero) ∧
      ∀ other otherValue otherNumber, Text.WritesInteger other otherValue →
        -2 ^ 63 ≤ otherValue → otherValue < 2 ^ 64 →
        (⟨other, name⟩ : Source).readJson = .ok (.number otherNumber) →
        otherNumber.literal = number.literal → other = text := by
  obtain ⟨number, back, literal, kinds⟩ := Json.read_integer h low high
  refine ⟨number, readJson_of_read back, literal, kinds.1, kinds.2.1, kinds.2.2, ?_⟩
  intro other otherValue otherNumber writes low' high' decoded alike
  obtain ⟨found, back', literal', _⟩ := Json.read_integer writes low' high'
  have same : found = otherNumber := by
    have both := (readJson_of_read back').symm.trans decoded
    cases both
    rfl
  rw [← literal', same, alike, literal]

theorem Source.readJson_integer_unsigned :
    let digits : Text := "9223372036854775808".toList
    digits.WritesInteger (2 ^ 63) ∧ ∃ n : UInt64, (n.toNat : ℤ) = 2 ^ 63 ∧
      (⟨digits, "id.json".toList⟩ : Source).readJson = .ok (.number (.uint n)) ∧
        (Number.uint n).literal = digits := by
  intro digits
  have writes : digits.WritesInteger (2 ^ 63) :=
    ⟨false, digits, rfl, ⟨by decide, List.all_eq_true.mp rfl⟩, .inr (by decide), by decide⟩
  obtain ⟨number, read, literal, _, unsigned, _⟩ :=
    readJson_integer writes (by decide) (by decide) "id.json".toList
  obtain ⟨n, rfl, same⟩ := unsigned.mpr le_rfl
  exact ⟨writes, n, same, read, literal⟩

end DataLiteral

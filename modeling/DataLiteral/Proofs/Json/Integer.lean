import DataLiteral.Proofs.Json.Numeral

set_option autoImplicit false

namespace DataLiteral

def Number.isInteger : Number → Bool
  | .int _ => true
  | .uint n => Int64.maxValue.toInt < n.toNat
  | .float _ => false

theorem Number.ofInt?_int (n : Int64) : ofInt? n.toInt = some (.int n) := by
  rw [ofInt?, if_pos ⟨n.minValue_le_toInt, n.toInt_le⟩, Int64.ofInt_toInt]

theorem Number.ofInt?_uint {n : UInt64} (large : Int64.maxValue.toInt < n.toNat) :
    ofInt? n.toNat = some (.uint n) := by
  rw [ofInt?, if_neg fun inside => (Int.not_lt.mpr inside.2) large,
    if_pos ⟨Int.natCast_nonneg _, n.toNat_lt⟩, Int.toNat_natCast, UInt64.ofNat_toNat]

namespace Json

open Decimal.Numeral (Ends)

section

variable {negative : Bool} {rest : Text}

theorem readUnsigned_ofNat {n : ℕ} (small : n ≤ significandLimit) (ends : Ends rest) :
    readUnsigned negative (Text.ofNat n ++ rest) = .ok (integer negative n, rest) := by
  have total := Text.numeral_ofNat n
  rw [readUnsigned_digits _ (Decimal.isDigits_ofNat n) (Decimal.noZero_ofNat n)
      ends.startsWithDigit, takeDigits_of_le (Text.isDigit_ofNat n) (total.trans_le small), total]
  exact readTail_ends _ _ ends 0

theorem integer_of_ofInt {n : ℕ} {number : Number}
    (h : Number.ofInt? (if negative then -n else n) = some number) (kept : negative → n ≠ 0) :
    integer negative n = number := by
  have notMinusZero : (negative && n == 0) = false := by
    cases negative with
    | true => simpa using kept rfl
    | false => rfl
  rw [integer, notMinusZero, if_neg Bool.false_ne_true, h]

theorem exists_cons_ofNat (n : ℕ) : ∃ c digits, Text.ofNat n = c :: digits ∧ c.isDigit := by
  obtain ⟨c, digits, shape⟩ := List.exists_cons_of_ne_nil (Text.ofNat_ne_nil n)
  refine ⟨c, digits, shape, Text.isDigit_ofNat n c ?_⟩
  rw [shape]
  exact List.mem_cons_self

theorem readNumber_ofNat {n : ℕ} {number : Number} (h : Number.ofInt? n = some number)
    (small : n ≤ significandLimit) (ends : Ends rest) :
    readNumber (Text.ofNat n ++ rest) = .ok (number, rest) := by
  obtain ⟨c, digits, shape, digit⟩ := exists_cons_ofNat n
  have unsigned :
      readNumber (Text.ofNat n ++ rest) = readUnsigned false (Text.ofNat n ++ rest) := by
    rw [shape, List.cons_append]
    unfold readNumber
    split
    next minus =>
      cases minus
      cases digit
    next => rfl
  have kept : integer false n = number := integer_of_ofInt h nofun
  rw [unsigned, readUnsigned_ofNat small ends, kept]

theorem readNumber_negative {n : ℕ} {number : Number} (h : Number.ofInt? (-n) = some number)
    (small : n ≤ significandLimit) (negative : n ≠ 0) (ends : Ends rest) :
    readNumber ('-' :: (Text.ofNat n ++ rest)) = .ok (number, rest) := by
  have kept : integer true n = number := integer_of_ofInt h fun _ => negative
  rw [readNumber, readUnsigned_ofNat small ends, kept]

theorem readNumber_literal {n : Number} (h : n.isInteger) (ends : Ends rest) :
    readNumber (n.literal ++ rest) = .ok (n, rest) := by
  cases n with
  | float x => cases h
  | uint n =>
    apply readNumber_ofNat (Number.ofInt?_uint (of_decide_eq_true h)) _ ends
    exact Nat.le_of_lt_succ n.toNat_lt
  | int n =>
    have found := Number.ofInt?_int n
    have low : -2 ^ 63 ≤ n.toInt := n.le_toInt
    have high : n.toInt < 2 ^ 63 := n.toInt_lt
    rw [Number.literal]
    generalize n.toInt = value at found low high
    cases value with
    | ofNat magnitude =>
      rw [Int.ofNat_eq_natCast] at high
      have small : magnitude ≤ significandLimit := by
        rw [significandLimit]
        omega
      exact readNumber_ofNat found small ends
    | negSucc less =>
      have small : less + 1 ≤ significandLimit := by
        rw [significandLimit]
        omega
      have found' : Number.ofInt? (-(less + 1 : ℕ)) = some (.int n) := found
      exact readNumber_negative found' small (Nat.succ_ne_zero less) ends

theorem startsNumber_literal {n : Number} (h : n.isInteger) :
    ∃ c tail, n.literal = c :: tail ∧ (c = '-' || c.isDigit) := by
  have unsigned (magnitude : ℕ) :
      ∃ c tail, Text.ofNat magnitude = c :: tail ∧ (c = '-' || c.isDigit) := by
    obtain ⟨c, tail, shape, digit⟩ := exists_cons_ofNat magnitude
    exact ⟨c, tail, shape, Bool.or_eq_true_iff.mpr (.inr digit)⟩
  cases n with
  | float x => cases h
  | uint n => exact unsigned n.toNat
  | int n =>
    rw [Number.literal]
    cases n.toInt with
    | ofNat magnitude => exact unsigned magnitude
    | negSucc less => exact ⟨'-', Text.ofNat (less + 1), rfl, rfl⟩

theorem readScalarValue_literal {n : Number} (h : n.isInteger) (ends : Ends rest) :
    readScalarValue (n.literal ++ rest) = .ok (.number n, rest) := by
  have read := readNumber_literal h ends
  obtain ⟨c, tail, shape, starts⟩ := startsNumber_literal h
  rw [shape, List.cons_append] at read ⊢
  exact (ScalarStep.number starts read).readScalarValue

end

end Json

end DataLiteral

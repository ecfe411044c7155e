import Mathlib
import DataLiteral.Decimal.Notation
import DataLiteral.Proofs.Decimal.Numeral

set_option autoImplicit false

namespace DataLiteral

namespace Text

theorem digitValue_of_isDigit {c : Char} (h : c.isDigit) : digitValue c = c.toNat - '0'.toNat := by
  simp [digitValue, hexValue?, h]

theorem digitValue_lt {c : Char} (h : c.isDigit) : digitValue c < 10 := by
  rw [digitValue_of_isDigit h]
  simp only [Char.isDigit, Bool.and_eq_true, decide_eq_true_eq, ge_iff_le,
    UInt32.le_iff_toNat_le] at h
  have bound : c.toNat ≤ 57 := h.2
  have zero : '0'.toNat = 48 := rfl
  omega

theorem foldl_digits (text : Text) (n : Nat) :
    text.foldl (fun n c => 10 * n + digitValue c) n = n * 10 ^ text.length + numeral 10 text := by
  induction text generalizing n with
  | nil => simp [numeral]
  | cons c rest ih =>
    show rest.foldl _ (10 * n + digitValue c) =
      n * 10 ^ (rest.length + 1) + rest.foldl _ (10 * 0 + digitValue c)
    rw [ih (10 * n + digitValue c), ih (10 * 0 + digitValue c)]
    ring

theorem numeral_append (a b : Text) :
    numeral 10 (a ++ b) = numeral 10 a * 10 ^ b.length + numeral 10 b := by
  rw [numeral, List.foldl_append, foldl_digits]
  rfl

theorem numeral_zeros (k : Nat) : numeral 10 (List.replicate k '0') = 0 := by
  induction k with
  | zero => rfl
  | succ k ih => rw [List.replicate_succ', numeral_append, ih]; rfl

theorem isDigit_zeros (k : Nat) : ∀ c ∈ List.replicate k '0', c.isDigit := by
  intro c hc
  rw [(List.mem_replicate.mp hc).2]
  rfl

theorem numeral_lt {text : Text} (h : ∀ c ∈ text, c.isDigit) :
    numeral 10 text < 10 ^ text.length := by
  induction text with
  | nil => simp [numeral]
  | cons c rest ih =>
    obtain ⟨digit, digits⟩ := List.forall_mem_cons.mp h
    have head := digitValue_lt digit
    have tail := ih digits
    rw [← List.singleton_append, numeral_append]
    have one : numeral 10 [c] = digitValue c := by simp [numeral]
    rw [one, List.length_append, List.length_singleton, pow_add, pow_one]
    nlinarith

theorem isDigit_ofNat (n : Nat) : ∀ c ∈ ofNat n, c.isDigit :=
  fun _ h => Nat.isDigit_of_mem_toDigits (by decide) (by decide) h

theorem ofNat_ne_nil (n : Nat) : ofNat n ≠ [] :=
  Nat.toDigits_ne_nil

theorem numeral_ofNat (n : Nat) : numeral 10 (ofNat n) = n := by
  have same : numeral 10 (ofNat n) = Nat.ofDigitChars 10 (ofNat n) 0 := by
    rw [Nat.ofDigitChars_eq_foldl, numeral]
    refine List.foldl_ext _ _ _ fun m c hc => ?_
    rw [digitValue_of_isDigit (isDigit_ofNat n c hc)]
  rw [same]
  exact Nat.ofDigitChars_ten_toDigits

theorem length_ofNat_le_iff {n k : Nat} (h : 0 < k) : (ofNat n).length ≤ k ↔ n < 10 ^ k :=
  Nat.length_toDigits_le_iff (by decide) h

theorem head_ofNat {n : Nat} (h : n ≠ 0) : (ofNat n).head? ≠ some '0' := by
  intro zero
  obtain ⟨rest, shape⟩ : ∃ rest, ofNat n = '0' :: rest := by
    cases shape : ofNat n with
    | nil => exact absurd shape (ofNat_ne_nil n)
    | cons c rest =>
      rw [shape] at zero
      cases zero
      exact ⟨rest, rfl⟩
  have digits : ∀ c ∈ rest, c.isDigit := fun c hc =>
    isDigit_ofNat n c (shape ▸ List.mem_cons_of_mem _ hc)
  have value : n = numeral 10 rest := by
    rw [← numeral_ofNat n, shape, ← List.singleton_append, numeral_append]
    simp [numeral, show digitValue '0' = 0 from rfl]
  have small := numeral_lt digits
  rw [← value] at small
  cases rest with
  | nil => simp [numeral] at value; exact h value
  | cons c rest =>
    have short := (length_ofNat_le_iff (by simp)).mpr small
    rw [shape] at short
    simp at short

theorem digitChar_digitValue {c : Char} (h : c.isDigit) : Nat.digitChar (digitValue c) = c := by
  apply Char.toNat_inj.mp
  have small := digitValue_lt h
  rw [Nat.toNat_digitChar_of_lt_ten small]
  rw [digitValue_of_isDigit h] at small ⊢
  have zero : '0'.toNat = 48 := rfl
  have low : 48 ≤ c.toNat := by
    simp only [Char.isDigit, Bool.and_eq_true, decide_eq_true_eq, ge_iff_le,
      UInt32.le_iff_toNat_le] at h
    exact h.1
  omega

theorem ofNat_append {n : Nat} (positive : 0 < n) {text : Text} (isDigit : ∀ c ∈ text, c.isDigit) :
    ofNat n ++ text = ofNat (n * 10 ^ text.length + numeral 10 text) := by
  induction text generalizing n with
  | nil => simp [numeral]
  | cons c rest ih =>
    obtain ⟨digit, later⟩ := List.forall_mem_cons.mp isDigit
    have one : ofNat n ++ [c] = ofNat (10 * n + digitValue c) := by
      have grown :=
        Nat.toDigits_append_toDigits (b := 10) (by decide) positive (digitValue_lt digit)
      rwa [Nat.toDigits_of_lt_base (digitValue_lt digit), digitChar_digitValue digit] at grown
    have total : (10 * n + digitValue c) * 10 ^ rest.length + numeral 10 rest =
        n * 10 ^ (c :: rest).length + numeral 10 (c :: rest) := by
      rw [← foldl_digits, ← foldl_digits, List.foldl_cons]
    rw [← List.singleton_append, ← List.append_assoc, one, ih (by omega) later, total,
      List.singleton_append]

theorem ofNat_numeral {text : Text} (isDigit : ∀ c ∈ text, c.isDigit)
    (noZero : text.length = 1 ∨ text.head? ≠ some '0') (nonempty : text ≠ []) :
    ofNat (numeral 10 text) = text := by
  obtain ⟨c, rest, rfl⟩ := List.exists_cons_of_ne_nil nonempty
  obtain ⟨digit, later⟩ := List.forall_mem_cons.mp isDigit
  have first : ofNat (digitValue c) = [c] := by
    rw [ofNat, Nat.toDigits_of_lt_base (digitValue_lt digit), digitChar_digitValue digit]
  have one : numeral 10 [c] = digitValue c := by simp [numeral]
  rcases noZero with single | notZero
  · obtain rfl : rest = [] := by simpa using single
    rw [one, first]
  · have positive : 0 < digitValue c := by
      apply Nat.pos_of_ne_zero
      intro zero
      rw [zero] at first
      exact notZero (congrArg List.head? first).symm
    rw [← List.singleton_append, numeral_append, one, ← ofNat_append positive later, first]

theorem ofInt_neg {n : ℕ} (nonzero : n ≠ 0) : ofInt (-n) = '-' :: ofNat n := by
  obtain ⟨n, rfl⟩ := Nat.exists_eq_succ_of_ne_zero nonzero
  rfl

theorem trimEnd_append (c : Char) (text : Text) :
    ∃ k, text = trimEnd c text ++ List.replicate k c := by
  refine ⟨(text.reverse.takeWhile (· == c)).length, ?_⟩
  have ends : text.reverse.takeWhile (· == c) =
      List.replicate (text.reverse.takeWhile (· == c)).length c := by
    refine List.eq_replicate_iff.mpr ⟨rfl, fun d hd => ?_⟩
    simpa using List.mem_takeWhile_imp hd
  have split := congrArg List.reverse
    (List.takeWhile_append_dropWhile (p := (· == c)) (l := text.reverse))
  rw [List.reverse_append, List.reverse_reverse, ends, List.reverse_replicate] at split
  exact split.symm

end Text

namespace Decimal

def rat (d : Decimal) : ℚ :=
  d.digits * 10 ^ d.exponent

theorem significant_append (d : Decimal) :
    ∃ k, Text.ofNat d.digits = d.significant ++ List.replicate k '0' :=
  Text.trimEnd_append '0' _

theorem isDigit_significant (d : Decimal) : ∀ c ∈ d.significant, c.isDigit := by
  intro c hc
  obtain ⟨k, split⟩ := significant_append d
  exact Text.isDigit_ofNat d.digits c (split ▸ List.mem_append_left _ hc)

theorem head_significant {d : Decimal} (h : d.digits ≠ 0) :
    ∃ c rest, d.significant = c :: rest ∧ c ≠ '0' := by
  obtain ⟨k, split⟩ := significant_append d
  cases shape : d.significant with
  | nil =>
    rw [shape, List.nil_append] at split
    have value := Text.numeral_ofNat d.digits
    rw [split, Text.numeral_zeros] at value
    exact absurd value.symm h
  | cons c rest =>
    refine ⟨c, rest, rfl, fun zero => Text.head_ofNat h ?_⟩
    rw [split, shape, zero]
    rfl

theorem rat_eq_significant (d : Decimal) :
    d.rat = Text.numeral 10 d.significant * 10 ^ (d.point - d.significant.length) := by
  obtain ⟨k, split⟩ := significant_append d
  have value : d.digits = Text.numeral 10 d.significant * 10 ^ k := by
    conv_lhs => rw [← Text.numeral_ofNat d.digits, split, Text.numeral_append, Text.numeral_zeros]
    simp
  have place : d.point - d.significant.length = k + d.exponent := by
    rw [point, split, List.length_append, List.length_replicate]
    push_cast
    ring
  rw [rat, value, place, zpow_add₀ (by norm_num), zpow_natCast]
  push_cast
  ring

def Writes (text : Text) (value : ℚ) : Prop :=
  ∃ n : Numeral, text = n.text ∧ n.WellFormed ∧ n.value.rat = value

open Numeral (IsDigits)

theorem isDigits_ofNat (n : Nat) : IsDigits (Text.ofNat n) :=
  ⟨Text.ofNat_ne_nil n, Text.isDigit_ofNat n⟩

theorem noZero_ofNat (n : Nat) : (Text.ofNat n).length = 1 ∨ (Text.ofNat n).head? ≠ some '0' := by
  by_cases zero : n = 0
  · subst zero
    exact .inl rfl
  · exact .inr (Text.head_ofNat zero)

theorem writes_plain {whole places : Text} {value : ℚ} (digits : IsDigits whole)
    (noZero : whole.length = 1 ∨ whole.head? ≠ some '0') (after : IsDigits places)
    (exact' : (Text.numeral 10 (whole ++ places) : ℚ) * 10 ^ (-places.length : ℤ) = value) :
    Writes (whole ++ '.' :: places) value := by
  refine ⟨⟨whole, '.' :: places, []⟩, by simp [Numeral.text], ?_, ?_⟩
  · exact ⟨digits, noZero, .inr ⟨places, rfl, after⟩, .inl rfl⟩
  · rw [← exact', rat]
    simp [Numeral.value, Numeral.places, Numeral.exponentValue]

theorem writes_whole {whole : Text} (digits : IsDigits whole)
    (noZero : whole.length = 1 ∨ whole.head? ≠ some '0') :
    Writes whole (Text.numeral 10 whole) := by
  refine ⟨⟨whole, [], []⟩, by simp [Numeral.text], ⟨digits, noZero, .inl rfl, .inl rfl⟩, ?_⟩
  simp [rat, Numeral.value, Numeral.places, Numeral.exponentValue]

theorem writes_ofNat (n : Nat) : Writes (Text.ofNat n) n := by
  simpa only [Text.numeral_ofNat] using writes_whole (isDigits_ofNat n) (noZero_ofNat n)

section

variable {d : Decimal} (h : d.digits ≠ 0)

include h

theorem isDigits_significant : IsDigits d.significant := by
  obtain ⟨c, rest, shape, _⟩ := head_significant h
  exact ⟨by simp [shape], isDigit_significant d⟩

theorem writes_below {k : Nat} (point : d.point = -k) :
    Writes ('0' :: '.' :: (List.replicate k '0' ++ d.significant)) d.rat := by
  have zero : IsDigits ['0'] := ⟨by simp, by simp⟩
  have after : IsDigits (List.replicate k '0' ++ d.significant) := by
    refine ⟨by simp [(isDigits_significant h).1], ?_⟩
    exact List.forall_mem_append.mpr ⟨Text.isDigit_zeros k, isDigit_significant d⟩
  refine writes_plain zero (.inl rfl) after ?_
  rw [rat_eq_significant, point, ← List.append_assoc, ← List.replicate_one, ← List.replicate_add,
    Text.numeral_append, Text.numeral_zeros, List.length_append, List.length_replicate]
  push_cast
  ring_nf

theorem writes_padded {whole : Nat} (point : d.point = whole)
    (short : d.significant.length ≤ whole) :
    Writes (d.significant ++ List.replicate (whole - d.significant.length) '0') d.rat := by
  obtain ⟨c, rest, shape, notZero⟩ := head_significant h
  have padded : IsDigits
      (d.significant ++ List.replicate (whole - d.significant.length) '0') := by
    refine ⟨by simp [shape], ?_⟩
    exact List.forall_mem_append.mpr ⟨isDigit_significant d, Text.isDigit_zeros _⟩
  have written := writes_whole padded (.inr (by simp [shape, notZero]))
  rw [Text.numeral_append, Text.numeral_zeros, List.length_replicate] at written
  have place : d.point - d.significant.length = (whole - d.significant.length : ℕ) := by
    rw [point, Nat.cast_sub short]
  rw [rat_eq_significant, place, zpow_natCast]
  exact_mod_cast written

theorem writes_divided {whole : Nat} (point : d.point = whole) (nonzero : whole ≠ 0)
    (long : whole < d.significant.length) :
    Writes (d.significant.take whole ++ '.' :: d.significant.drop whole) d.rat := by
  obtain ⟨c, rest, shape, notZero⟩ := head_significant h
  obtain ⟨whole, rfl⟩ := Nat.exists_eq_succ_of_ne_zero nonzero
  have digits := isDigit_significant d
  have before : IsDigits (d.significant.take (whole + 1)) :=
    ⟨by simp [shape], fun c hc => digits c (List.mem_of_mem_take hc)⟩
  have after : IsDigits (d.significant.drop (whole + 1)) :=
    ⟨fun empty => Nat.not_le.mpr long (List.drop_eq_nil_iff.mp empty),
      fun c hc => digits c (List.mem_of_mem_drop hc)⟩
  refine writes_plain before (.inr (by simp [shape, notZero])) after ?_
  have size : ((d.significant.drop (whole + 1)).length : ℤ) =
      d.significant.length - (whole + 1 : ℕ) := by
    rw [List.length_drop, Nat.cast_sub long.le]
  rw [List.take_append_drop, rat_eq_significant, point, size, neg_sub]

theorem writes_positional : Writes d.positional d.rat := by
  unfold positional
  split
  · next k point => simpa using writes_below h (k := k + 1) (by rw [point]; rfl)
  · next point => simpa using writes_below h (k := 0) (by rw [point]; rfl)
  next whole notZero point =>
  have point' : d.point = whole := point
  dsimp only
  split
  · next short => exact writes_padded h point' short
  · next long => exact writes_divided h point' notZero (Nat.lt_of_not_le long)

end

theorem writes_exponent (e : Int) :
    ∃ sign digits, Text.ofInt e = sign ++ digits ∧ (sign = [] ∨ sign = ['+'] ∨ sign = ['-']) ∧
      IsDigits digits ∧ Numeral.exponentValue ('e' :: Text.ofInt e) = e := by
  cases e with
  | ofNat n =>
    refine ⟨[], _, rfl, .inl rfl, isDigits_ofNat n, ?_⟩
    have starts : Text.startsWithDigit (Text.ofNat n ++ []) :=
      Numeral.startsWithDigit_append (isDigits_ofNat n)
    rw [List.append_nil] at starts
    show Numeral.exponentValue ('e' :: Text.ofNat n) = Int.ofNat n
    rw [Numeral.exponentValue_digits starts, Text.numeral_ofNat]
    rfl
  | negSucc n =>
    refine ⟨['-'], _, rfl, .inr (.inr rfl), isDigits_ofNat (n + 1), ?_⟩
    show -(Text.numeral 10 (Text.ofNat (n + 1)) : Int) = Int.negSucc n
    rw [Text.numeral_ofNat]
    rfl

theorem writes_scientific {d : Decimal} (h : d.digits ≠ 0) : Writes d.scientific d.rat := by
  obtain ⟨c, rest, shape, notZero⟩ := head_significant h
  obtain ⟨sign, digits, split, signs, isDigits, value⟩ := writes_exponent (d.point - 1)
  have whole : IsDigits [c] :=
    ⟨by simp, by simpa using isDigit_significant d c (by simp [shape])⟩
  have exponent : Numeral.IsExponent ('e' :: Text.ofInt (d.point - 1)) :=
    .inr ⟨'e', sign, digits, by rw [split], rfl, signs, isDigits⟩
  have total := rat_eq_significant d
  unfold scientific
  cases rest with
  | nil =>
    simp only [shape]
    refine ⟨⟨[c], [], 'e' :: Text.ofInt (d.point - 1)⟩, by simp [Numeral.text],
      ⟨whole, .inl rfl, .inl rfl, exponent⟩, ?_⟩
    rw [total, rat, Numeral.value, value, shape]
    simp [Numeral.places]
  | cons e rest =>
    simp only [shape]
    have after : IsDigits (e :: rest) :=
      ⟨by simp, fun d' hd => isDigit_significant d d' (shape ▸ List.mem_cons_of_mem _ hd)⟩
    refine ⟨⟨[c], '.' :: e :: rest, 'e' :: Text.ofInt (d.point - 1)⟩, by simp [Numeral.text],
      ⟨whole, .inl rfl, .inr ⟨_, rfl, after⟩, exponent⟩, ?_⟩
    rw [total, rat, Numeral.value, value, shape]
    have place : d.point - 1 - (rest.length + 1 : ℕ) = d.point - (rest.length + 1 + 1 : ℕ) := by
      push_cast
      ring
    simp only [Numeral.places, List.drop_one, List.tail_cons, List.length_cons,
      List.singleton_append, place]

end Decimal

end DataLiteral

import DataLiteral.Proofs.Json.Digits
import DataLiteral.Proofs.Json.Steps
import DataLiteral.Proofs.Number.Literal

set_option autoImplicit false

namespace DataLiteral.Json

open Decimal (Numeral)
open Decimal.Numeral (IsDigits exponentValue)

/-- What a significand of limited size keeps of a decimal: all of it, or its leading digits. Digits
after those can still get into the significand, but do not carry into them. -/
inductive Keeps (d : Decimal) (significand : ℕ) (exponent : ℤ) : Prop where
  | all (digits : significand = d.digits) (scale : exponent = d.exponent)
  | leading (kept : ℕ) (place : ℤ) (wide : significandLimit < 10 * kept + 10)
      (large : significandLimit < d.digits)
      (low : kept * 10 ^ place ≤ (significand * 10 ^ exponent : ℚ))
      (high : (significand * 10 ^ exponent : ℚ) < (kept + 1) * 10 ^ place)
      (below : kept * 10 ^ place ≤ d.rat) (above : d.rat < (kept + 1) * 10 ^ place)

theorem Keeps.shift {digits significand : ℕ} {exponent scale : ℤ} (k : ℤ)
    (h : Keeps ⟨digits, scale⟩ significand exponent) :
    Keeps ⟨digits, scale + k⟩ significand (exponent + k) := by
  have power : (0 : ℚ) < 10 ^ k := by positivity
  have ten : (10 : ℚ) ≠ 0 := by norm_num
  cases h with
  | all same place => exact .all same (congrArg (· + k) place)
  | leading kept place wide large low high below above =>
    refine .leading kept (place + k) wide large ?_ ?_ ?_ ?_ <;>
      simp only [Decimal.rat, zpow_add₀ ten, ← mul_assoc] at *
    · exact mul_le_mul_of_nonneg_right low power.le
    · exact mul_lt_mul_of_pos_right high power
    · exact mul_le_mul_of_nonneg_right below power.le
    · exact mul_lt_mul_of_pos_right above power

theorem leads_append (kept : Text) {tail : Text} (isDigit : ∀ c ∈ tail, c.isDigit) (place : ℤ) :
    Text.numeral 10 kept * 10 ^ place ≤
        (Text.numeral 10 (kept ++ tail) * 10 ^ (place - tail.length) : ℚ) ∧
      (Text.numeral 10 (kept ++ tail) * 10 ^ (place - tail.length) : ℚ) <
        (Text.numeral 10 kept + 1) * 10 ^ place := by
  have ten : (10 : ℚ) ≠ 0 := by norm_num
  have power : (0 : ℚ) < 10 ^ (place - tail.length) := by positivity
  have split : (10 : ℚ) ^ place = 10 ^ tail.length * 10 ^ (place - tail.length) := by
    rw [← zpow_natCast, ← zpow_add₀ ten]
    congr 1
    omega
  have small : (Text.numeral 10 tail : ℚ) < 10 ^ tail.length := by
    exact_mod_cast Text.numeral_lt isDigit
  have nonneg : (0 : ℚ) ≤ Text.numeral 10 tail := Nat.cast_nonneg _
  rw [split, Text.numeral_append, ← mul_assoc, ← mul_assoc]
  push_cast
  constructor
  · refine mul_le_mul_of_nonneg_right ?_ power.le
    linarith
  · refine mul_lt_mul_of_pos_right ?_ power
    linarith

theorem keeps_of_digits (taken : Text) {dropped : Text} (taken' : Text) {dropped' : Text}
    (first : ∀ c ∈ dropped, c.isDigit) (second : ∀ c ∈ taken', c.isDigit)
    (third : ∀ c ∈ dropped', c.isDigit)
    (full : ∀ c ∈ dropped.head?, significandLimit < 10 * Text.numeral 10 taken + Text.digitValue c)
    (full' : ∀ c ∈ dropped'.head?,
      significandLimit < 10 * Text.numeral 10 (taken ++ taken') + Text.digitValue c) :
    Keeps ⟨Text.numeral 10 (taken ++ dropped ++ (taken' ++ dropped')),
        -((taken' ++ dropped').length : ℤ)⟩
      (Text.numeral 10 (taken ++ taken')) (dropped.length - taken'.length) := by
  have wide {kept tail : Text} (isDigit : ∀ c ∈ tail, c.isDigit) (nonempty : tail ≠ [])
      (full : ∀ c ∈ tail.head?, significandLimit < 10 * Text.numeral 10 kept + Text.digitValue c) :
      significandLimit < 10 * Text.numeral 10 kept + 10 := by
    obtain ⟨c, rest, rfl⟩ := List.exists_cons_of_ne_nil nonempty
    have digit := Text.digitValue_lt (isDigit c List.mem_cons_self)
    have first := full c rfl
    omega
  by_cases nothing : dropped = []
  · subst nothing
    by_cases nothing' : dropped' = []
    · subst nothing'
      exact .all (by simp) (by simp)
    · have leads := leads_append (taken ++ taken') third (-taken'.length)
      have place : -(taken'.length : ℤ) - dropped'.length = -((taken' ++ dropped').length : ℤ) := by
        rw [List.length_append]
        omega
      rw [place] at leads
      refine .leading (Text.numeral 10 (taken ++ taken')) (-taken'.length) (wide third nothing' full')
        ?_ ?_ ?_ ?_ ?_
      · simpa using limit_lt_numeral full' nothing'
      · simp
      · simp
      · simpa [Decimal.rat] using leads.1
      · simpa [Decimal.rat] using leads.2
  · have leads := leads_append taken second dropped.length
    have tail : ∀ c ∈ dropped ++ (taken' ++ dropped'), c.isDigit := by
      simp only [List.mem_append]
      rintro c (hc | hc | hc)
      · exact first c hc
      · exact second c hc
      · exact third c hc
    have whole := leads_append taken tail dropped.length
    have place : (dropped.length : ℤ) - (dropped ++ (taken' ++ dropped')).length =
        -((taken' ++ dropped').length : ℤ) := by
      simp only [List.length_append]
      omega
    rw [place, ← List.append_assoc] at whole
    refine .leading (Text.numeral 10 taken) dropped.length (wide first nothing full) ?_ leads.1
      leads.2 whole.1 whole.2
    have heads : ∀ c ∈ (dropped ++ (taken' ++ dropped')).head?,
        significandLimit < 10 * Text.numeral 10 taken + Text.digitValue c := by
      intro c hc
      refine full c ?_
      obtain ⟨d, rest, rfl⟩ := List.exists_cons_of_ne_nil nothing
      exact hc
    have large := limit_lt_numeral heads (by simp [nothing])
    rwa [← List.append_assoc] at large

inductive Reads (negative : Bool) (n : Numeral) : Number → Prop where
  | integer (plain : n.fraction = [] ∧ n.exponent = []) (small : n.value.digits ≤ significandLimit) :
      Reads negative n (Json.integer negative n.value.digits)
  | scaled (significand : ℕ) (exponent : ℤ) (x : Binary64)
      (keeps : Keeps n.value significand exponent) (small : significand ≤ significandLimit)
      (scaled : scale significand exponent = some x) :
      Reads negative n (.float (if negative then x.neg else x))
  | vanishing (h : n.value.digits = 0 ∨ exponentValue n.exponent < -exponentLimit) :
      Reads negative n (.float (.zero negative))

section

variable {negative : Bool} {significand : ℕ} {exponent : ℤ} {text rest : Text} {number : Number}

theorem float_ok (h : float negative significand exponent text = .ok (number, rest)) :
    rest = text ∧ ∃ x, scale significand exponent = some x ∧
      number = .float (if negative then x.neg else x) := by
  rw [float] at h
  split at h
  · next x scaled =>
    cases h
    exact ⟨rfl, x, scaled, rfl⟩
  · cases h

theorem exponentValue_signed (mark : Char) {down : Bool} {sign digits : Text}
    (isDigits : IsDigits digits) (isSign : IsSign down sign) :
    exponentValue (mark :: (sign ++ digits)) =
      if down then -(Text.numeral 10 digits : ℤ) else Text.numeral 10 digits := by
  rcases isSign with ⟨rfl, rfl⟩ | ⟨rfl, rfl | rfl⟩
  · rfl
  · have starts : Text.startsWithDigit (digits ++ []) :=
      Decimal.Numeral.startsWithDigit_append isDigits
    rw [List.append_nil] at starts
    exact Decimal.Numeral.exponentValue_digits starts
  · rfl

theorem readExponent_ok (mark : Char)
    (h : readExponent negative significand exponent text = .ok (number, rest)) :
    ∃ sign digits, text = sign ++ (digits ++ rest) ∧
      (sign = [] ∨ sign = ['+'] ∨ sign = ['-']) ∧ IsDigits digits ∧
      ((∃ x, scale significand (exponent + exponentValue (mark :: (sign ++ digits))) = some x ∧
          number = .float (if negative then x.neg else x)) ∨
        number = .float (.zero negative) ∧
          (significand = 0 ∨ exponentValue (mark :: (sign ++ digits)) < -exponentLimit)) := by
  obtain ⟨down, sign, digits, tail, rfl, isSign, isDigits, stop⟩ := exists_exponent h
  have anySign : sign = [] ∨ sign = ['+'] ∨ sign = ['-'] := by
    rcases isSign with ⟨_, rfl⟩ | ⟨_, rfl | rfl⟩ <;> simp
  have value := exponentValue_signed mark isDigits isSign
  obtain ⟨taken, parts, total, _, _, full⟩ :=
    takeDigits_spec 0 isDigits.2 (Nat.zero_le exponentLimit)
  rw [readExponent_digits _ _ _ isSign isDigits stop] at h
  generalize takeDigits exponentLimit 0 0 digits = run at h parts total full
  dsimp only at h
  rw [Nat.zero_mul, Nat.zero_add] at total
  rw [total] at full
  split at h
  · next whole =>
    rw [List.isEmpty_iff.mp whole, List.append_nil] at parts
    rw [total, ← parts] at h
    obtain ⟨rfl, x, scaled, rfl⟩ := float_ok h
    refine ⟨sign, digits, rfl, anySign, isDigits, .inl ⟨x, ?_, rfl⟩⟩
    rw [value, ← scaled]
    cases down <;> rfl
  · next more =>
    have beyond := limit_lt_numeral full (by simpa using more)
    rw [← parts] at beyond
    split at h
    · cases h
    next allowed =>
    cases h
    refine ⟨sign, digits, rfl, anySign, isDigits, .inr ⟨rfl, ?_⟩⟩
    by_cases zero : significand = 0
    · exact .inl zero
    · right
      have minus : down = true := by simpa [zero] using allowed
      rw [value, if_pos minus]
      omega

theorem Keeps.digits_eq_zero {d : Decimal} (h : Keeps d 0 exponent) : d.digits = 0 := by
  cases h with
  | all digits _ => exact digits.symm
  | leading kept place wide _ low _ _ _ =>
    have power : (0 : ℚ) < 10 ^ place := by positivity
    have positive : (0 : ℚ) < kept := Nat.cast_pos.mpr (by simp only [significandLimit] at wide; omega)
    have product := mul_pos positive power
    rw [Nat.cast_zero, zero_mul] at low
    linarith

section

variable {whole : Text} (fraction : Text)
  (keeps : Keeps ⟨Text.numeral 10 (whole ++ fraction.drop 1), -((fraction.drop 1).length : ℤ)⟩
    significand exponent)
  (small : significand ≤ significandLimit)

include keeps small

theorem reads_float {exponentText : Text} {x : Binary64}
    (scaled : scale significand (exponent + exponentValue exponentText) = some x) :
    Reads negative ⟨whole, fraction, exponentText⟩ (.float (if negative then x.neg else x)) := by
  refine .scaled significand _ x ?_ small scaled
  have shifted := keeps.shift (exponentValue exponentText)
  rwa [neg_add_eq_sub] at shifted

theorem readExponent_reads {mark : Char} (isMark : Decimal.Numeral.isMark mark)
    (h : readExponent negative significand exponent text = .ok (number, rest)) :
    ∃ exponentText, mark :: text = exponentText ++ rest ∧
      Decimal.Numeral.IsExponent exponentText ∧
      Reads negative ⟨whole, fraction, exponentText⟩ number := by
  obtain ⟨sign, digits, rfl, signs, isDigits, found⟩ := readExponent_ok mark h
  refine ⟨mark :: (sign ++ digits), by simp, .inr ⟨mark, sign, digits, rfl, isMark, signs, isDigits⟩,
    ?_⟩
  rcases found with ⟨x, scaled, rfl⟩ | ⟨rfl, zero | beyond⟩
  · exact reads_float _ keeps small scaled
  · subst zero
    exact .vanishing (.inl keeps.digits_eq_zero)
  · exact .vanishing (.inr beyond)

theorem readScaled_reads
    (h : readScaled negative significand exponent text = .ok (number, rest)) :
    ∃ exponentText, text = exponentText ++ rest ∧ Decimal.Numeral.IsExponent exponentText ∧
      Reads negative ⟨whole, fraction, exponentText⟩ number := by
  unfold readScaled at h
  split at h
  · exact readExponent_reads _ keeps small rfl h
  · exact readExponent_reads _ keeps small rfl h
  · obtain ⟨rfl, x, scaled, rfl⟩ := float_ok h
    refine ⟨[], rfl, .inl rfl, reads_float _ keeps small ?_⟩
    rwa [exponentValue, add_zero]

end

section

variable (taken : Text) {dropped : Text} (isDigit : ∀ c ∈ dropped, c.isDigit)
  (full : ∀ c ∈ dropped.head?, significandLimit < 10 * Text.numeral 10 taken + Text.digitValue c)
  (small : Text.numeral 10 taken ≤ significandLimit)

include isDigit full

theorem keeps_whole : Keeps ⟨Text.numeral 10 (taken ++ dropped), 0⟩ (Text.numeral 10 taken)
    dropped.length := by
  simpa using keeps_of_digits taken [] isDigit (by simp) (List.forall_mem_nil _) full
    (by simp)

include small

theorem readFraction_reads
    (h : readFraction negative (Text.numeral 10 taken) dropped.length text = .ok (number, rest)) :
    ∃ places exponentText, text = places ++ (exponentText ++ rest) ∧ IsDigits places ∧
      Decimal.Numeral.IsExponent exponentText ∧
      Reads negative ⟨taken ++ dropped, '.' :: places, exponentText⟩ number := by
  obtain ⟨digits, tail, rfl, isDigit', stop⟩ := exists_digits text
  obtain ⟨taken', parts, total, count, bound, full'⟩ := takeDigits_spec 0 isDigit' small
  rw [readFraction_digits _ _ _ isDigit' stop] at h
  generalize takeDigits significandLimit (Text.numeral 10 taken) 0 digits = run at *
  obtain ⟨value, places, left⟩ := run
  dsimp only at parts total count bound full' h
  rw [← Text.numeral_append] at total
  rw [Nat.zero_add] at count
  subst total count parts
  obtain ⟨first, second⟩ := List.forall_mem_append.mp isDigit'
  have keeps := keeps_of_digits taken taken' isDigit first second full full'
  split at h
  · cases h
  next present =>
  obtain ⟨exponentText, split, isExponent, reads⟩ :=
    readScaled_reads ('.' :: (taken' ++ left)) keeps bound h
  refine ⟨taken' ++ left, exponentText, by rw [← split], ⟨?_, isDigit'⟩, isExponent, reads⟩
  intro empty
  obtain ⟨rfl, rfl⟩ := List.append_eq_nil_iff.mp empty
  exact present rfl

theorem readTail_reads
    (h : readTail negative (Text.numeral 10 taken) dropped.length text = .ok (number, rest)) :
    ∃ fraction exponentText, text = fraction ++ (exponentText ++ rest) ∧
      Decimal.Numeral.IsFraction fraction ∧ Decimal.Numeral.IsExponent exponentText ∧
      Reads negative ⟨taken ++ dropped, fraction, exponentText⟩ number := by
  have keeps := keeps_whole taken isDigit full
  have keeps' : Keeps ⟨Text.numeral 10 (taken ++ dropped ++ List.drop 1 []),
      -((List.drop 1 ([] : Text)).length : ℤ)⟩ (Text.numeral 10 taken) dropped.length := by
    simpa using keeps
  unfold readTail at h
  split at h
  · next after =>
    obtain ⟨places, exponentText, rfl, isDigits, isExponent, reads⟩ :=
      readFraction_reads taken isDigit full small h
    exact ⟨'.' :: places, exponentText, rfl, .inr ⟨places, rfl, isDigits⟩, isExponent, reads⟩
  · have isMark : Decimal.Numeral.isMark 'e' := rfl
    obtain ⟨exponentText, split, isExponent, reads⟩ := readExponent_reads _ keeps' small isMark h
    exact ⟨[], exponentText, split, .inl rfl, isExponent, reads⟩
  · have isMark : Decimal.Numeral.isMark 'E' := rfl
    obtain ⟨exponentText, split, isExponent, reads⟩ := readExponent_reads _ keeps' small isMark h
    exact ⟨[], exponentText, split, .inl rfl, isExponent, reads⟩
  split at h
  · next none' =>
    cases h
    have nothing : dropped = [] := List.length_eq_zero_iff.mp none'
    subst nothing
    refine ⟨[], [], rfl, .inl rfl, .inl rfl, ?_⟩
    have value : (⟨taken ++ [], [], []⟩ : Numeral).value.digits = Text.numeral 10 taken := by
      simp [Decimal.Numeral.value, Decimal.Numeral.places]
    have reads : Reads negative ⟨taken ++ [], [], []⟩ _ :=
      .integer ⟨rfl, rfl⟩ (by rw [value]; exact small)
    rwa [value] at reads
  · obtain ⟨rfl, x, scaled, rfl⟩ := float_ok h
    refine ⟨[], [], rfl, .inl rfl, .inl rfl, reads_float _ keeps' small ?_⟩
    rwa [exponentValue, add_zero]

end

theorem readUnsigned_reads (h : readUnsigned negative text = .ok (number, rest)) :
    ∃ n : Numeral, text = n.text ++ rest ∧ n.WellFormed ∧ Reads negative n number := by
  obtain ⟨digits, tail, rfl, isDigits, noZero, stop⟩ := exists_unsigned h
  obtain ⟨taken, parts, total, _, bound, full⟩ :=
    takeDigits_spec 0 isDigits.2 (Nat.zero_le significandLimit)
  rw [readUnsigned_digits _ isDigits noZero stop] at h
  generalize takeDigits significandLimit 0 0 digits = run at *
  obtain ⟨value, count, left⟩ := run
  dsimp only at parts total bound full h
  rw [Nat.zero_mul, Nat.zero_add] at total
  subst total parts
  obtain ⟨fraction, exponentText, rfl, isFraction, isExponent, reads⟩ :=
    readTail_reads taken (List.forall_mem_append.mp isDigits.2).2 full bound h
  exact ⟨⟨taken ++ left, fraction, exponentText⟩, by simp [Decimal.Numeral.text],
    ⟨isDigits, noZero, isFraction, isExponent⟩, reads⟩

theorem readNumber_reads (h : readNumber text = .ok (number, rest)) :
    ∃ n : Numeral, text = Number.signText (Number.split text).1 ++ (n.text ++ rest) ∧
      (Number.split text).2 = n.text ++ rest ∧ n.WellFormed ∧
      Reads (Number.split text).1 n number := by
  unfold readNumber at h
  split at h
  · obtain ⟨n, rfl, wellFormed, reads⟩ := readUnsigned_reads h
    exact ⟨n, rfl, rfl, wellFormed, reads⟩
  · next plain =>
    have unsigned : Number.split text = (false, text) := by
      unfold Number.split
      split
      · next magnitude => exact absurd rfl (plain magnitude)
      · rfl
    obtain ⟨n, split, wellFormed, reads⟩ := readUnsigned_reads h
    rw [unsigned]
    exact ⟨n, split, split, wellFormed, reads⟩

theorem readValue_number {fuel depth : ℕ}
    (h : readValue fuel depth text = .ok (.number number, rest)) :
    readNumber (skipBlank text) = .ok (number, rest) := by
  obtain ⟨_, _, step⟩ := readValue_step h
  generalize skipBlank text = text' at step
  cases step with
  | scalar step =>
    cases step with
    | number _ read => exact read

def numeral? (source : Text) : Option (Bool × Numeral) :=
  match Numeral.take (Number.split (skipBlank source)).2 with
  | some (n, rest) =>
      if skipBlank rest = [] then some ((Number.split (skipBlank source)).1, n) else none
  | none => none

theorem ends_nil : Decimal.Numeral.Ends [] := nofun

theorem ends_cons {c : Char} (stop : !c.isDigit && c != '.' && !Decimal.Numeral.isMark c)
    (rest : Text) : Decimal.Numeral.Ends (c :: rest) := by
  intro d hd
  cases hd
  exact stop

theorem ends_append {space : Text} (blank : ∀ c ∈ space, isBlank c)
    (ends : Decimal.Numeral.Ends rest) : Decimal.Numeral.Ends (space ++ rest) := by
  cases space with
  | nil => exact ends
  | cons c space =>
    have first := blank c List.mem_cons_self
    simp only [isBlank, Bool.or_eq_true, beq_iff_eq] at first
    apply ends_cons
    rcases first with ((rfl | rfl) | rfl) | rfl <;> decide

theorem ends_of_blank (h : skipBlank rest = []) : Decimal.Numeral.Ends rest := by
  rw [← List.append_nil rest]
  exact ends_append (List.dropWhile_eq_nil_iff.mp h) ends_nil

theorem numeral?_of_ok (h : readNumberDocument text = .ok number) :
    ∃ negative n, numeral? text = some (negative, n) ∧ n.WellFormed ∧ Reads negative n number ∧
      n.text.length ≤ text.length := by
  unfold readNumberDocument at h
  split at h
  case h_2 => cases h
  case h_3 => cases h
  next value found =>
  cases h
  obtain ⟨rest, scanned, blank⟩ := read_step found
  have atEnd : skipBlank rest = [] := List.dropWhile_eq_nil_iff.mpr blank
  obtain ⟨n, whole, unsigned, wellFormed, reads⟩ := readNumber_reads (readValue_number scanned)
  refine ⟨_, n, ?_, wellFormed, reads, ?_⟩
  · rw [numeral?, unsigned, Decimal.Numeral.take_text wellFormed (ends_of_blank atEnd)]
    exact if_pos atEnd
  · have suffix := (List.dropWhile_suffix (l := text) isBlank).length_le
    rw [← skipBlank, whole, List.length_append, List.length_append] at suffix
    omega

end

end DataLiteral.Json

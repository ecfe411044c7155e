import DataLiteral.Json.Number
import DataLiteral.Proofs.Decimal.Notation

set_option autoImplicit false

namespace DataLiteral.Json

open Decimal.Numeral (IsDigits Ends)

theorem exists_digits (text : Text) : ∃ digits tail, text = digits ++ tail ∧
    (∀ c ∈ digits, c.isDigit) ∧ Text.startsWithDigit tail = false := by
  refine ⟨_, _, (List.takeWhile_append_dropWhile (p := Char.isDigit)).symm,
    fun c hc => List.mem_takeWhile_imp hc, ?_⟩
  cases shape : text.dropWhile Char.isDigit with
  | nil => rfl
  | cons c tail =>
    have stop := List.head?_dropWhile_not Char.isDigit text
    rw [shape] at stop
    exact stop

section

variable {limit value count : ℕ} {digits tail : Text}

theorem takeDigits_digits (isDigit : ∀ c ∈ digits, c.isDigit)
    (stop : Text.startsWithDigit tail = false) :
    takeDigits limit value count (digits ++ tail) =
      ⟨(takeDigits limit value count digits).value, (takeDigits limit value count digits).count,
        (takeDigits limit value count digits).rest ++ tail⟩ := by
  induction digits generalizing value count with
  | nil =>
    cases tail with
    | nil => rfl
    | cons c tail =>
      have notDigit : c.isDigit = false := stop
      simp [takeDigits, notDigit]
  | cons c digits ih =>
    rw [List.cons_append, takeDigits, takeDigits]
    split
    next => exact ih (List.forall_mem_cons.mp isDigit).2
    next => rfl

theorem takeDigits_spec (count : ℕ) (isDigit : ∀ c ∈ digits, c.isDigit) (within : value ≤ limit) :
    ∃ taken, digits = taken ++ (takeDigits limit value count digits).rest ∧
      (takeDigits limit value count digits).value =
        value * 10 ^ taken.length + Text.numeral 10 taken ∧
      (takeDigits limit value count digits).count = count + taken.length ∧
      (takeDigits limit value count digits).value ≤ limit ∧
      ∀ c ∈ (takeDigits limit value count digits).rest.head?,
        limit < 10 * (takeDigits limit value count digits).value + Text.digitValue c := by
  induction digits generalizing value count with
  | nil => exact ⟨[], rfl, by simp [takeDigits, Text.numeral], rfl, within, by simp [takeDigits]⟩
  | cons c rest ih =>
    obtain ⟨digit, later⟩ := List.forall_mem_cons.mp isDigit
    rw [takeDigits, digit, Bool.true_and]
    split
    next fits =>
      obtain ⟨taken, split, total, counted, bound, full⟩ :=
        ih (count + 1) later (of_decide_eq_true fits)
      refine ⟨c :: taken, congrArg (c :: ·) split, ?_, ?_, bound, full⟩
      · rw [total, ← List.singleton_append (l := taken), Text.numeral_append]
        simp only [Text.numeral, List.foldl_cons, List.foldl_nil, List.length_append,
          List.length_singleton]
        ring
      · rw [counted, List.length_cons]
        omega
    next beyond =>
      refine ⟨[], rfl, by simp [Text.numeral], rfl, within, ?_⟩
      rintro d hd
      cases hd
      simpa using beyond

theorem limit_lt_numeral {taken rest : Text}
    (full : ∀ c ∈ rest.head?, limit < 10 * Text.numeral 10 taken + Text.digitValue c)
    (nonempty : rest ≠ []) : limit < Text.numeral 10 (taken ++ rest) := by
  obtain ⟨c, rest, rfl⟩ := List.exists_cons_of_ne_nil nonempty
  have first := full c rfl
  have step : Text.numeral 10 (taken ++ [c]) = 10 * Text.numeral 10 taken + Text.digitValue c := by
    rw [Text.numeral, List.foldl_append]
    rfl
  rw [← List.singleton_append, ← List.append_assoc, Text.numeral_append, step]
  have one : 1 ≤ 10 ^ rest.length := Nat.one_le_pow _ _ (by decide)
  calc limit < 10 * Text.numeral 10 taken + Text.digitValue c := first
    _ ≤ (10 * Text.numeral 10 taken + Text.digitValue c) * 10 ^ rest.length :=
      Nat.le_mul_of_pos_right _ one
    _ ≤ _ := Nat.le_add_right _ _

theorem takeDigits_of_le (isDigit : ∀ c ∈ digits, c.isDigit)
    (small : Text.numeral 10 digits ≤ limit) :
    takeDigits limit 0 0 digits = ⟨Text.numeral 10 digits, digits.length, []⟩ := by
  obtain ⟨taken, parts, total, counted, -, full⟩ := takeDigits_spec 0 isDigit (Nat.zero_le limit)
  generalize takeDigits limit 0 0 digits = run at parts total counted full ⊢
  obtain ⟨value, count, rest⟩ := run
  dsimp only at parts total counted full
  rw [Nat.zero_mul, Nat.zero_add] at total
  rw [Nat.zero_add] at counted
  have nothing : rest = [] := by
    by_contra nonempty
    subst total parts
    exact Nat.not_lt.mpr small (limit_lt_numeral full nonempty)
  subst nothing
  rw [List.append_nil] at parts
  rw [total, counted, parts]

theorem isDigit_rest (limit value count : ℕ) (isDigit : ∀ c ∈ digits, c.isDigit) :
    ∀ c ∈ (takeDigits limit value count digits).rest, c.isDigit := by
  induction digits generalizing value count with
  | nil => exact List.forall_mem_nil _
  | cons c digits ih =>
    rw [takeDigits]
    split
    next => exact ih _ _ (List.forall_mem_cons.mp isDigit).2
    next => exact isDigit

theorem startsWithDigit_digits (isDigit : ∀ c ∈ digits, c.isDigit)
    (stop : Text.startsWithDigit tail = false) :
    Text.startsWithDigit (digits ++ tail) = !digits.isEmpty := by
  cases digits with
  | nil => exact stop
  | cons c digits => exact isDigit c List.mem_cons_self

theorem skipDigits_digits (isDigit : ∀ c ∈ digits, c.isDigit)
    (stop : Text.startsWithDigit tail = false) : skipDigits (digits ++ tail) = tail :=
  (Decimal.Numeral.takeWhile_append isDigit stop).2

end

def IsSign (down : Bool) (sign : Text) : Prop :=
  down = true ∧ sign = ['-'] ∨ down = false ∧ (sign = [] ∨ sign = ['+'])

section

variable {down : Bool} {text rest sign digits tail : Text} {number : Number}

theorem takeSign_eq (text : Text) :
    ∃ sign, text = sign ++ (takeSign text).2 ∧ IsSign (takeSign text).1 sign := by
  unfold takeSign
  split
  next => exact ⟨['+'], rfl, .inr ⟨rfl, .inr rfl⟩⟩
  next => exact ⟨['-'], rfl, .inl ⟨rfl, rfl⟩⟩
  next => exact ⟨[], rfl, .inr ⟨rfl, .inl rfl⟩⟩

theorem takeSign_append (isSign : IsSign down sign) (starts : Text.startsWithDigit text) :
    takeSign (sign ++ text) = (down, text) := by
  rcases isSign with ⟨rfl, rfl⟩ | ⟨rfl, rfl | rfl⟩
  next => rfl
  next =>
    rw [List.nil_append]
    unfold takeSign
    split
    next => cases starts
    next => cases starts
    next => rfl
  next => rfl

variable (negative : Bool) (significand : ℕ) (exponent : ℤ)

theorem readExponent_digits (isSign : IsSign down sign) (isDigits : IsDigits digits)
    (stop : Text.startsWithDigit tail = false) :
    readExponent negative significand exponent (sign ++ (digits ++ tail)) =
      let run := takeDigits exponentLimit 0 0 digits
      if run.rest.isEmpty then
        float negative significand (if down then exponent - run.value else exponent + run.value)
          tail
      else if significand ≠ 0 && !down then
        .error (.before .numberOutOfRange ((run.rest ++ tail).drop 1))
      else .ok (.float (.zero negative), tail) := by
  have starts : Text.startsWithDigit (digits ++ tail) :=
    Decimal.Numeral.startsWithDigit_append isDigits
  obtain ⟨nonempty, isDigit⟩ := isDigits
  obtain ⟨c, digits, rfl⟩ := List.exists_cons_of_ne_nil nonempty
  have left := isDigit_rest exponentLimit 0 0 isDigit
  rw [readExponent, takeSign_append isSign starts]
  dsimp only
  rw [List.cons_append]
  dsimp only
  rw [if_pos (isDigit c List.mem_cons_self), ← List.cons_append, takeDigits_digits isDigit stop]
  dsimp only
  rw [startsWithDigit_digits left stop, skipDigits_digits left stop]
  cases (takeDigits exponentLimit 0 0 (c :: digits)).rest with
  | nil => cases down <;> rfl
  | cons d more => rfl

variable {negative significand exponent} in
theorem exists_exponent
    (h : readExponent negative significand exponent text = .ok (number, rest)) :
    ∃ down sign digits tail, text = sign ++ (digits ++ tail) ∧ IsSign down sign ∧
      IsDigits digits ∧ Text.startsWithDigit tail = false := by
  obtain ⟨sign, split, isSign⟩ := takeSign_eq text
  obtain ⟨digits, tail, whole, isDigit, stop⟩ := exists_digits (takeSign text).2
  refine ⟨_, sign, digits, tail, by rw [← whole, ← split], isSign, ⟨?_, isDigit⟩, stop⟩
  rintro rfl
  rw [List.nil_append] at whole
  simp only [readExponent, whole] at h
  cases tail with
  | nil => cases h
  | cons c tail =>
    have notDigit : c.isDigit = false := stop
    simp only [notDigit, Bool.false_eq_true, if_false] at h
    cases h

theorem readFraction_digits (isDigit : ∀ c ∈ digits, c.isDigit)
    (stop : Text.startsWithDigit tail = false) :
    readFraction negative significand exponent (digits ++ tail) =
      let run := takeDigits significandLimit significand 0 digits
      if run.rest.isEmpty && run.count == 0 then
        .error (.next (if (digits ++ tail).isEmpty then .endInValue else .invalidNumber)
          (digits ++ tail))
      else readScaled negative run.value (exponent - run.count) tail := by
  have left := isDigit_rest significandLimit significand 0 isDigit
  rw [readFraction, takeDigits_digits isDigit stop]
  dsimp only
  rw [startsWithDigit_digits left stop, skipDigits_digits left stop]
  cases (takeDigits significandLimit significand 0 digits).rest with
  | nil => simp
  | cons d more => rfl

theorem readScaled_ends (ends : Ends rest) :
    readScaled negative significand exponent rest =
      float negative significand exponent rest := by
  unfold readScaled
  split
  next => exact absurd (ends 'e' rfl) (by decide)
  next => exact absurd (ends 'E' rfl) (by decide)
  next => rfl

theorem readTail_ends (ends : Ends rest) (dropped : ℕ) :
    readTail negative significand dropped rest =
      if dropped = 0 then .ok (integer negative significand, rest)
      else float negative significand dropped rest := by
  unfold readTail
  split
  next => exact absurd (ends '.' rfl) (by decide)
  next => exact absurd (ends 'e' rfl) (by decide)
  next => exact absurd (ends 'E' rfl) (by decide)
  next => rfl

theorem readUnsigned_digits (isDigits : IsDigits digits)
    (noZero : digits.length = 1 ∨ digits.head? ≠ some '0')
    (stop : Text.startsWithDigit tail = false) :
    readUnsigned negative (digits ++ tail) =
      let run := takeDigits significandLimit 0 0 digits
      readTail negative run.value run.rest.length tail := by
  obtain ⟨nonempty, isDigit⟩ := isDigits
  obtain ⟨c, digits, rfl⟩ := List.exists_cons_of_ne_nil nonempty
  rw [List.cons_append]
  by_cases zero : c = '0'
  next =>
    subst zero
    have alone : digits = [] := by simpa using noZero
    subst alone
    rw [readUnsigned, if_pos rfl, List.nil_append, stop]
    rfl
  next =>
    have left := isDigit_rest significandLimit 0 0 isDigit
    rw [readUnsigned, if_neg zero, if_pos (isDigit c List.mem_cons_self), ← List.cons_append,
      takeDigits_digits isDigit stop]
    dsimp only
    rw [skipDigits_digits left stop, (Decimal.Numeral.takeWhile_append left stop).1]

variable {negative} in
theorem exists_unsigned (h : readUnsigned negative text = .ok (number, rest)) :
    ∃ digits tail, text = digits ++ tail ∧ IsDigits digits ∧
      (digits.length = 1 ∨ digits.head? ≠ some '0') ∧ Text.startsWithDigit tail = false := by
  cases text with
  | nil => cases h
  | cons c text =>
    rw [readUnsigned] at h
    split at h
    next zero =>
      subst zero
      split at h
      next => cases h
      next stop => exact ⟨['0'], text, rfl, ⟨by simp, by simp⟩, .inl rfl, by simpa using stop⟩
    next notZero =>
      split at h
      case isFalse => cases h
      next digit =>
      obtain ⟨digits, tail, rfl, isDigit, stop⟩ := exists_digits text
      exact ⟨c :: digits, tail, rfl, ⟨by simp, List.forall_mem_cons.mpr ⟨digit, isDigit⟩⟩,
        .inr (by simpa using notZero), stop⟩

end

end DataLiteral.Json

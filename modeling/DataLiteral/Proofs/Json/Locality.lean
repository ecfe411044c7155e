import DataLiteral.Proofs.Json.Numeral

set_option autoImplicit false

namespace DataLiteral.Json

open Decimal.Numeral (Ends)

/-- What a reader takes stands at the front of its text, and is taken as well in front of any text
that may follow. -/
def IsLocal {α : Type} (follows : Text → Prop) (read : Text → Result α) : Prop :=
  ∀ ⦃text a rest⦄, read text = .ok (a, rest) →
    ∃ taken, text = taken ++ rest ∧ ∀ more, follows more → read (taken ++ more) = .ok (a, more)

section

variable (negative : Bool) (significand : ℕ) (exponent : ℤ)

variable {n : Number} {text rest : Text}

theorem float_more (h : float negative significand exponent text = .ok (n, rest)) :
    rest = text ∧ ∀ more, float negative significand exponent more = .ok (n, more) := by
  obtain ⟨same, x, scaled, rfl⟩ := float_ok h
  refine ⟨same, fun more => ?_⟩
  rw [float, scaled]

theorem isLocal_readExponent : IsLocal Ends (readExponent negative significand exponent) := by
  intro text n rest h
  obtain ⟨down, sign, digits, tail, rfl, isSign, isDigits, stop⟩ := exists_exponent h
  rw [readExponent_digits _ _ _ isSign isDigits stop] at h
  suffices rest = tail ∧ ∀ more, Ends more →
      readExponent negative significand exponent (sign ++ (digits ++ more)) = .ok (n, more) by
    obtain ⟨rfl, again⟩ := this
    exact ⟨sign ++ digits, by rw [List.append_assoc], by simpa using again⟩
  have later {more : Text} (ends : Ends more) :=
    readExponent_digits negative significand exponent isSign isDigits ends.startsWithDigit
  dsimp only at h later
  split at h
  next kept =>
    obtain ⟨same, again⟩ := float_more _ _ _ h
    exact ⟨same, fun more ends => by rw [later ends, if_pos kept, again]⟩
  next dropped =>
    split at h <;> cases h
    next fits => exact ⟨rfl, fun more ends => by rw [later ends, if_neg dropped, if_neg fits]⟩

theorem isLocal_readScaled : IsLocal Ends (readScaled negative significand exponent) := by
  intro text n rest h
  unfold readScaled at h
  split at h
  next =>
    obtain ⟨taken, rfl, again⟩ := isLocal_readExponent _ _ _ h
    exact ⟨'e' :: taken, rfl, again⟩
  next =>
    obtain ⟨taken, rfl, again⟩ := isLocal_readExponent _ _ _ h
    exact ⟨'E' :: taken, rfl, again⟩
  next =>
    obtain ⟨rfl, again⟩ := float_more _ _ _ h
    exact ⟨[], rfl, fun more ends => (readScaled_ends _ _ _ ends).trans (again more)⟩

theorem stop_append {taken rest more : Text} (stop : Text.startsWithDigit (taken ++ rest) = false)
    (ends : Ends more) : Text.startsWithDigit (taken ++ more) = false := by
  cases taken with
  | nil => exact ends.startsWithDigit
  | cons c taken => exact stop

theorem isLocal_readFraction : IsLocal Ends (readFraction negative significand exponent) := by
  intro text n rest h
  obtain ⟨digits, tail, rfl, isDigit, stop⟩ := exists_digits text
  rw [readFraction_digits _ _ _ isDigit stop] at h
  dsimp only at h
  split at h
  next => cases h
  next some' =>
    obtain ⟨taken, rfl, again⟩ := isLocal_readScaled _ _ _ h
    refine ⟨digits ++ taken, (List.append_assoc _ _ _).symm, fun more ends => ?_⟩
    rw [List.append_assoc, readFraction_digits _ _ _ isDigit (stop_append stop ends)]
    dsimp only
    rw [if_neg some', again more ends]

theorem isLocal_readTail (dropped : ℕ) : IsLocal Ends (readTail negative significand dropped) := by
  intro text n rest h
  unfold readTail at h
  split at h
  next =>
    obtain ⟨taken, rfl, again⟩ := isLocal_readFraction _ _ _ h
    exact ⟨'.' :: taken, rfl, again⟩
  next =>
    obtain ⟨taken, rfl, again⟩ := isLocal_readExponent _ _ _ h
    exact ⟨'e' :: taken, rfl, again⟩
  next =>
    obtain ⟨taken, rfl, again⟩ := isLocal_readExponent _ _ _ h
    exact ⟨'E' :: taken, rfl, again⟩
  next =>
    split at h
    next none' =>
      cases h
      exact ⟨[], rfl, fun more ends => (readTail_ends _ _ ends _).trans (if_pos none')⟩
    next some' =>
      obtain ⟨rfl, again⟩ := float_more _ _ _ h
      exact ⟨[], rfl, fun more ends =>
        (readTail_ends _ _ ends _).trans ((if_neg some').trans (again more))⟩

theorem isLocal_readUnsigned : IsLocal Ends (readUnsigned negative) := by
  intro text n rest h
  obtain ⟨digits, tail, rfl, isDigits, noZero, stop⟩ := exists_unsigned h
  rw [readUnsigned_digits _ isDigits noZero stop] at h
  obtain ⟨taken, rfl, again⟩ := isLocal_readTail _ _ _ h
  refine ⟨digits ++ taken, (List.append_assoc _ _ _).symm, fun more ends => ?_⟩
  rw [List.append_assoc, readUnsigned_digits _ isDigits noZero (stop_append stop ends)]
  exact again more ends

end

theorem isLocal_readNumber : IsLocal Ends readNumber := by
  intro text n rest h
  unfold readNumber at h
  split at h
  next =>
    obtain ⟨taken, rfl, again⟩ := isLocal_readUnsigned true h
    exact ⟨'-' :: taken, rfl, again⟩
  next plain =>
    obtain ⟨taken, rfl, again⟩ := isLocal_readUnsigned false h
    refine ⟨taken, rfl, fun more ends => ?_⟩
    rw [← again more ends]
    cases taken with
    | nil => cases again [] ends_nil
    | cons c taken =>
      unfold readNumber
      split
      next shape =>
        cases shape
        exact absurd rfl (plain _)
      next => rfl

theorem isLocal_readUnit : IsLocal (fun _ => True) readUnit := by
  intro text unit rest h
  unfold readUnit at h
  dsimp only at h
  split at h
  next a b c d after =>
    split at h
    next unit found =>
      cases h
      refine ⟨[a, b, c, d], rfl, fun more _ => ?_⟩
      simp only [readUnit, List.cons_append, List.nil_append, found]
    next => cases h
  next => cases h

theorem expect_ok {wanted : Char} {text rest : Text} (h : expect wanted text = .ok rest) :
    text = wanted :: rest := by
  cases text with
  | nil => cases h
  | cons c text =>
    rw [expect] at h
    split at h
    next same =>
      cases h
      rw [same]
    next => cases h

theorem expect_self (wanted : Char) (text : Text) : expect wanted (wanted :: text) = .ok text :=
  if_pos rfl

theorem isLocal_readScalar : IsLocal (fun _ => True) readScalar := by
  intro text c rest h
  simp only [readScalar, bind, Except.bind] at h
  split at h
  next => cases h
  next found first =>
    obtain ⟨taken, rfl, again⟩ := isLocal_readUnit first
    split at h
    next => cases h
    next notTrailing =>
      split at h
      next leading =>
        split at h
        next => cases h
        next back =>
          split at h
          next => cases h
          next mark =>
            split at h
            next => cases h
            next second =>
              obtain ⟨taken', rfl, again'⟩ := isLocal_readUnit second
              split at h
              next trailing =>
                obtain ⟨rfl, rfl⟩ := Prod.mk.inj (Except.ok.inj h)
                refine ⟨taken ++ '\\' :: 'u' :: taken', ?_, fun more _ => ?_⟩
                next => rw [expect_ok back, expect_ok mark]; simp
                next =>
                  have whole : taken ++ '\\' :: 'u' :: taken' ++ more =
                      taken ++ '\\' :: 'u' :: (taken' ++ more) := by simp
                  rw [whole]
                  simp only [readScalar, bind, Except.bind, again _ trivial, again' more trivial,
                    expect_self, notTrailing, leading, trailing, if_true, Bool.false_eq_true,
                    if_false]
              next => cases h
      next alone =>
        cases h
        refine ⟨taken, rfl, fun more _ => ?_⟩
        simp only [readScalar, bind, Except.bind, again more trivial, notTrailing, alone,
          Bool.false_eq_true, if_false]

theorem isLocal_readEscape : IsLocal (fun _ => True) readEscape := by
  intro text c rest h
  unfold readEscape at h
  split at h
  next => cases h
  next => cases h; exact ⟨['"'], rfl, fun _ _ => rfl⟩
  next => cases h; exact ⟨['\\'], rfl, fun _ _ => rfl⟩
  next => cases h; exact ⟨['/'], rfl, fun _ _ => rfl⟩
  next => cases h; exact ⟨['b'], rfl, fun _ _ => rfl⟩
  next => cases h; exact ⟨['f'], rfl, fun _ _ => rfl⟩
  next => cases h; exact ⟨['n'], rfl, fun _ _ => rfl⟩
  next => cases h; exact ⟨['r'], rfl, fun _ _ => rfl⟩
  next => cases h; exact ⟨['t'], rfl, fun _ _ => rfl⟩
  next =>
    obtain ⟨taken, rfl, again⟩ := isLocal_readScalar h
    exact ⟨'u' :: taken, rfl, again⟩
  next => cases h

theorem readCharacters_more {fuel : ℕ} {text s rest : Text}
    (h : readCharacters fuel text = .ok (s, rest)) :
    ∃ taken, text = taken ++ rest ∧ ∀ more fuel, taken.length ≤ fuel →
      readCharacters fuel (taken ++ more) = .ok (s, more) := by
  induction fuel generalizing text s with
  | zero => cases text <;> cases h
  | succ fuel ih =>
    cases text with
    | nil => cases h
    | cons c text =>
      rw [readCharacters] at h
      split at h
      next quote =>
        cases h
        refine ⟨[c], rfl, fun more fuel enough => ?_⟩
        obtain ⟨fuel, rfl⟩ := Nat.exists_eq_succ_of_ne_zero (Nat.ne_of_gt enough)
        exact if_pos quote
      next plain =>
        split at h
        next back =>
          split at h
          next => cases h
          next first =>
            split at h <;> cases h
            next later =>
              obtain ⟨taken, rfl, again⟩ := isLocal_readEscape first
              obtain ⟨taken', rfl, again'⟩ := ih later
              refine ⟨c :: (taken ++ taken'), by simp, fun more fuel enough => ?_⟩
              rw [List.length_cons, List.length_append] at enough
              obtain ⟨fuel, rfl⟩ := Nat.exists_eq_succ_of_ne_zero (by omega : fuel ≠ 0)
              rw [List.cons_append, List.append_assoc, readCharacters, if_neg plain, if_pos back,
                again _ trivial]
              dsimp only
              rw [again' more fuel (by omega)]
        next notBack =>
          split at h
          next => cases h
          next printed =>
            split at h <;> cases h
            next later =>
              obtain ⟨taken, rfl, again⟩ := ih later
              refine ⟨c :: taken, rfl, fun more fuel enough => ?_⟩
              obtain ⟨fuel, rfl⟩ := Nat.exists_eq_succ_of_ne_zero (Nat.ne_of_gt
                (Nat.zero_lt_of_lt enough))
              rw [List.cons_append, readCharacters, if_neg plain, if_neg notBack, if_neg printed,
                again more fuel (Nat.le_of_succ_le_succ enough)]

theorem isLocal_readString : IsLocal (fun _ => True) readString := by
  intro text s rest h
  obtain ⟨taken, rfl, again⟩ := readCharacters_more h
  refine ⟨taken, rfl, fun more _ => again more _ ?_⟩
  rw [List.length_append]
  exact Nat.le_add_right _ _

theorem isLocal_readScalarValue : IsLocal Ends readScalarValue := by
  intro text v rest h
  cases readScalarValue_step h with
  | null => exact ⟨"null".toList, rfl, fun more _ => (ScalarStep.null more).readScalarValue⟩
  | yes => exact ⟨"true".toList, rfl, fun more _ => (ScalarStep.yes more).readScalarValue⟩
  | no => exact ⟨"false".toList, rfl, fun more _ => (ScalarStep.no more).readScalarValue⟩
  | string read =>
    obtain ⟨taken, rfl, again⟩ := isLocal_readString read
    exact ⟨'"' :: taken, rfl, fun more _ =>
      (ScalarStep.string (again more trivial)).readScalarValue⟩
  | number starts read =>
    obtain ⟨taken, same, again⟩ := isLocal_readNumber read
    cases taken with
    | nil => cases again [] ends_nil
    | cons d taken =>
      cases same
      exact ⟨_ :: taken, rfl, fun more ends =>
        (ScalarStep.number starts (again more ends)).readScalarValue⟩

end DataLiteral.Json

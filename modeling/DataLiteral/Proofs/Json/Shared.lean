import DataLiteral.Json.Reader
import DataLiteral.Proofs.Quote.Forms

set_option autoImplicit false

namespace DataLiteral.Json

def isShared (c : Char) : Bool :=
  !(c.toNat < 0x08 || c == '\x0b' || (0x0e ≤ c.toNat && c.toNat ≤ 0x1f) || c == '\x7f')

def IsShared (text : Text) : Prop :=
  ∀ c ∈ text, isShared c

-- How a character is written, as a reader of this notation finds it: plain, by an escape that it
-- knows, or by one that it does not know.
inductive Written (c : Char) : Text → Prop where
  | plain (notQuote : c ≠ '"') (notBackslash : c ≠ '\\') (printed : 0x20 ≤ c.toNat)
      (shared : isShared c) : Written c [c]
  | known (escape : Text) (shared : isShared c)
      (reads : ∀ rest, readEscape (escape ++ rest) = .ok (c, rest)) : Written c ('\\' :: escape)
  | unknown (escape : Text) (foreign : isShared c = false)
      (fails : ∀ rest, ∃ failure, readEscape (escape ++ rest) = .error failure) :
      Written c ('\\' :: escape)

theorem isShared_of_printed {c : Char} (printed : 0x20 ≤ c.toNat) (notDelete : c ≠ '\x7f') :
    isShared c := by
  have notTab : c ≠ '\x0b' := by
    rintro rfl
    exact absurd printed (by decide)
  simp [isShared, notTab, notDelete]
  omega

theorem isShared_of_control {c : Char} (control : c.toNat < 0x20 ∨ c = '\x7f') :
    isShared c = ['\x08', '\t', '\n', '\x0c', '\r'].contains c := by
  rcases control with small | rfl
  next =>
    have each : ∀ n < 0x20, isShared (Char.ofNat n) =
        ['\x08', '\t', '\n', '\x0c', '\r'].contains (Char.ofNat n) := by
      decide
    simpa only [Char.ofNat_toNat] using each c.toNat small
  next => decide

theorem Written.of_form {c : Char} {rest written : Text}
    (form : Quote.Form .double rest c written) : Written c written := by
  cases form with
  | letter pair =>
    simp only [Quote.letters, List.mem_cons, Prod.mk.injEq, List.not_mem_nil, or_false] at pair
    obtain ⟨rfl, rfl⟩ | ⟨rfl, rfl⟩ | ⟨rfl, rfl⟩ | ⟨rfl, rfl⟩ | ⟨rfl, rfl⟩ | ⟨rfl, rfl⟩ |
      ⟨rfl, rfl⟩ := pair
    case inr.inr.inr.inr.inr.inl => exact .unknown _ rfl fun _ => ⟨_, rfl⟩
    all_goals exact .known _ rfl fun _ => rfl
  | longNul => exact .unknown _ rfl fun _ => ⟨_, rfl⟩
  | shortNul => exact .unknown _ rfl fun _ => ⟨_, rfl⟩
  | lineSeparator => exact .known _ rfl fun _ => rfl
  | paragraphSeparator => exact .known _ rfl fun _ => rfl
  | quote => exact .known _ rfl fun _ => rfl
  | byte control noLetter =>
    have foreign : isShared c = false := by
      rw [isShared_of_control control]
      simp only [Quote.letters, List.map_cons, List.map_nil, List.mem_cons, not_or] at noLetter
      simp [noLetter]
    exact .unknown _ foreign fun _ => ⟨_, rfl⟩
  | plain notQuote noLetter printed notDelete =>
    exact .plain notQuote (Quote.ne_backslash noLetter) printed (isShared_of_printed printed notDelete)

theorem written_escapeChar (c : Char) (rest : Text) :
    Written c (Quote.double.escapeChar c rest) :=
  .of_form (Quote.form_escapeChar .double c rest)

section

variable {fuel : Nat} {c : Char} {text rest : Text} {failure : Failure}

theorem readCharacters_zero (text : Text) : ∃ failure, readCharacters 0 text = .error failure := by
  cases text with
  | nil => exact ⟨_, rfl⟩
  | cons c rest => exact ⟨_, rfl⟩

theorem readCharacters_plain (notQuote : c ≠ '"') (notBackslash : c ≠ '\\')
    (printed : 0x20 ≤ c.toNat) :
    readCharacters (fuel + 1) (c :: rest) =
      (readCharacters fuel rest).map fun found => (c :: found.1, found.2) := by
  rw [readCharacters, if_neg notQuote, if_neg notBackslash, if_neg (Nat.not_lt.mpr printed)]
  cases readCharacters fuel rest <;> rfl

theorem readCharacters_known (reads : readEscape text = .ok (c, rest)) :
    readCharacters (fuel + 1) ('\\' :: text) =
      (readCharacters fuel rest).map fun found => (c :: found.1, found.2) := by
  rw [readCharacters, if_neg (by decide), if_pos rfl, reads]
  dsimp only
  cases readCharacters fuel rest <;> rfl

theorem readCharacters_unknown (fails : readEscape text = .error failure) :
    readCharacters (fuel + 1) ('\\' :: text) = .error failure := by
  rw [readCharacters, if_neg (by decide), if_pos rfl, fails]

theorem readCharacters_escapeChar (shared : isShared c) :
    readCharacters (fuel + 1) (Quote.double.escapeChar c text ++ rest) =
      (readCharacters fuel rest).map fun found => (c :: found.1, found.2) := by
  have written := written_escapeChar c text
  generalize Quote.double.escapeChar c text = escaped at written
  cases written with
  | plain notQuote notBackslash printed =>
    exact readCharacters_plain notQuote notBackslash printed
  | known escape _ reads => exact readCharacters_known (reads rest)
  | unknown escape foreign => rw [foreign] at shared; cases shared

theorem readCharacters_foreign (foreign : isShared c = false) (rest : Text) :
    ∃ failure, readCharacters fuel (Quote.double.escapeChar c text ++ rest) = .error failure := by
  have written := written_escapeChar c text
  generalize Quote.double.escapeChar c text = escaped at written
  cases written with
  | plain _ _ _ shared => rw [shared] at foreign; cases foreign
  | known _ shared => rw [shared] at foreign; cases foreign
  | unknown escape _ fails =>
    obtain ⟨failure, failed⟩ := fails rest
    cases fuel with
    | zero => exact readCharacters_zero _
    | succ fuel => exact ⟨failure, readCharacters_unknown failed⟩

theorem readCharacters_escapeBody (shared : IsShared text) (enough : text.length < fuel) :
    readCharacters fuel (Quote.double.escapeBody text ++ '"' :: rest) = .ok (text, rest) := by
  induction text generalizing fuel with
  | nil =>
    obtain ⟨fuel, rfl⟩ := Nat.exists_eq_succ_of_ne_zero (Nat.ne_of_gt enough)
    rfl
  | cons c text ih =>
    obtain ⟨first, later⟩ := List.forall_mem_cons.mp shared
    obtain ⟨fuel, rfl⟩ := Nat.exists_eq_succ_of_ne_zero (Nat.ne_of_gt (Nat.zero_lt_of_lt enough))
    rw [Quote.escapeBody, List.append_assoc, readCharacters_escapeChar first,
      ih later (Nat.lt_of_succ_lt_succ enough)]
    rfl

theorem readCharacters_escapeBody_foreign (foreign : ¬ IsShared text) :
    ∃ failure, readCharacters fuel (Quote.double.escapeBody text ++ '"' :: rest) =
      .error failure := by
  induction text generalizing fuel with
  | nil => exact absurd (List.forall_mem_nil _) foreign
  | cons c text ih =>
    rw [Quote.escapeBody, List.append_assoc]
    by_cases first : isShared c
    next =>
      cases fuel with
      | zero => exact readCharacters_zero _
      | succ fuel =>
        have later : ¬ IsShared text := fun shared =>
          foreign (List.forall_mem_cons.mpr ⟨first, shared⟩)
        obtain ⟨failure, failed⟩ := ih later
        rw [readCharacters_escapeChar first, failed]
        exact ⟨failure, rfl⟩
    next => exact readCharacters_foreign (Bool.not_eq_true _ ▸ first) _

theorem length_le_escapeBody (text : Text) :
    text.length ≤ (Quote.double.escapeBody text).length := by
  induction text with
  | nil => exact Nat.zero_le _
  | cons c text ih =>
    have written := written_escapeChar c text
    have some' : 1 ≤ (Quote.double.escapeChar c text).length := by
      generalize Quote.double.escapeChar c text = escaped at written
      cases written <;> exact Nat.le_add_left 1 _
    rw [Quote.escapeBody, List.length_append, List.length_cons]
    omega

theorem readString_escapeBody (shared : IsShared text) (rest : Text) :
    readString (Quote.double.escapeBody text ++ '"' :: rest) = .ok (text, rest) := by
  have length := length_le_escapeBody text
  apply readCharacters_escapeBody shared
  rw [List.length_append, List.length_cons]
  omega

theorem escape_append (text rest : Text) :
    Quote.double.escape text ++ rest = '"' :: (Quote.double.escapeBody text ++ '"' :: rest) := by
  simp [Quote.escape, Quote.char]

theorem readScalarValue_quote (text : Text) :
    readScalarValue ('"' :: text) =
      (readString text).map fun found => (.string found.1, found.2) := by
  rw [readScalarValue, if_neg (by decide), if_neg (by decide), if_neg (by decide), if_pos rfl]
  cases readString text <;> rfl

theorem readScalarValue_escape (shared : IsShared text) (rest : Text) :
    readScalarValue (Quote.double.escape text ++ rest) = .ok (.string text, rest) := by
  rw [escape_append, readScalarValue_quote, readString_escapeBody shared]
  rfl

theorem readKey_escape (shared : IsShared text) (rest : Text) :
    readKey (Quote.double.escape text ++ ':' :: rest) = .ok (text, rest) := by
  rw [escape_append, readKey, readString_escapeBody shared]
  rfl

theorem read_escape_iff :
    read (Quote.double.escape text) = .ok (.string text) ↔ IsShared text := by
  have quoted : read (Quote.double.escape text) =
      finish (readScalarValue (Quote.double.escape text)) := rfl
  rw [quoted, ← List.append_nil (Quote.double.escape text)]
  constructor
  next =>
    intro found
    apply Classical.byContradiction
    intro foreign
    obtain ⟨failure, failed⟩ := readCharacters_escapeBody_foreign foreign
    rw [escape_append, readScalarValue_quote, readString, failed] at found
    cases found
  next =>
    intro shared
    rw [readScalarValue_escape shared]
    rfl

end

end DataLiteral.Json

import DataLiteral.Proofs.Quote.Forms
import DataLiteral.Proofs.Script.StringLiteral

set_option autoImplicit false

namespace DataLiteral.Quote

open Script

def isInline (c : Char) : Bool :=
  0x20 ≤ c.toNat && c != '\x7f' && c != '\u2028' && c != '\u2029'

theorem hexValue?_hexUpper (n : Nat) (h : n < 16) : Text.hexValue? (hexUpper n) = some n := by
  have each : ∀ m < 16, Text.hexValue? (hexUpper m) = some m := by decide
  exact each n h

theorem isHexDigit_hexByte (n : Nat) : ∀ c ∈ hexByte n, isHexDigit c := by
  have each : ∀ m < 16, isHexDigit (hexUpper m) = true := by decide
  intro c hc
  simp only [hexByte, List.mem_cons, List.not_mem_nil, or_false] at hc
  rcases hc with rfl | rfl <;> exact each _ (Nat.mod_lt _ (by decide))

theorem toNat_of_isHexDigit {c : Char} (h : isHexDigit c) : c.toNat < 128 := by
  have ascii {d : Char} (bound : c ≤ d) (small : d.toNat < 128) : c.toNat < 128 :=
    Nat.lt_of_le_of_lt (UInt32.le_iff_toNat_le.mp bound) small
  simp only [isHexDigit, Text.isDigitBelow, Text.hexValue?] at h
  split at h
  · next found =>
    split at found
    · next digit =>
      simp only [Char.isDigit, Bool.and_eq_true, decide_eq_true_eq] at digit
      exact Nat.lt_of_le_of_lt (UInt32.le_iff_toNat_le.mp digit.2) (by decide)
    split at found
    · next lower => exact ascii lower.2 (by decide)
    split at found
    · next upper => exact ascii upper.2 (by decide)
    · cases found
  · cases h

theorem class_of_isHexDigit {c : Char} (h : isHexDigit c) :
    isInline c ∧ Text.isBreak c = false ∧ c ≠ '\\' ∧ ∀ q : Quote, c ≠ q.char := by
  have each : ∀ n < 128, isHexDigit (Char.ofNat n) → isInline (Char.ofNat n) ∧
      Text.isBreak (Char.ofNat n) = false ∧ Char.ofNat n ≠ '\\' ∧
      Char.ofNat n ≠ Quote.double.char ∧ Char.ofNat n ≠ Quote.single.char := by decide
  have found := each c.toNat (toNat_of_isHexDigit h)
  rw [Char.ofNat_toNat] at found
  obtain ⟨inline, notBreak, notBackslash, notDouble, notSingle⟩ := found h
  exact ⟨inline, notBreak, notBackslash, fun q => by cases q <;> assumption⟩

theorem readHex_hexByte (n : Nat) (h : n < 256) (tail : Text) :
    readHex 2 (hexByte n ++ tail) = some (n, tail) := by
  have high : Text.hexValue? (hexUpper (n / 16 % 16)) = some (n / 16 % 16) :=
    hexValue?_hexUpper _ (Nat.mod_lt _ (by decide))
  have low : Text.hexValue? (hexUpper (n % 16)) = some (n % 16) :=
    hexValue?_hexUpper _ (Nat.mod_lt _ (by decide))
  have highBound : n / 16 % 16 < 16 := Nat.mod_lt _ (by decide)
  have lowBound : n % 16 < 16 := Nat.mod_lt _ (by decide)
  have digits : (hexByte n).all isHexDigit := by
    simp only [hexByte, List.all_cons, List.all_nil, isHexDigit, Text.isDigitBelow, high, low,
      highBound, lowBound, decide_true, Bool.and_self]
  have value : Text.numeral 16 (hexByte n) = n := by
    simp only [hexByte, Text.numeral, List.foldl_cons, List.foldl_nil, Text.digitValue, high, low,
      Option.getD_some]
    omega
  have front : (hexByte n ++ tail).take 2 = hexByte n := rfl
  have back : (hexByte n ++ tail).drop 2 = tail := rfl
  have size : (hexByte n).length = 2 := rfl
  simp only [readHex, front, back, size, digits, value, and_self, if_true]

/-- What the readers of a literal ask of the written form of a character: to be a plain character, or
a backslash with a letter and digits whose value is that character. What comes next can extend the
escape only where a digit follows the character. -/
def IsWritten (q : Quote) (c : Char) (rest written : Text) : Prop :=
  (written = [c] ∧ c ≠ q.char ∧ c ≠ '\\' ∧ Text.isBreak c = false ∧ isInline c) ∨
    ∃ letter digits, written = '\\' :: letter :: digits ∧ isInline letter ∧
      (∀ d ∈ digits, isHexDigit d) ∧
      ∀ tail, (Text.startsWithDigit tail → Text.startsWithDigit rest) →
        readEscape (letter :: (digits ++ tail)) = some (Text.charUnits c, tail)

theorem IsWritten.letter {q : Quote} {c d : Char} {rest : Text} (inline : isInline d)
    (reads : ∀ tail, readEscape (d :: tail) = some (Text.charUnits c, tail)) :
    IsWritten q c rest ['\\', d] :=
  .inr ⟨d, [], rfl, inline, by simp, fun tail _ => reads tail⟩

theorem isWritten_byte (q : Quote) (c : Char) (rest : Text) (h : c.toNat < 256) :
    IsWritten q c rest ('\\' :: 'x' :: hexByte c.toNat) := by
  refine .inr ⟨_, _, rfl, by decide, isHexDigit_hexByte c.toNat, fun tail _ => ?_⟩
  simp [readEscape, readHex_hexByte _ h, Text.charUnits_of_lt c (by omega)]

theorem Form.isWritten {q : Quote} {c : Char} {rest written : Text}
    (form : Form q rest c written) : IsWritten q c rest written := by
  cases form with
  | letter pair =>
    have each : ∀ pair ∈ letters, isInline pair.2 ∧
        ∀ tail, readEscape (pair.2 :: tail) = some (Text.charUnits pair.1, tail) := by
      simp only [letters, List.forall_mem_cons]
      exact ⟨⟨rfl, fun _ => rfl⟩, ⟨rfl, fun _ => rfl⟩, ⟨rfl, fun _ => rfl⟩, ⟨rfl, fun _ => rfl⟩,
        ⟨rfl, fun _ => rfl⟩, ⟨rfl, fun _ => rfl⟩, ⟨rfl, fun _ => rfl⟩, List.forall_mem_nil _⟩
    exact .letter (each _ pair).1 (each _ pair).2
  | longNul digit => exact .inr ⟨_, _, rfl, by decide, List.all_eq_true.mp rfl, fun _ _ => rfl⟩
  | shortNul noDigit =>
    refine .inr ⟨_, _, rfl, by decide, List.all_eq_true.mp rfl, fun tail digits => ?_⟩
    have noDigit' : Text.startsWithDigit tail = false := by
      rw [noDigit] at digits
      simpa using digits
    show readEscape ('0' :: tail) = some ([0], tail)
    simp [readEscape, noDigit']
  | lineSeparator =>
    exact .inr ⟨_, _, rfl, by decide, List.all_eq_true.mp rfl, fun _ _ => rfl⟩
  | paragraphSeparator =>
    exact .inr ⟨_, _, rfl, by decide, List.all_eq_true.mp rfl, fun _ _ => rfl⟩
  | quote => cases q <;> exact .letter rfl fun _ => rfl
  | byte control =>
    refine isWritten_byte q c rest ?_
    rcases control with small | rfl
    · omega
    · decide
  | plain notQuote noLetter printed notDelete notLine notParagraph =>
    have notBreak : Text.isBreak c = false := by
      simp only [Text.isBreak, Bool.or_eq_false_iff, beq_eq_false_iff_ne]
      constructor <;> rintro rfl <;> exact absurd printed (by decide)
    refine .inl ⟨rfl, notQuote, ne_backslash noLetter, notBreak, ?_⟩
    simp [isInline, printed, notDelete, notLine, notParagraph]

theorem isWritten_escapeChar (q : Quote) (c : Char) (rest : Text) :
    IsWritten q c rest (q.escapeChar c rest) :=
  (form_escapeChar q c rest).isWritten

theorem readStringBody_escape (q : Quote) (text : Text) :
    readStringBody q.char ('\\' :: text) =
      (readEscape text).bind fun (value, after) =>
        prepend value (readStringBody q.char after) := by
  have notQuote : '\\' ≠ q.char := by cases q <;> decide
  rw [readStringBody]
  simp only [notQuote, if_false, if_true]
  split <;> next found => simp [found]

theorem readStringBody_escapeChar (q : Quote) (c : Char) (rest tail : Text)
    (digits : Text.startsWithDigit tail → Text.startsWithDigit rest) :
    readStringBody q.char (q.escapeChar c rest ++ tail) =
      prepend (Text.charUnits c) (readStringBody q.char tail) := by
  rcases isWritten_escapeChar q c rest with ⟨plain, notQuote, notBackslash, notBreak, _⟩ |
      ⟨letter, hex, escaped, _, _, reads⟩
  · rw [plain, List.singleton_append, readStringBody]
    simp [notQuote, notBackslash, notBreak]
  · rw [escaped, List.cons_append, List.cons_append, readStringBody_escape, reads tail digits,
      Option.bind_some]

-- Escaping does not put a digit in front of a text: digits are plain, and all escapes start with a
-- backslash.
theorem startsWithDigit_escapeBody (q : Quote) (text rest : Text)
    (h : Text.startsWithDigit (q.escapeBody text ++ q.char :: rest)) :
    Text.startsWithDigit text := by
  cases text with
  | nil => cases q <;> cases h
  | cons c after =>
    rcases isWritten_escapeChar q c after with ⟨plain, _⟩ | ⟨_, _, escaped, _⟩
    · simpa [escapeBody, plain, Text.startsWithDigit] using h
    · simp [escapeBody, escaped, Text.startsWithDigit] at h

theorem readStringBody_escapeBody (q : Quote) (text rest : Text) :
    readStringBody q.char (q.escapeBody text ++ q.char :: rest) =
      some (Text.units text, rest) := by
  induction text with
  | nil => simp [escapeBody, readStringBody]
  | cons c after ih =>
    rw [escapeBody, List.append_assoc,
      readStringBody_escapeChar q c after _ (startsWithDigit_escapeBody q after rest), ih]
    rfl

theorem isInline_escapeBody (q : Quote) (text : Text) : ∀ c ∈ q.escapeBody text, isInline c := by
  induction text with
  | nil => simp [escapeBody]
  | cons c after ih =>
    have head : ∀ d ∈ q.escapeChar c after, isInline d := by
      rcases isWritten_escapeChar q c after with ⟨plain, _, _, _, inline⟩ |
          ⟨letter, digits, escaped, inline, hex, _⟩
      · simpa [plain] using inline
      · rw [escaped]
        exact List.forall_mem_cons.mpr ⟨by decide, List.forall_mem_cons.mpr
          ⟨inline, fun d hd => (class_of_isHexDigit (hex d hd)).1⟩⟩
    exact List.forall_mem_append.mpr ⟨head, ih⟩

/-- An escaped text is a string literal of strict code for this text, whatever follows it, and its
literal takes one line. -/
theorem readString_escape (q : Quote) (text rest : Text) :
    readString q (q.escape text ++ rest) = some (Text.units text, rest) ∧
      ∀ c ∈ q.escape text, isInline c := by
  have delimiter : isInline q.char := by cases q <;> decide
  constructor
  · simpa [escape, readString] using readStringBody_escapeBody q text rest
  · intro c hc
    simp only [escape, List.mem_cons, List.mem_append, List.not_mem_nil, or_false] at hc
    rcases hc with rfl | inside | rfl
    · exact delimiter
    · exact isInline_escapeBody q text c inside
    · exact delimiter

end DataLiteral.Quote

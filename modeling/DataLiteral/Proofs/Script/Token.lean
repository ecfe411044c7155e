import DataLiteral.Identifier
import DataLiteral.Proofs.Decimal.Numeral
import DataLiteral.Proofs.Script.StringLiteral

set_option autoImplicit false

namespace DataLiteral.Script

open Decimal (Numeral)

inductive Mark where
  | openBracket
  | closeBracket
  | openBrace
  | closeBrace
  | comma
  | colon
  | minus
  deriving DecidableEq, Repr

def Mark.char : Mark → Char
  | .openBracket => '['
  | .closeBracket => ']'
  | .openBrace => '\x7b'
  | .closeBrace => '\x7d'
  | .comma => ','
  | .colon => ':'
  | .minus => '-'

def Mark.ofChar? (c : Char) : Option Mark :=
  [openBracket, closeBracket, openBrace, closeBrace, comma, colon, minus].find? (·.char == c)

inductive Token where
  | mark (mark : Mark)
  | word (name : Text)
  | numeral (source : Text)
  | string (source : Text)
  | template (source : Text)
  deriving DecidableEq, Repr

def isBlank (c : Char) : Bool :=
  c ∈ ['\t', '\n', '\x0b', '\x0c', '\r', ' ', '\u00a0', '\u1680', '\u2028', '\u2029', '\u202f',
    '\u205f', '\u3000', '\ufeff'] || ('\u2000' ≤ c && c ≤ '\u200a')

def skipBlank (text : Text) : Text :=
  text.dropWhile isBlank

def isWordPart (c : Char) : Bool :=
  isWordStart c || c.isDigit

-- Names go on with letters beyond ASCII and with escapes, neither of which are read here.
def continuesName (c : Char) : Bool :=
  isWordPart c || c == '\\' || 0x80 ≤ c.toNat

def Detached (rest : Text) : Prop :=
  ∀ c ∈ rest.head?, !continuesName c && c != '.'

def endsName (rest : Text) : Bool :=
  match rest with
  | [] => true
  | c :: _ => !continuesName c

/-- The source of a token with delimiters, after its opening one up to and with the closing one. A
backslash takes the next character with it; elsewhere the token can be broken off. -/
def scan (delimiter : Char) (breaks : Char → Text → Bool) (escaped : Bool) : Text → Reading Text
  | [] => none
  | c :: rest =>
      if !escaped && c == delimiter then some ([c], rest)
      else if !escaped && breaks c rest then none
      else
        (scan delimiter breaks (c == '\\' && !escaped) rest).map fun (source, after) =>
          (c :: source, after)

def scanString (delimiter : Char) (text : Text) : Reading Text :=
  scan delimiter (fun c _ => Text.isBreak c) false text

def scanTemplate (text : Text) : Reading Text :=
  scan Quote.backtick Quote.opensSubstitution false text

def readWord (text : Text) : Reading Token :=
  let rest := text.dropWhile isWordPart
  if endsName rest then some (.word (text.takeWhile isWordPart), rest) else none

def readNumeral (text : Text) : Reading Token :=
  match Numeral.take text with
  | none => none
  | some (numeral, rest) =>
      if (numeral.whole.length = 1 ∨ numeral.whole.head? ≠ some '0') ∧ endsName rest then
        some (.numeral numeral.text, rest)
      else none

def readToken : Text → Reading Token
  | [] => none
  | c :: rest =>
      match Mark.ofChar? c with
      | some mark => some (.mark mark, rest)
      | none =>
          if isWordStart c then readWord (c :: rest)
          else if c.isDigit then readNumeral (c :: rest)
          else if c = Quote.double.char ∨ c = Quote.single.char then
            (scanString c rest).map fun (source, after) => (.string (c :: source), after)
          else if c = Quote.backtick then
            (scanTemplate rest).map fun (source, after) => (.template (c :: source), after)
          else none

theorem scan_length {delimiter : Char} {breaks : Char → Text → Bool} {text source after : Text}
    {escaped : Bool} (h : scan delimiter breaks escaped text = some (source, after)) :
    after.length < text.length := by
  induction text generalizing escaped source with
  | nil => cases h
  | cons c rest ih =>
    rw [scan] at h
    split at h
    · cases h
      simp
    split at h
    · cases h
    · obtain ⟨⟨inner, left⟩, found, same⟩ := Option.map_eq_some_iff.mp h
      cases same
      exact Nat.lt_succ_of_lt (ih found)

theorem readWord_length {c : Char} {text rest : Text} {token : Token} (part : isWordPart c)
    (h : readWord (c :: text) = some (token, rest)) : rest.length ≤ text.length := by
  simp only [readWord, List.dropWhile_cons, part, if_true] at h
  split at h <;> cases h
  exact (List.dropWhile_suffix isWordPart).length_le

theorem readNumeral_length {text rest : Text} {token : Token}
    (h : readNumeral text = some (token, rest)) : rest.length < text.length := by
  unfold readNumeral at h
  split at h
  · cases h
  · next numeral after taken =>
    split at h <;> cases h
    obtain ⟨split, nonempty⟩ := Numeral.take_eq taken
    have size := List.length_pos_iff.mpr nonempty
    simp only [split, Numeral.text, List.length_append]
    omega

theorem readToken_length {c : Char} {text rest : Text} {token : Token}
    (h : readToken (c :: text) = some (token, rest)) : rest.length ≤ text.length := by
  unfold readToken at h
  split at h
  · cases h
  next c' text' shape =>
  cases shape
  split at h
  · cases h
    exact Nat.le_refl _
  split at h
  · next starts => exact readWord_length (by simp [isWordPart, starts]) h
  split at h
  · exact Nat.lt_succ_iff.mp (readNumeral_length h)
  split at h
  · obtain ⟨⟨source, left⟩, found, same⟩ := Option.map_eq_some_iff.mp h
    cases same
    exact Nat.le_of_lt (scan_length found)
  split at h
  · obtain ⟨⟨source, left⟩, found, same⟩ := Option.map_eq_some_iff.mp h
    cases same
    exact Nat.le_of_lt (scan_length found)
  · cases h

def tokens (text : Text) : Option (List Token) :=
  match _shape : skipBlank text with
  | [] => some []
  | c :: rest =>
      match _h : readToken (c :: rest) with
      | none => none
      | some (token, after) => (tokens after).map (token :: ·)
termination_by text.length
decreasing_by
  have shorter := readToken_length _h
  have skipped := (List.dropWhile_suffix (l := text) isBlank).length_le
  simp only [skipBlank] at _shape
  rw [_shape, List.length_cons] at skipped
  omega

theorem tokens_eq (text : Text) :
    tokens text = match skipBlank text with
      | [] => some []
      | c :: rest =>
          (readToken (c :: rest)).bind fun found => (tokens found.2).map (found.1 :: ·) := by
  rw [tokens]
  split
  · next shape => rw [shape]
  · next shape =>
    rw [shape]
    dsimp only
    split
    · next fails => rw [fails, Option.bind_none]
    · next reads => rw [reads, Option.bind_some]

theorem tokens_nil : tokens [] = some [] := by
  rw [tokens_eq]
  rfl

end DataLiteral.Script

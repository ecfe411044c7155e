import DataLiteral.Quote

set_option autoImplicit false

namespace DataLiteral.Quote

def letters : List (Char × Char) :=
  [('\\', '\\'), ('\n', 'n'), ('\r', 'r'), ('\t', 't'), ('\x08', 'b'), ('\x0b', 'v'), ('\x0c', 'f')]

theorem ne_backslash {c : Char} (noLetter : c ∉ letters.map Prod.fst) : c ≠ '\\' := by
  rintro rfl
  exact noLetter (by decide)

inductive Form (q : Quote) (rest : Text) : Char → Text → Prop where
  | letter {c d : Char} (pair : (c, d) ∈ letters) : Form q rest c ['\\', d]
  | longNul (digit : Text.startsWithDigit rest) : Form q rest '\x00' ['\\', 'x', '0', '0']
  | shortNul (noDigit : Text.startsWithDigit rest = false) : Form q rest '\x00' ['\\', '0']
  | lineSeparator : Form q rest '\u2028' "\\u2028".toList
  | paragraphSeparator : Form q rest '\u2029' "\\u2029".toList
  | quote : Form q rest q.char ['\\', q.char]
  | byte {c : Char} (control : c.toNat < 0x20 ∨ c = '\x7f') (noLetter : c ∉ letters.map Prod.fst) :
      Form q rest c ('\\' :: 'x' :: hexByte c.toNat)
  | plain {c : Char} (notQuote : c ≠ q.char) (noLetter : c ∉ letters.map Prod.fst)
      (printed : 0x20 ≤ c.toNat) (notDelete : c ≠ '\x7f') (notLine : c ≠ '\u2028')
      (notParagraph : c ≠ '\u2029') : Form q rest c [c]

theorem form_escapeChar (q : Quote) (c : Char) (rest : Text) :
    Form q rest c (q.escapeChar c rest) := by
  rw [escapeChar]
  by_cases backslash : c = '\\'
  · rw [if_pos backslash, backslash]
    exact .letter (by decide)
  rw [if_neg backslash]
  by_cases feed : c = '\n'
  · rw [if_pos feed, feed]
    exact .letter (by decide)
  rw [if_neg feed]
  by_cases return' : c = '\r'
  · rw [if_pos return', return']
    exact .letter (by decide)
  rw [if_neg return']
  by_cases tab : c = '\t'
  · rw [if_pos tab, tab]
    exact .letter (by decide)
  rw [if_neg tab]
  by_cases backspace : c = '\x08'
  · rw [if_pos backspace, backspace]
    exact .letter (by decide)
  rw [if_neg backspace]
  by_cases vertical : c = '\x0b'
  · rw [if_pos vertical, vertical]
    exact .letter (by decide)
  rw [if_neg vertical]
  by_cases form : c = '\x0c'
  · rw [if_pos form, form]
    exact .letter (by decide)
  rw [if_neg form]
  by_cases nul : c = '\x00'
  · rw [if_pos nul, nul]
    split
    next digit => exact .longNul digit
    next noDigit => exact .shortNul (by simpa using noDigit)
  rw [if_neg nul]
  by_cases line : c = '\u2028'
  · rw [if_pos line, line]
    exact .lineSeparator
  rw [if_neg line]
  by_cases paragraph : c = '\u2029'
  · rw [if_pos paragraph, paragraph]
    exact .paragraphSeparator
  rw [if_neg paragraph]
  by_cases quote : c = q.char
  · rw [if_pos quote, quote]
    exact .quote
  rw [if_neg quote]
  have noLetter : c ∉ letters.map Prod.fst := by
    simp [letters, backslash, feed, return', tab, backspace, vertical, form]
  split
  next control => exact .byte (by simpa using control) noLetter
  next printed =>
    simp only [Bool.or_eq_true, decide_eq_true_eq, not_or, Nat.not_lt] at printed
    exact .plain quote noLetter printed.1 printed.2 line paragraph

end DataLiteral.Quote

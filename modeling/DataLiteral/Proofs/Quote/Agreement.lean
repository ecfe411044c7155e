import DataLiteral.Expr.OfValue
import DataLiteral.Proofs.Quote.Meaning

set_option autoImplicit false

namespace DataLiteral.Quote

open Script

def undelimited (literal : Text) : Text :=
  (literal.drop 1).dropLast

theorem undelimited_escape (q : Quote) (text : Text) :
    undelimited (q.escape text) = q.escapeBody text := by
  simp [undelimited, escape]

theorem startsWithDigit_of_escapeBody {q : Quote} {text : Text}
    (h : Text.startsWithDigit (q.escapeBody text)) : Text.startsWithDigit text := by
  apply startsWithDigit_escapeBody q text []
  cases shape : q.escapeBody text with
  | nil => simp [shape, Text.startsWithDigit] at h
  | cons c rest => simpa [shape, Text.startsWithDigit] using h

theorem escapedValue?_plain {c : Char} (notBackslash : c ≠ '\\')
    (notBreak : Text.isBreak c = false) (rest : Text) :
    escapedValue? (c :: rest) = (escapedValue? rest).map (Text.charUnits c ++ ·) := by
  have notReturn : c ≠ '\r' := by
    rintro rfl
    cases notBreak
  rw [escapedValue?, if_neg notBackslash, if_neg notReturn]

theorem escapedValue?_escapeChar (q : Quote) (c : Char) (rest tail : Text)
    (digits : Text.startsWithDigit tail → Text.startsWithDigit rest) :
    escapedValue? (q.escapeChar c rest ++ tail) =
      (escapedValue? tail).map (Text.charUnits c ++ ·) := by
  rcases isWritten_escapeChar q c rest with ⟨plain, _, notBackslash, notBreak, _⟩ |
      ⟨letter, hex, escaped, _, _, reads⟩
  next =>
    rw [plain, List.singleton_append]
    exact escapedValue?_plain notBackslash notBreak tail
  next =>
    rw [escaped, List.cons_append, List.cons_append, escapedValue?_escape, reads tail digits]
    rfl

theorem escapedValue?_escapeBody (q : Quote) (text : Text) :
    escapedValue? (q.escapeBody text) = some (Text.units text) := by
  induction text with
  | nil => simp [escapeBody, escapedValue?]
  | cons c rest ih =>
    rw [escapeBody, escapedValue?_escapeChar q c rest _ startsWithDigit_of_escapeBody, ih]
    rfl

theorem evaluate_print_string {style : Style} {text : Text} {value : Units}
    (h : escapedValue? text = some value) :
    evaluate ((Expr.string text true).print style) = some (.string value) := by
  have wellEscaped : isWellEscaped text := by rw [← isSome_escapedValue?, h, Option.isSome_some]
  have paired : (Expr.string text true).isPaired := by
    simpa [Expr.isPaired, IsPaired] using isPaired_of_isWellEscaped wellEscaped
  rw [evaluate, Expr.print, Expr.read_textAt paired, Option.bind_some, Expr.tree,
    value?_verbatim, h, Option.map_some]

/-- The two ways to write a text agree: escaped once and then passed on as verbatim text, it gives a
literal of the same value as when it is escaped by the printer, with any of the quotes. -/
theorem evaluate_print_undelimited (q : Quote) (style : Style) (text : Text) :
    ((Expr.ofValueWith true (.string (undelimited (q.escape text)))).1.map
        (Expr.print style)).bind evaluate = some (.string (Text.units text)) ∧
      ((Expr.ofValueWith false (.string text)).1.map (Expr.print style)).bind evaluate =
        some (.string (Text.units text)) := by
  constructor
  next =>
    rw [undelimited_escape]
    exact evaluate_print_string (escapedValue?_escapeBody q text)
  next =>
    have paired : (Expr.string text false).isPaired := rfl
    change evaluate ((Expr.string text false).print style) = _
    rw [evaluate, Expr.print, Expr.read_textAt paired]
    rfl

example :
    (Expr.string (undelimited (Quote.double.escape "\"'\x60".toList)) true).print .default =
      "\x60\\\"'\\\x60\x60".toList := by
  decide

end DataLiteral.Quote

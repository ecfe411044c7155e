import DataLiteral.Proofs.Quote.Scan
import DataLiteral.Proofs.Script.Lexing
import DataLiteral.Proofs.Script.Tree

set_option autoImplicit false

namespace DataLiteral.Quote

open Script

theorem readToken_unpaired {q : Quote} {text part : Text} (unpaired : ¬IsPaired text)
    (h : part <+: q.verbatim text) : readToken part = none := by
  cases part with
  | nil => rfl
  | cons c part =>
    rcases scan_verbatim_unpaired (q := q) unpaired with ⟨d, body, shape, scanned⟩ |
        ⟨body, shape, scanned⟩
    · rw [shape] at h
      obtain ⟨rfl, within⟩ := List.cons_prefix_cons.mp h
      rw [readToken_quote, scanned part within, Option.map_none]
    · rw [shape] at h
      obtain ⟨rfl, within⟩ := List.cons_prefix_cons.mp h
      rw [readToken_backtick, scanned part within, Option.map_none]

/-- Verbatim text whose backslashes are paired is one token, whatever follows it. Other text never
ends the token that it starts. -/
theorem readToken_verbatim (q : Quote) (text : Text) :
    (IsPaired text → ∀ rest,
      readToken (q.verbatim text ++ rest) = some (stringToken (q.verbatim text), rest)) ∧
    (¬IsPaired text → ∀ part, part <+: q.verbatim text → readToken part = none) := by
  constructor
  · intro paired rest
    rcases scan_verbatim (q := q) paired with ⟨d, body, shape, scanned⟩ | ⟨body, shape, scanned⟩
    · rw [shape, stringToken_quote, List.cons_append, readToken_quote, scanned rest,
        Option.map_some]
    · rw [shape, stringToken_backtick, List.cons_append, readToken_backtick, scanned rest,
        Option.map_some]
  · intro unpaired part inside
    exact readToken_unpaired unpaired inside

end DataLiteral.Quote

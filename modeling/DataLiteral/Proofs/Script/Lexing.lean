import DataLiteral.Proofs.Script.Token

set_option autoImplicit false

namespace DataLiteral.Script

open Decimal (Numeral)

/-- A text reads as these tokens in front of everything that does not continue its last one. -/
def Yields (text : Text) (found : List Token) : Prop :=
  ∀ rest, Detached rest → tokens (text ++ rest) = (tokens rest).map (found ++ ·)

theorem tokens_of_readToken {c : Char} {text after : Text} {token : Token}
    (notBlank : isBlank c = false) (reads : readToken (c :: text) = some (token, after)) :
    tokens (c :: text) = (tokens after).map (token :: ·) := by
  rw [tokens_eq, skipBlank, List.dropWhile_cons, notBlank]
  simp [reads]

theorem tokens_eq_none {c : Char} {text : Text} (notBlank : isBlank c = false)
    (unread : readToken (c :: text) = none) : tokens (c :: text) = none := by
  rw [tokens_eq, skipBlank, List.dropWhile_cons, notBlank]
  simp [unread]

theorem tokens_skipBlank {blank : Text} (h : ∀ c ∈ blank, isBlank c) (rest : Text) :
    tokens (blank ++ rest) = tokens rest := by
  rw [tokens_eq, tokens_eq rest, skipBlank, List.dropWhile_append_of_pos h]
  rfl

theorem tokens_mark (mark : Mark) (rest : Text) :
    tokens (mark.char :: rest) = (tokens rest).map (.mark mark :: ·) := by
  refine tokens_of_readToken (by cases mark <;> decide) ?_
  have found : Mark.ofChar? mark.char = some mark := by cases mark <;> decide
  simp only [readToken, found]

namespace Yields

variable {text more : Text} {found later : List Token}

theorem nil : Yields [] [] := by
  intro rest _
  cases h : tokens rest <;> simp [h]

theorem blank {space : Text} (h : ∀ c ∈ space, isBlank c) (reads : Yields text found) :
    Yields (space ++ text) found := by
  intro rest detached
  rw [List.append_assoc, tokens_skipBlank h]
  exact reads rest detached

theorem mark (mark : Mark) (reads : Yields text found) :
    Yields (mark.char :: text) (.mark mark :: found) := by
  intro rest detached
  rw [List.cons_append, tokens_mark, reads rest detached, Option.map_map]
  rfl

theorem append (first : Yields text found) (second : Yields more later)
    (apart : ∀ rest, Detached rest → Detached (more ++ rest)) :
    Yields (text ++ more) (found ++ later) := by
  intro rest detached
  rw [List.append_assoc, first _ (apart rest detached), second rest detached, Option.map_map]
  simp [Function.comp_def]

end Yields

theorem detached_mark (mark : Mark) (rest : Text) : Detached (mark.char :: rest) := by
  intro c hc
  cases hc
  cases mark <;> decide

theorem Detached.endsName {rest : Text} (h : Detached rest) : endsName rest := by
  cases rest with
  | nil => rfl
  | cons c rest =>
    have ends := h c rfl
    simp only [Bool.and_eq_true] at ends
    exact ends.1

theorem Detached.ends {rest : Text} (h : Detached rest) : Numeral.Ends rest := by
  intro c hc
  have detached := h c hc
  have digit : c.isDigit → continuesName c := by
    intro digit
    simp [continuesName, isWordPart, digit]
  have mark : Numeral.isMark c → continuesName c := by
    intro mark
    simp only [Numeral.isMark, Bool.or_eq_true, beq_iff_eq] at mark
    rcases mark with rfl | rfl <;> decide
  simp only [Bool.and_eq_true, Bool.not_eq_true', ← Bool.not_eq_true] at detached ⊢
  exact ⟨⟨fun h => detached.1 (digit h), detached.2⟩, fun h => detached.1 (mark h)⟩

theorem toNat_of_isWordPart {c : Char} (h : isWordPart c) : c.toNat < 128 := by
  simp only [isWordPart, isWordStart, Bool.or_eq_true, beq_iff_eq] at h
  rcases h with ((letter | rfl) | rfl) | digit
  · have kinds : (c.isUpper || c.isLower) = true := letter
    rcases Bool.or_eq_true_iff.mp kinds with upper | lower
    · have bounds := of_decide_eq_true upper
      exact Nat.lt_of_le_of_lt (UInt32.le_iff_toNat_le.mp bounds.2) (by decide)
    · have bounds := of_decide_eq_true (Bool.and_eq_true_iff.mp lower).2
      exact Nat.lt_of_le_of_lt (UInt32.le_iff_toNat_le.mp bounds) (by decide)
  · decide
  · decide
  · simp only [Char.isDigit, Bool.and_eq_true, decide_eq_true_eq, ge_iff_le,
      UInt32.le_iff_toNat_le] at digit
    have bounds : 48 ≤ c.toNat ∧ c.toNat ≤ 57 := digit
    omega

theorem class_of_isWordPart {c : Char} (h : isWordPart c) :
    isBlank c = false ∧ Mark.ofChar? c = none := by
  have each : ∀ n < 128, isWordPart (Char.ofNat n) →
      isBlank (Char.ofNat n) = false ∧ Mark.ofChar? (Char.ofNat n) = none := by decide
  have found := each c.toNat (toNat_of_isWordPart h)
  rw [Char.ofNat_toNat] at found
  exact found h

theorem yields_word {name : Text} (start : ∃ c rest, name = c :: rest ∧ isWordStart c)
    (parts : ∀ c ∈ name, isWordPart c) : Yields name [.word name] := by
  obtain ⟨c, letters, rfl, starts⟩ := start
  intro rest detached
  obtain ⟨notBlank, notMark⟩ := class_of_isWordPart (parts c List.mem_cons_self)
  refine tokens_of_readToken notBlank ?_
  have stop : List.takeWhile isWordPart rest = [] ∧ List.dropWhile isWordPart rest = rest := by
    cases rest with
    | nil => simp
    | cons d rest =>
      have ends := detached d rfl
      simp only [continuesName, Bool.not_or, Bool.and_eq_true, Bool.not_eq_true'] at ends
      simp [ends.1.1.1]
  have word : readWord (c :: letters ++ rest) = some (.word (c :: letters), rest) := by
    rw [readWord, List.dropWhile_append_of_pos parts, List.takeWhile_append_of_pos parts, stop.1,
      stop.2, if_pos detached.endsName, List.append_nil]
  rw [List.cons_append] at word
  show readToken (c :: (letters ++ rest)) = _
  simpa only [readToken, notMark, starts, if_true] using word

theorem isWordStart_of_isDigit {c : Char} (h : c.isDigit) : isWordStart c = false := by
  have each : ∀ n < 128, (Char.ofNat n).isDigit → isWordStart (Char.ofNat n) = false := by decide
  have found := each c.toNat (toNat_of_isWordPart (by simp [isWordPart, h]))
  rw [Char.ofNat_toNat] at found
  exact found h

theorem yields_numeral {n : Numeral} (h : n.WellFormed) : Yields n.text [.numeral n.text] := by
  intro rest detached
  have taken := Numeral.take_text h detached.ends
  obtain ⟨nonempty, digits⟩ := h.whole
  obtain ⟨c, more, shape⟩ := List.exists_cons_of_ne_nil nonempty
  have digit : c.isDigit := digits c (by simp [shape])
  obtain ⟨notBlank, notMark⟩ := class_of_isWordPart (c := c) (by simp [isWordPart, digit])
  have whole : readNumeral (n.text ++ rest) = some (.numeral n.text, rest) := by
    rw [readNumeral, taken]
    exact if_pos ⟨h.noZero, detached.endsName⟩
  rw [Numeral.text, shape, List.cons_append, List.cons_append, List.cons_append] at whole ⊢
  refine tokens_of_readToken notBlank ?_
  simp only [readToken, notMark, isWordStart_of_isDigit digit, digit, if_true, Bool.false_eq_true,
    if_false]
  exact whole

theorem readToken_quote (q : Quote) (text : Text) :
    readToken (q.char :: text) =
      (scanString q.char text).map fun (source, after) => (.string (q.char :: source), after) := by
  have notMark : Mark.ofChar? q.char = none := by cases q <;> decide
  have notStart : isWordStart q.char = false := by cases q <;> decide
  have notDigit : q.char.isDigit = false := by cases q <;> decide
  have quote : q.char = Quote.double.char ∨ q.char = Quote.single.char := by cases q <;> decide
  simp only [readToken, notMark, notStart, notDigit, quote, Bool.false_eq_true, if_false, if_true]

theorem readToken_backtick (text : Text) :
    readToken (Quote.backtick :: text) =
      (scanTemplate text).map fun (source, after) =>
        (.template (Quote.backtick :: source), after) := by
  have notMark : Mark.ofChar? Quote.backtick = none := by decide
  have notStart : isWordStart Quote.backtick = false := by decide
  have notDigit : Quote.backtick.isDigit = false := by decide
  have notQuote : ¬(Quote.backtick = Quote.double.char ∨ Quote.backtick = Quote.single.char) := by
    decide
  simp only [readToken, notMark, notStart, notDigit, notQuote, Bool.false_eq_true, if_false,
    if_true]

theorem yields_string {q : Quote} {body : Text}
    (h : ∀ rest, scanString q.char (body ++ rest) = some (body, rest)) :
    Yields (q.char :: body) [.string (q.char :: body)] := by
  intro rest _
  rw [List.cons_append]
  refine tokens_of_readToken (by cases q <;> decide) ?_
  rw [readToken_quote, h rest, Option.map_some]

theorem yields_template {body : Text}
    (h : ∀ rest, scanTemplate (body ++ rest) = some (body, rest)) :
    Yields (Quote.backtick :: body) [.template (Quote.backtick :: body)] := by
  intro rest _
  rw [List.cons_append]
  refine tokens_of_readToken (by decide) ?_
  rw [readToken_backtick, h rest, Option.map_some]

end DataLiteral.Script

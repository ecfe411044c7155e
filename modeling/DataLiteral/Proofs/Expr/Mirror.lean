import DataLiteral.Proofs.Expr.Characters
import DataLiteral.Proofs.Expr.Reading

set_option autoImplicit false

namespace DataLiteral

def swapQuote (c : Char) : Char :=
  if c = '"' then '\'' else if c = '\'' then '"' else c

def Text.swapQuotes (text : Text) : Text :=
  text.map swapQuote

def Style.mirrored (style : Style) : Style :=
  { style with quote := style.quote.other }

namespace Expr

mutual

def swapped : Expr → Expr
  | .null => .null
  | .boolean value => .boolean value
  | .number value => .number value
  | .string value verbatim => .string (Text.swapQuotes value) verbatim
  | .array elements multiLine => .array (swappedElements elements) multiLine
  | .object properties multiLine => .object (swappedProperties properties) multiLine

def swappedElements : List Expr → List Expr
  | [] => []
  | element :: rest => element.swapped :: swappedElements rest

def swappedProperties : List (Text × Expr) → List (Text × Expr)
  | [] => []
  | (key, value) :: rest => (Text.swapQuotes key, value.swapped) :: swappedProperties rest

end

end Expr

theorem quote_cases (c : Char) : (∃ q : Quote, c = q.char) ∨ ∀ q : Quote, c ≠ q.char := by
  by_cases double : c = Quote.double.char
  next => exact .inl ⟨.double, double⟩
  next =>
    by_cases single : c = Quote.single.char
    next => exact .inl ⟨.single, single⟩
    next =>
      refine .inr fun q => ?_
      cases q <;> assumption

theorem swapQuote_char (q : Quote) : swapQuote q.char = q.other.char := by
  cases q <;> rfl

theorem swapQuote_of_ne {c : Char} (h : ∀ q : Quote, c ≠ q.char) : swapQuote c = c := by
  have double : c ≠ '"' := h .double
  have single : c ≠ '\'' := h .single
  simp only [swapQuote, double, single, if_false]

theorem class_swapQuote {p : Char → Bool} (same : p '"' = p '\'') (c : Char) :
    p (swapQuote c) = p c := by
  rcases quote_cases c with ⟨q, rfl⟩ | other
  next =>
    rw [swapQuote_char]
    cases q
    next => exact same.symm
    next => exact same
  next => simp only [swapQuote_of_ne other]

theorem swapQuote_eq_other {c : Char} {q : Quote} : swapQuote c = q.other.char ↔ c = q.char := by
  rcases quote_cases c with ⟨d, rfl⟩ | other
  next => cases d <;> cases q <;> decide
  next => simp only [swapQuote_of_ne other, other q, other q.other]

namespace Text

theorem swapQuotes_cons (c : Char) (rest : Text) :
    swapQuotes (c :: rest) = swapQuote c :: swapQuotes rest := rfl

theorem swapQuotes_append (first second : Text) :
    swapQuotes (first ++ second) = swapQuotes first ++ swapQuotes second :=
  List.map_append

theorem swapQuotes_of_notMem {text : Text} (h : ∀ c ∈ text, ∀ q : Quote, c ≠ q.char) :
    swapQuotes text = text := by
  induction text with
  | nil => rfl
  | cons c rest ih =>
    obtain ⟨first, others⟩ := List.forall_mem_cons.mp h
    simp only [swapQuotes_cons, swapQuote_of_ne first, ih others]

theorem all_swapQuotes {p : Char → Bool} (same : p '"' = p '\'') (text : Text) :
    (swapQuotes text).all p = text.all p := by
  simp only [swapQuotes, List.all_map, Function.comp_def, class_swapQuote same]

theorem any_swapQuotes {p : Char → Bool} (same : p '"' = p '\'') (text : Text) :
    (swapQuotes text).any p = text.any p := by
  simp only [swapQuotes, List.any_map, Function.comp_def, class_swapQuote same]

theorem contains_swapQuotes (q : Quote) (text : Text) :
    (swapQuotes text).contains q.other.char = text.contains q.char := by
  simp [swapQuotes, swapQuote_eq_other]

theorem startsWithDigit_swapQuotes (text : Text) :
    startsWithDigit (swapQuotes text) = startsWithDigit text := by
  cases text with
  | nil => rfl
  | cons c rest => exact class_swapQuote (p := Char.isDigit) rfl c

end Text

namespace Quote

variable (q : Quote)

-- A quote after a backslash is the escape of that quote, so no other escape has one.
theorem ne_char_of_escapeChar {c : Char} (other : ∀ d : Quote, c ≠ d.char) (rest : Text) :
    ∀ e ∈ q.escapeChar c rest, ∀ d : Quote, e ≠ d.char := by
  rcases isWritten_escapeChar q c rest with ⟨plain, _⟩ | ⟨letter, digits, escaped, _, hex, reads⟩
  next =>
    rw [plain]
    exact List.forall_mem_singleton.mpr other
  next =>
    have backslash : ∀ d : Quote, '\\' ≠ d.char := by
      intro d
      cases d <;> decide
    have letter : ∀ d : Quote, letter ≠ d.char := by
      rintro d rfl
      have quote : Script.readEscape (d.char :: (digits ++ [])) =
          some (Text.charUnits d.char, digits ++ []) := by cases d <;> rfl
      have same := quote.symm.trans (reads [] nofun)
      simp only [Option.some.injEq, Prod.mk.injEq] at same
      exact other d (Text.charUnits_append_inj (congrArg (· ++ []) same.1)).1.symm
    rw [escaped]
    exact List.forall_mem_cons.mpr ⟨backslash, List.forall_mem_cons.mpr
      ⟨letter, fun e member => (class_of_isHexDigit (hex e member)).2.2.2⟩⟩

theorem escapeChar_of_ne {c : Char} (other : ∀ d : Quote, c ≠ d.char) (rest : Text) :
    q.other.escapeChar c (Text.swapQuotes rest) = q.escapeChar c rest := by
  simp only [escapeChar, other q, other q.other, if_false, Text.startsWithDigit_swapQuotes]

theorem escapeChar_swapped (c : Char) (rest : Text) :
    q.other.escapeChar (swapQuote c) (Text.swapQuotes rest) =
      Text.swapQuotes (q.escapeChar c rest) := by
  rcases quote_cases c with ⟨d, rfl⟩ | other
  next => cases q <;> cases d <;> rfl
  next =>
    have free := Text.swapQuotes_of_notMem (ne_char_of_escapeChar q other rest)
    simp only [swapQuote_of_ne other, escapeChar_of_ne q other, free]

theorem escapeBody_swapped (text : Text) :
    q.other.escapeBody (Text.swapQuotes text) = Text.swapQuotes (q.escapeBody text) := by
  induction text with
  | nil => rfl
  | cons c rest ih =>
    simp only [Text.swapQuotes_cons, escapeBody, Text.swapQuotes_append, ih, escapeChar_swapped]

theorem escape_swapped (text : Text) :
    q.other.escape (Text.swapQuotes text) = Text.swapQuotes (q.escape text) := by
  simp only [escape, Text.swapQuotes_cons, Text.swapQuotes_append, escapeBody_swapped,
    swapQuote_char]
  rfl

theorem opensSubstitution_swapped (c : Char) (rest : Text) :
    opensSubstitution (swapQuote c) (Text.swapQuotes rest) = opensSubstitution c rest := by
  have dollar := class_swapQuote (p := (· == '$')) rfl c
  cases rest with
  | nil => simp [opensSubstitution, Text.swapQuotes]
  | cons d rest =>
    have brace := class_swapQuote (p := (· == '\x7b')) rfl d
    simp only [opensSubstitution, dollar]
    exact congrArg (c == '$' && ·) brace

theorem templateBody_swapped (escaped : Bool) (text : Text) :
    templateBody escaped (Text.swapQuotes text) = Text.swapQuotes (templateBody escaped text) := by
  induction text generalizing escaped with
  | nil => rfl
  | cons c rest ih =>
    have backslash := class_swapQuote (p := (· == '\\')) rfl c
    have tick := class_swapQuote (p := (· == backtick)) rfl c
    simp only [Text.swapQuotes_cons, templateBody, opensSubstitution_swapped, backslash, tick, ih]
    split <;> rfl

theorem template_swapped (text : Text) :
    template (Text.swapQuotes text) = Text.swapQuotes (template text) := by
  simp only [template, templateBody_swapped, Text.swapQuotes_cons, Text.swapQuotes_append]
  rfl

theorem verbatim_swapped (text : Text) :
    q.other.verbatim (Text.swapQuotes text) = Text.swapQuotes (q.verbatim text) := by
  have breaks := Text.any_swapQuotes (p := Text.isBreak) rfl text
  have preferred := Text.contains_swapQuotes q text
  have other := Text.contains_swapQuotes q.other text
  simp only [verbatim, breaks, preferred, other, template_swapped]
  split
  next => rfl
  next =>
    simp only [Text.swapQuotes_cons, Text.swapQuotes_append]
    split <;> simp only [swapQuote_char] <;> rfl

end Quote

theorem isIdentifier_swapped (key : Text) :
    isIdentifier (Text.swapQuotes key) = isIdentifier key := by
  cases key with
  | nil => rfl
  | cons c rest =>
    have first := class_swapQuote (p := isWordStart) rfl c
    have others := Text.all_swapQuotes (p := fun d => isWordStart d || d.isDigit) rfl rest
    simp only [Text.swapQuotes_cons, isIdentifier, first, others]

namespace Number

theorem literal_swapped (n : Number) : Text.swapQuotes n.literal = n.literal := by
  apply Text.swapQuotes_of_notMem
  rintro _ member q rfl
  have numeric := isNumeric_literal n _ member
  cases q <;> cases numeric

end Number

namespace Expr

theorem stringText_swapped (q : Quote) (value : Text) (verbatim : Bool) :
    stringText q.other (Text.swapQuotes value) verbatim =
      Text.swapQuotes (stringText q value verbatim) := by
  cases verbatim with
  | false => exact q.escape_swapped value
  | true => exact q.verbatim_swapped value

theorem keyText_swapped (q : Quote) (key : Text) :
    keyText q.other (Text.swapQuotes key) = Text.swapQuotes (keyText q key) := by
  simp only [keyText, isIdentifier_swapped]
  split
  next => rfl
  next => exact q.escape_swapped key

theorem enclose_swapped {b : Brackets} (indent : Indent) (level : Nat) (multiLine : Bool)
    (children : List Text)
    (kept : ∀ c ∈ b.opening ++ b.closing ++ b.padding ++ [',', ' '], swapQuote c = c) :
    b.enclose indent level multiLine (children.map Text.swapQuotes) =
      Text.swapQuotes (b.enclose indent level multiLine children) := by
  have view : Text.swapQuotes = (·.flatMap fun c => [swapQuote c]) :=
    funext fun _ => List.map_eq_flatMap
  have margins (n : Nat) : ('\n' :: indent.margin n).flatMap (fun c => [swapQuote c]) =
      '\n' :: indent.margin (0 + n) := by
    have free : Text.swapQuotes ('\n' :: indent.margin n) = '\n' :: indent.margin n := by
      apply Text.swapQuotes_of_notMem
      intro c member q
      rcases isSpace_newline indent n c member with rfl | rfl | rfl <;> cases q <;> decide
    simpa only [view, Nat.zero_add] using free
  have whole := flatMap_enclose (b := b) level multiLine children
    (fun c member => congrArg (fun d => [d]) (kept c member)) margins
  simpa only [view, Nat.zero_add] using whole.symm

section

variable (indent : Indent) (q : Quote)

mutual

theorem textAt_swapped (level : Nat) : ∀ e : Expr,
    e.swapped.textAt indent q.other level = Text.swapQuotes (e.textAt indent q level)
  | .null | .boolean true | .boolean false => rfl
  | .number n => (Number.literal_swapped n).symm
  | .string value verbatim => stringText_swapped q value verbatim
  | .array elements multiLine => by
    simp only [swapped, textAt, elementTexts_swapped]
    exact enclose_swapped indent level multiLine _ (by simp [arrayBrackets, swapQuote])
  | .object properties multiLine => by
    simp only [swapped, textAt, propertyTexts_swapped]
    exact enclose_swapped indent level multiLine _ (by simp [objectBrackets, swapQuote])

theorem elementTexts_swapped (level : Nat) : ∀ elements : List Expr,
    elementTexts indent q.other level (swappedElements elements) =
      (elementTexts indent q level elements).map Text.swapQuotes
  | [] => rfl
  | element :: rest => by
    simp only [swappedElements, elementTexts, List.map_cons, textAt_swapped,
      elementTexts_swapped level rest]

theorem propertyTexts_swapped (level : Nat) : ∀ properties : List (Text × Expr),
    propertyTexts indent q.other level (swappedProperties properties) =
      (propertyTexts indent q level properties).map Text.swapQuotes
  | [] => rfl
  | (key, value) :: rest => by
    simp only [swappedProperties, propertyTexts, List.map_cons, keyText_swapped, textAt_swapped,
      propertyTexts_swapped level rest, Text.swapQuotes_append, Text.swapQuotes_cons]
    rfl

end

end

/-- The two styles of quotes are mirror images of each other: with the quotes exchanged in an
expression, the other style prints what this style prints, with the quotes exchanged. -/
theorem print_swapped (style : Style) (e : Expr) :
    e.swapped.print style.mirrored = Text.swapQuotes (e.print style) :=
  textAt_swapped style.indent style.quote 0 e

end Expr

end DataLiteral

import DataLiteral.Proofs.Expr.Reading
import DataLiteral.Proofs.Quote.Verbatim
import DataLiteral.Proofs.Script.Escaped
import DataLiteral.Proofs.Script.Evaluation

set_option autoImplicit false

namespace DataLiteral.Quote

open Script

def closing (value : Option Units) : Reading Units :=
  value.map fun units => (units, [])

theorem prepend_closing (value : Units) (later : Option Units) :
    prepend value (closing later) = closing (later.map (value ++ ·)) := by
  cases later <;> rfl

theorem class_of_continuesEscape {c : Char} (h : continuesEscape c) :
    c ≠ '\\' ∧ c ≠ '$' ∧ c ≠ backtick ∧ ∀ q : Quote, c ≠ q.char := by
  refine ⟨?_, ?_, ?_, fun q => ?_⟩
  · rintro rfl
    cases h
  · rintro rfl
    cases h
  · rintro rfl
    cases h
  · rintro rfl
    cases q <;> cases h

theorem isFrame_quoted (q : Quote) : IsFrame fun text => text ++ [q.char] where
  keeps _ _ _ := rfl
  adds text c rest shape continues := by
    cases text with
    | nil =>
      cases shape
      exact absurd rfl ((class_of_continuesEscape continues).2.2.2 q)
    | cons d text =>
      cases shape
      rfl

theorem isFrame_template : IsFrame fun text => templateBody false text ++ [backtick] where
  keeps c rest continues := by
    obtain ⟨notBackslash, notDollar, notBacktick, _⟩ := class_of_continuesEscape continues
    rcases templateBody_cons false c rest with ⟨shape, _⟩ | ⟨shape, _⟩
    · rw [shape, beq_eq_false_iff_ne.mpr notBackslash, Bool.false_and, List.cons_append]
    · simp [templateBody, opensSubstitution, notBackslash, notDollar, notBacktick] at shape
  adds text c rest shape continues := by
    obtain ⟨notBackslash, _, notBacktick, _⟩ := class_of_continuesEscape continues
    cases text with
    | nil =>
      cases shape
      exact absurd rfl notBacktick
    | cons d text =>
      rcases templateBody_cons false d text with ⟨plain, _⟩ | ⟨inserted, _, _⟩
      · rw [plain] at shape
        cases shape
        rfl
      · rw [inserted] at shape
        cases shape
        exact absurd rfl notBackslash

theorem read_escape_frame {frame : Text → Text} (h : IsFrame frame) {read : Text → Reading Units}
    (escapes : ∀ text, read ('\\' :: text) =
      (readEscape text).bind fun (value, after) => prepend value (read after))
    (c : Char) (rest : Text)
    (later : ∀ after, Passes rest after → read (frame after) = closing (escapedValue? after)) :
    read ('\\' :: c :: frame rest) = closing (escapedValue? ('\\' :: c :: rest)) := by
  rw [escapes, h.readEscape_frame, escapedValue?_escape]
  cases found : readEscape (c :: rest) with
  | none => rfl
  | some reading =>
    obtain ⟨value, after⟩ := reading
    simp only [Option.map_some, Option.bind_some]
    rw [later after (passes_readEscape found), prepend_closing]

theorem read_escape_last {read : Text → Reading Units}
    (escapes : ∀ text, read ('\\' :: text) =
      (readEscape text).bind fun (value, after) => prepend value (read after))
    (empty : read [] = none) (c : Char) : read ['\\', c] = closing (escapedValue? ['\\']) := by
  rw [escapes, escapedValue?_escape]
  cases found : readEscape [c] with
  | none => rfl
  | some reading =>
    obtain ⟨value, after⟩ := reading
    have shorter := (passes_readEscape found).length_le
    obtain rfl : after = [] := List.length_eq_zero_iff.mp (Nat.le_zero.mp shorter)
    simp only [Option.bind_some, empty]
    rfl

theorem readStringBody_quoted {q : Quote} (text : Text)
    (inside : ∀ c ∈ text, c ≠ q.char ∧ Text.isBreak c = false) :
    readStringBody q.char (text ++ [q.char]) = closing (escapedValue? text) := by
  induction text using escaped_induction with
  | nil => simp [readStringBody, escapedValue?, closing]
  | last => exact read_escape_last (readStringBody_escape q) (by rw [readStringBody]) q.char
  | escape c rest ih =>
    refine read_escape_frame (isFrame_quoted q) (readStringBody_escape q) c rest ?_
    intro after passes
    apply ih after passes
    intro d member
    exact inside d (List.mem_cons_of_mem _ (List.mem_cons_of_mem c (passes.mem member)))
  | plain c rest notBackslash ih =>
    obtain ⟨⟨notQuote, notBreak⟩, others⟩ := List.forall_mem_cons.mp inside
    have notReturn : c ≠ '\r' := by
      rintro rfl
      cases notBreak
    rw [List.cons_append, readStringBody, if_neg notQuote, if_neg notBackslash, notBreak,
      if_neg Bool.false_ne_true, ih rest (.refl rest) others, prepend_closing, escapedValue?,
      if_neg notBackslash, if_neg notReturn]

theorem readTemplateBody_escape (text : Text) :
    readTemplateBody ('\\' :: text) =
      (readEscape text).bind fun (value, after) => prepend value (readTemplateBody after) := by
  have notBacktick : '\\' ≠ backtick := by decide
  rw [readTemplateBody]
  simp only [notBacktick, if_false, if_true]
  split <;> next found => simp [found]

theorem readTemplateBody_inserted {c : Char} {text : Text} (tail : Text)
    (special : c = backtick ∨ opensSubstitution c text) :
    readTemplateBody ('\\' :: c :: tail) = prepend (Text.charUnits c) (readTemplateBody tail) := by
  rw [readTemplateBody_escape]
  rcases special with rfl | opens
  · rfl
  · simp only [opensSubstitution, Bool.and_eq_true, beq_iff_eq] at opens
    rw [opens.1]
    rfl

theorem readTemplateBody_template (text : Text) :
    readTemplateBody (templateBody false text ++ [backtick]) = closing (escapedValue? text) := by
  induction text using escaped_induction with
  | nil => simp [templateBody, readTemplateBody, escapedValue?, closing]
  | last => exact read_escape_last readTemplateBody_escape (by rw [readTemplateBody]) backtick
  | escape c rest ih =>
    rw [templateBody_escape]
    exact read_escape_frame isFrame_template readTemplateBody_escape c rest ih
  | plain c rest notBackslash ih =>
    have flag : (c == '\\' && !false) = false := by simp [notBackslash]
    have next' := ih rest (.refl rest)
    rw [templateBody, flag, escapedValue?, if_neg notBackslash]
    split
    · next guarded =>
      have special : c = backtick ∨ opensSubstitution c rest := by simpa using guarded
      have notReturn : c ≠ '\r' := by
        rintro rfl
        cases special <;> contradiction
      rw [List.cons_append, List.cons_append, readTemplateBody_inserted _ special, next',
        prepend_closing, if_neg notReturn]
    · next free =>
      simp only [Bool.not_false, Bool.true_and, Bool.or_eq_true, beq_iff_eq, not_or,
        Bool.not_eq_true] at free
      have closed : opensSubstitution c (templateBody false rest ++ [backtick]) = false := by
        rw [← Bool.not_eq_true]
        intro opens
        rw [opensSubstitution_templateBody opens] at free
        cases free.2
      rw [List.cons_append, readTemplateBody, if_neg free.1, if_neg notBackslash, closed,
        if_neg Bool.false_ne_true]
      split
      · rw [isFrame_template.skipLineFeed_frame, ih _ (passes_skipLineFeed rest), prepend_closing]
        rfl
      · rw [next', prepend_closing]

theorem isPaired_of_isWellEscaped {text : Text} (h : isWellEscaped text) : IsPaired text := by
  induction text using isWellEscaped.induct with
  | case1 => rfl
  | case2 => cases h
  | case3 c rest ih =>
    rw [isWellEscaped, Bool.and_eq_true] at h
    have later := ih h.2
    simpa [IsPaired, endsEscaped] using later
  | case4 c rest notLast notEscape ih =>
    have notBackslash : c ≠ '\\' := by
      rintro rfl
      cases rest with
      | nil => exact notLast rfl rfl
      | cons d after => exact notEscape d after rfl rfl
    rw [isWellEscaped_plain notBackslash] at h
    have later := ih h
    rwa [IsPaired, endsEscaped, beq_eq_false_iff_ne.mpr notBackslash, Bool.false_and]

theorem stringValue?_quoted {q : Quote} {text : Text}
    (inside : ∀ c ∈ text, c ≠ q.char ∧ Text.isBreak c = false) :
    stringValue? (q.char :: (text ++ [q.char])) = escapedValue? text := by
  have found : [Quote.double, Quote.single].find? (some q.char == some ·.char) = some q := by
    cases q <;> rfl
  simp only [stringValue?, List.head?_cons, found, readString, if_true,
    readStringBody_quoted text inside]
  cases escapedValue? text <;> rfl

theorem templateValue?_template (text : Text) :
    templateValue? (template text) = escapedValue? text := by
  simp only [templateValue?, template, readTemplate, if_true, readTemplateBody_template]
  cases escapedValue? text <;> rfl

theorem value?_verbatim (q : Quote) (text : Text) :
    value? (stringTree (q.verbatim text)) = (escapedValue? text).map .string := by
  rcases verbatim_cases q text with ⟨d, shape, inside⟩ | shape
  · have quoted : stringTree (d.char :: (text ++ [d.char])) =
        .string (d.char :: (text ++ [d.char])) (stringValue? (d.char :: (text ++ [d.char]))) := by
      cases d <;> rfl
    rw [shape, quoted, value?, stringValue?_quoted inside]
  · have inTemplate : stringTree (template text) = .template (template text) := rfl
    rw [shape, inTemplate, value?, templateValue?_template]

theorem read_verbatim_unpaired {q : Quote} {text : Text} (unpaired : ¬IsPaired text) :
    Script.read (q.verbatim text) = none := by
  have unread := readToken_unpaired unpaired (List.prefix_refl (q.verbatim text))
  have unlexed : tokens (q.verbatim text) = none := by
    rcases verbatim_cases q text with ⟨d, shape, _⟩ | shape
    · rw [shape] at unread ⊢
      exact tokens_eq_none (by cases d <;> decide) unread
    · rw [shape] at unread ⊢
      exact tokens_eq_none (by decide) unread
  simp only [Script.read, unlexed]

/-- A verbatim literal has the value of its text, with either quote and in whatever form it is
written. It has one if and only if each backslash of the text starts an escape. -/
theorem evaluate_verbatim (q : Quote) (text : Text) :
    evaluate (q.verbatim text) = (escapedValue? text).map .string ∧
      ((escapedValue? text).isSome ↔ isWellEscaped text) := by
  have known := isSome_escapedValue? text
  refine ⟨?_, by rw [known]⟩
  by_cases paired : IsPaired text
  · have isPaired : (Expr.string text true).isPaired := by
      simpa [Expr.isPaired, IsPaired] using paired
    have found : Script.read ((Expr.string text true).textAt .tab q 0) =
        some (stringTree (q.verbatim text)) := Expr.read_textAt isPaired
    change Script.read (q.verbatim text) = _ at found
    rw [evaluate, found, Option.bind_some, value?_verbatim]
  · have none' : escapedValue? text = none := by
      rw [← Option.not_isSome_iff_eq_none, known]
      exact fun wellEscaped => paired (isPaired_of_isWellEscaped wellEscaped)
    rw [evaluate, read_verbatim_unpaired paired, none']
    rfl

end DataLiteral.Quote

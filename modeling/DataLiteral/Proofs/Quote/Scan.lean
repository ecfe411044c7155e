import DataLiteral.Proofs.Quote.Escape
import DataLiteral.Proofs.Script.Token

set_option autoImplicit false

namespace DataLiteral.Quote

open Script

-- Whether a backslash without a partner stands at the end, when `escaped` tells whether one stands
-- in front.
def endsEscaped (escaped : Bool) : Text → Bool
  | [] => escaped
  | c :: rest => endsEscaped (c == '\\' && !escaped) rest

def IsPaired (text : Text) : Prop :=
  endsEscaped false text = false

instance (text : Text) : Decidable (IsPaired text) :=
  inferInstanceAs (Decidable (endsEscaped false text = false))

def prependSource (part : Text) (reading : Reading Text) : Reading Text :=
  reading.map fun (source, rest) => (part ++ source, rest)

section

variable {q : Quote}

theorem scanString_plain {c : Char} {rest : Text} (notQuote : c ≠ q.char)
    (notBackslash : c ≠ '\\') (notBreak : Text.isBreak c = false) :
    scanString q.char (c :: rest) = prependSource [c] (scanString q.char rest) := by
  rw [scanString, scan]
  simp only [beq_eq_false_iff_ne.mpr notQuote, beq_eq_false_iff_ne.mpr notBackslash, notBreak,
    Bool.and_false, Bool.false_and, Bool.false_eq_true, if_false]
  rfl

theorem scanString_plains {part rest : Text}
    (plain : ∀ c ∈ part, c ≠ q.char ∧ c ≠ '\\' ∧ Text.isBreak c = false) :
    scanString q.char (part ++ rest) = prependSource part (scanString q.char rest) := by
  induction part with
  | nil => cases h : scanString q.char rest <;> simp [prependSource, h]
  | cons c part ih =>
    obtain ⟨⟨notQuote, notBackslash, notBreak⟩, others⟩ := List.forall_mem_cons.mp plain
    rw [List.cons_append, scanString_plain notQuote notBackslash notBreak, ih others]
    simp [prependSource, Function.comp_def]

theorem scanString_escape {c : Char} {rest : Text} :
    scanString q.char ('\\' :: c :: rest) = prependSource ['\\', c] (scanString q.char rest) := by
  have notQuote : ('\\' == q.char) = false := by cases q <;> decide
  have taken : scan q.char (fun c _ => Text.isBreak c) true (c :: rest) =
      (scanString q.char rest).map fun (source, after) => (c :: source, after) := by
    rw [scan]
    simp [scanString]
  rw [scanString, scan]
  simp only [notQuote, show Text.isBreak '\\' = false by decide, beq_self_eq_true, Bool.not_false,
    Bool.true_and, Bool.false_eq_true, if_false, taken, Option.map_map]
  rfl

theorem scanString_escapeBody (text rest : Text) :
    scanString q.char (q.escapeBody text ++ q.char :: rest) =
      some (q.escapeBody text ++ [q.char], rest) := by
  induction text with
  | nil => simp [escapeBody, scanString, scan]
  | cons c after ih =>
    have head : ∀ tail, scanString q.char (q.escapeChar c after ++ tail) =
        prependSource (q.escapeChar c after) (scanString q.char tail) := by
      intro tail
      rcases isWritten_escapeChar q c after with ⟨plain, notQuote, notBackslash, notBreak, _⟩ |
          ⟨letter, digits, escaped, _, hex, _⟩
      · rw [plain]
        exact scanString_plain notQuote notBackslash notBreak
      · rw [escaped, List.cons_append, List.cons_append, scanString_escape, scanString_plains]
        · simp [prependSource, Function.comp_def]
        · intro d hd
          obtain ⟨_, notBreak, notBackslash, notQuote⟩ := class_of_isHexDigit (hex d hd)
          exact ⟨notQuote q, notBackslash, notBreak⟩
    rw [escapeBody, List.append_assoc, head, ih]
    simp [prependSource]

theorem scan_quoted {text : Text} {escaped : Bool} (rest : Text)
    (inside : ∀ c ∈ text, c ≠ q.char ∧ Text.isBreak c = false)
    (paired : endsEscaped escaped text = false) :
    scan q.char (fun c _ => Text.isBreak c) escaped (text ++ q.char :: rest) =
      some (text ++ [q.char], rest) := by
  induction text generalizing escaped with
  | nil =>
    have open' : escaped = false := paired
    simp [scan, open']
  | cons c text ih =>
    obtain ⟨⟨notQuote, notBreak⟩, others⟩ := List.forall_mem_cons.mp inside
    rw [List.cons_append, scan, ih others paired]
    simp [notQuote, notBreak]

end

theorem templateBody_cons (escaped : Bool) (c : Char) (rest : Text) :
    (templateBody escaped (c :: rest) = c :: templateBody (c == '\\' && !escaped) rest ∧
        (escaped ∨ c ≠ backtick ∧ opensSubstitution c rest = false)) ∨
      templateBody escaped (c :: rest) = '\\' :: c :: templateBody false rest ∧
        escaped = false ∧ c ≠ '\\' := by
  rw [templateBody]
  split
  · next guarded =>
    simp only [Bool.and_eq_true, Bool.not_eq_true'] at guarded
    obtain ⟨plain, special⟩ := guarded
    have notBackslash : c ≠ '\\' := by
      rintro rfl
      cases special
    refine .inr ⟨?_, plain, notBackslash⟩
    rw [beq_eq_false_iff_ne.mpr notBackslash, Bool.false_and]
  · next free =>
    refine .inl ⟨rfl, ?_⟩
    cases escaped with
    | true => exact .inl rfl
    | false => simpa using free

theorem templateBody_escape (c : Char) (rest : Text) :
    templateBody false ('\\' :: c :: rest) = '\\' :: c :: templateBody false rest := by
  simp [templateBody, backtick, opensSubstitution]

theorem opensSubstitution_templateBody {c : Char} {text rest : Text} {escaped : Bool}
    (h : opensSubstitution c (templateBody escaped text ++ backtick :: rest)) :
    opensSubstitution c text := by
  cases text with
  | nil => simp [templateBody, opensSubstitution, backtick] at h
  | cons d text =>
    rcases templateBody_cons escaped d text with ⟨shape, _⟩ | ⟨shape, _⟩
    · simpa [shape, opensSubstitution] using h
    · simp [shape, opensSubstitution] at h

-- The writer's flag is the reader's: both tell whether an unpaired backslash stands just before.
theorem scan_templateBody {text : Text} {escaped : Bool} (rest : Text)
    (paired : endsEscaped escaped text = false) :
    scan backtick opensSubstitution escaped (templateBody escaped text ++ backtick :: rest) =
      some (templateBody escaped text ++ [backtick], rest) := by
  induction text generalizing escaped with
  | nil =>
    have open' : escaped = false := paired
    simp [templateBody, scan, open']
  | cons c text ih =>
    have later := ih paired
    rcases templateBody_cons escaped c text with ⟨shape, free⟩ | ⟨shape, rfl, notBackslash⟩
    · rw [shape, List.cons_append, scan, later]
      rcases free with rfl | ⟨notBacktick, noOpener⟩
      · simp
      · have closed : opensSubstitution c
            (templateBody (c == '\\' && !escaped) text ++ backtick :: rest) = false := by
          rw [← Bool.not_eq_true]
          intro opens
          rw [opensSubstitution_templateBody opens] at noOpener
          cases noOpener
        simp [notBacktick, closed]
    · have passed : ('\\' == backtick) = false := by decide
      rw [beq_eq_false_iff_ne.mpr notBackslash, Bool.false_and] at later
      rw [shape, List.cons_append, List.cons_append, scan, scan]
      simp [later, beq_eq_false_iff_ne.mpr notBackslash, passed, opensSubstitution]

theorem verbatim_cases (q : Quote) (text : Text) :
    (∃ d : Quote, q.verbatim text = d.char :: (text ++ [d.char]) ∧
        ∀ c ∈ text, c ≠ d.char ∧ Text.isBreak c = false) ∨
      q.verbatim text = template text := by
  have inside (d : Quote) (free : text.contains d.char = false)
      (noBreak : text.any Text.isBreak = false) : ∀ c ∈ text, c ≠ d.char ∧ Text.isBreak c = false := by
    refine fun c member => ⟨?_, by simpa using List.any_eq_false.mp noBreak c member⟩
    rintro rfl
    simp [member] at free
  simp only [verbatim]
  split
  · exact .inr rfl
  · next simple =>
    simp only [Bool.or_eq_true, Bool.and_eq_true, not_or, not_and, Bool.not_eq_true] at simple
    obtain ⟨noBreak, notBoth⟩ := simple
    cases preferred : text.contains q.char with
    | true => exact .inl ⟨q.other, rfl, inside q.other (notBoth preferred) noBreak⟩
    | false => exact .inl ⟨q, rfl, inside q preferred noBreak⟩

theorem scan_verbatim {q : Quote} {text : Text} (paired : IsPaired text) :
    (∃ d : Quote, ∃ body, q.verbatim text = d.char :: body ∧
        ∀ rest, scanString d.char (body ++ rest) = some (body, rest)) ∨
      ∃ body, q.verbatim text = backtick :: body ∧
        ∀ rest, scanTemplate (body ++ rest) = some (body, rest) := by
  rcases verbatim_cases q text with ⟨d, shape, inside⟩ | shape
  · refine .inl ⟨d, _, shape, fun rest => ?_⟩
    rw [List.append_assoc]
    exact scan_quoted rest inside paired
  · refine .inr ⟨_, shape, fun rest => ?_⟩
    rw [List.append_assoc]
    exact scan_templateBody rest paired

def isGuarded (delimiter : Char) (escaped : Bool) : Text → Bool
  | [] => true
  | c :: rest => (escaped || c != delimiter) && isGuarded delimiter (c == '\\' && !escaped) rest

theorem isGuarded_of_notMem {delimiter : Char} {text : Text} (absent : delimiter ∉ text)
    (escaped : Bool) : isGuarded delimiter escaped text := by
  induction text generalizing escaped with
  | nil => rfl
  | cons c rest ih =>
    rw [List.mem_cons, not_or] at absent
    have other : (c != delimiter) = true := bne_iff_ne.mpr fun same => absent.1 same.symm
    rw [isGuarded, other, Bool.or_true, Bool.true_and]
    exact ih absent.2 _

theorem isGuarded_templateBody (escaped : Bool) (text : Text) :
    isGuarded backtick escaped (templateBody escaped text) := by
  induction text generalizing escaped with
  | nil => rfl
  | cons c rest ih =>
    rcases templateBody_cons escaped c rest with ⟨shape, free⟩ | ⟨shape, rfl, notBackslash⟩
    · rw [shape, isGuarded, ih, Bool.and_true]
      rcases free with rfl | ⟨other, _⟩
      · rfl
      · rw [bne_iff_ne.mpr other, Bool.or_true]
    · have passed : ('\\' != backtick) = true := by decide
      simp [shape, isGuarded, passed, ih]

theorem endsEscaped_templateBody (escaped : Bool) (text : Text) :
    endsEscaped escaped (templateBody escaped text) = endsEscaped escaped text := by
  induction text generalizing escaped with
  | nil => rfl
  | cons c rest ih =>
    rcases templateBody_cons escaped c rest with ⟨shape, _⟩ | ⟨shape, rfl, notBackslash⟩
    · rw [shape, endsEscaped, ih, endsEscaped]
    · simp [shape, endsEscaped, ih, beq_eq_false_iff_ne.mpr notBackslash]

theorem scan_unpaired {delimiter : Char} {breaks : Char → Text → Bool} {text part : Text}
    {escaped : Bool} (guarded : isGuarded delimiter escaped text)
    (unpaired : endsEscaped escaped text) (h : part <+: text ++ [delimiter]) :
    scan delimiter breaks escaped part = none := by
  induction text generalizing escaped part with
  | nil =>
    obtain rfl : escaped = true := unpaired
    cases part with
    | nil => rfl
    | cons c part =>
      obtain rfl : part = [] := by
        have size := h.length_le
        simpa using size
      simp [scan]
  | cons c rest ih =>
    cases part with
    | nil => rfl
    | cons d part =>
      obtain ⟨rfl, inside⟩ := List.cons_prefix_cons.mp h
      rw [isGuarded, Bool.and_eq_true] at guarded
      have free : (!escaped && d == delimiter) = false := by
        cases escaped with
        | true => rfl
        | false => simpa using guarded.1
      rw [scan, free, if_neg Bool.false_ne_true, ih guarded.2 unpaired inside, Option.map_none,
        ite_self]

theorem scan_verbatim_unpaired {q : Quote} {text : Text} (unpaired : ¬IsPaired text) :
    (∃ d : Quote, ∃ body, q.verbatim text = d.char :: body ∧
        ∀ part, part <+: body → scanString d.char part = none) ∨
      ∃ body, q.verbatim text = backtick :: body ∧
        ∀ part, part <+: body → scanTemplate part = none := by
  have ends : endsEscaped false text := Bool.not_eq_false _ ▸ unpaired
  rcases verbatim_cases q text with ⟨d, shape, inside⟩ | shape
  · refine .inl ⟨d, _, shape, fun part h => ?_⟩
    exact scan_unpaired (isGuarded_of_notMem (fun member => (inside _ member).1 rfl) false) ends h
  · refine .inr ⟨_, shape, fun part h => ?_⟩
    exact scan_unpaired (isGuarded_templateBody false text)
      ((endsEscaped_templateBody false text).trans ends) h

end DataLiteral.Quote

import Mathlib.Algebra.Group.Nat.Even
import Mathlib.Data.List.DropRight
import DataLiteral.Proofs.Quote.Scan

set_option autoImplicit false

namespace DataLiteral.Quote

def backslashesAtEnd (text : Text) : Nat :=
  (text.rtakeWhile (· == '\\')).length

/-- The positions of a text at which a backtick or a substitution opener stands, and no backslash
that is its own: those before it pair off. -/
def IsBare (text : Text) (i : Nat) : Prop :=
  (text[i]? = some backtick ∨ text[i]? = some '$' ∧ text[i + 1]? = some '\x7b') ∧
    Even (backslashesAtEnd (text.take i))

instance (text : Text) (i : Nat) : Decidable (IsBare text i) :=
  inferInstanceAs (Decidable (_ ∧ _))

def guarded (text : Text) : Text :=
  text.zipIdx.flatMap fun (c, i) => if IsBare text i then ['\\', c] else [c]

theorem backslashesAtEnd_concat (text : Text) (c : Char) :
    backslashesAtEnd (text ++ [c]) = if c = '\\' then backslashesAtEnd text + 1 else 0 := by
  by_cases backslash : c = '\\' <;>
    simp [backslashesAtEnd, backslash]

theorem endsEscaped_concat (escaped : Bool) (text : Text) (c : Char) :
    endsEscaped escaped (text ++ [c]) = (c == '\\' && !endsEscaped escaped text) := by
  induction text generalizing escaped with
  | nil => rfl
  | cons d rest ih => exact ih (d == '\\' && !escaped)

theorem endsEscaped_eq_false_iff (text : Text) :
    endsEscaped false text = false ↔ Even (backslashesAtEnd text) := by
  induction text using List.reverseRecOn with
  | nil => decide
  | append_singleton before c ih =>
    rw [endsEscaped_concat, backslashesAtEnd_concat]
    by_cases backslash : c = '\\'
    next => simp [backslash, Nat.even_add_one, ← ih]
    next => simp [backslash]

theorem isBare_iff (before : Text) (c : Char) (rest : Text) :
    IsBare (before ++ c :: rest) before.length ↔
      endsEscaped false before = false ∧ (c = backtick ∨ opensSubstitution c rest) := by
  have follows : (before ++ c :: rest)[before.length + 1]? = rest.head? := by
    simp [List.getElem?_append_right, List.head?_eq_getElem?]
  simp [IsBare, follows, endsEscaped_eq_false_iff, opensSubstitution, and_comm]

theorem templateBody_eq (before text : Text) :
    templateBody (endsEscaped false before) text =
      (text.zipIdx before.length).flatMap fun (c, i) =>
        if IsBare (before ++ text) i then ['\\', c] else [c] := by
  induction text generalizing before with
  | nil => rfl
  | cons c rest ih =>
    have later := ih (before ++ [c])
    simp only [endsEscaped_concat, List.append_assoc, List.singleton_append, List.length_append,
      List.length_singleton] at later
    rw [templateBody, later, List.zipIdx_cons, List.flatMap_cons]
    simp only [isBare_iff, Bool.and_eq_true, Bool.or_eq_true, Bool.not_eq_true', beq_iff_eq]
    split <;> rfl

theorem guarded_eq (text : Text) : guarded text = templateBody false text :=
  (templateBody_eq [] text).symm

theorem opensSubstitution_append {c : Char} {text : Text} (opens : opensSubstitution c text)
    (rest : Text) : opensSubstitution c (text ++ rest) := by
  cases text with
  | nil => simp [opensSubstitution] at opens
  | cons d text => exact opens

-- A second pass comes to each character of the text with the flag of the first one; a backslash
-- that was put in makes one escape with its character.
theorem templateBody_templateBody (escaped : Bool) (text : Text) :
    templateBody escaped (templateBody escaped text) = templateBody escaped text := by
  induction text generalizing escaped with
  | nil => rfl
  | cons c rest ih =>
    rcases templateBody_cons escaped c rest with ⟨shape, free⟩ | ⟨shape, rfl, notBackslash⟩
    next =>
      have closed : (!escaped && (c == backtick ||
          opensSubstitution c (templateBody (c == '\\' && !escaped) rest))) = false := by
        rcases free with rfl | ⟨notBacktick, noOpener⟩
        next => rfl
        next =>
          have still : opensSubstitution c (templateBody (c == '\\' && !escaped) rest) = false := by
            rw [← Bool.not_eq_true] at noOpener ⊢
            exact fun opens =>
              noOpener (opensSubstitution_templateBody (opensSubstitution_append opens [backtick]))
          simp [notBacktick, still]
      rw [shape, templateBody, closed, if_neg Bool.false_ne_true, ih]
    next => rw [shape, templateBody_escape, ih]

theorem length_guarded (text : Text) :
    (guarded text).length = text.length + text.zipIdx.countP fun (_, i) => IsBare text i := by
  have marks (places : List (Char × Nat)) :
      (places.flatMap fun (c, i) => if IsBare text i then ['\\', c] else [c]).length =
        places.length + places.countP fun (_, i) => IsBare text i := by
    induction places with
    | nil => rfl
    | cons place rest ih =>
      rw [List.flatMap_cons, List.length_append, ih, List.countP_cons, List.length_cons]
      by_cases bare : IsBare text place.2 <;> simp [bare] <;> omega
  rw [guarded, marks, List.length_zipIdx]

theorem not_isBare_of_guarded_eq {text : Text} (h : guarded text = text) (i : Nat) :
    ¬IsBare text i := by
  intro bare
  have none' : (text.zipIdx.countP fun (_, i) => IsBare text i) = 0 := by
    have size := length_guarded text
    rw [h] at size
    omega
  obtain ⟨c, here⟩ : ∃ c, text[i]? = some c := by
    rcases bare.1 with here | ⟨here, _⟩ <;> exact ⟨_, here⟩
  have place : (c, i) ∈ text.zipIdx := List.mem_zipIdx_iff_getElem?.mpr here
  exact List.countP_eq_zero.mp none' _ place (decide_eq_true bare)

/-- The text of a template is the text itself with one backslash more for each bare position of it,
just before the character there, and nothing else is changed. No position of it is bare, so that it
is its own template text. -/
theorem template_guarded (text : Text) :
    template text = backtick :: (guarded text ++ [backtick]) ∧
      (∀ i, ¬IsBare (guarded text) i) ∧
      guarded (guarded text) = guarded text ∧
      template (guarded text) = template text := by
  have again : guarded (guarded text) = guarded text := by
    rw [guarded_eq (guarded text), guarded_eq text, templateBody_templateBody]
  have shape (text : Text) : template text = backtick :: (guarded text ++ [backtick]) := by
    rw [template, guarded_eq]
  refine ⟨shape text, not_isBare_of_guarded_eq again, again, ?_⟩
  rw [shape, shape, again]

example : guarded "\\\x60 \\\\\x60 $$\x7b".toList = "\\\x60 \\\\\\\x60 $\\$\x7b".toList := by
  decide

end DataLiteral.Quote

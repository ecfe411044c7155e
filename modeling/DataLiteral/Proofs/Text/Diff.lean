import DataLiteral.Proofs.Decimal.Notation
import DataLiteral.Text.Diff

set_option autoImplicit false

namespace DataLiteral.Text

-- The positions, counted from zero, at which two lists have different lines, or only one of them
-- has a line.
def differing (expected actual : List Text) : List Nat :=
  (List.range (max expected.length actual.length)).filter fun i => expected[i]? != actual[i]?

def missing : Text :=
  "<missing>".toList

/-- A line that is absent, opposite one that reads as absent lines are shown. -/
def IsMasked (expected actual : Option Text) : Prop :=
  expected = none ∧ actual = some missing ∨ expected = some missing ∧ actual = none

instance (expected actual : Option Text) : Decidable (IsMasked expected actual) :=
  inferInstanceAs (Decidable (_ ∨ _))

def told (expected actual : List Text) : List Nat :=
  (differing expected actual).filter fun i => ¬IsMasked expected[i]? actual[i]?

def entry (expected actual : List Text) (i : Nat) : List Text :=
  ["Line ".toList ++ ofNat (i + 1) ++ ":".toList,
    "  expected: ".toList ++ shown expected[i]?,
    "  actual:   ".toList ++ shown actual[i]?]

def endingsOnly : Text :=
  "  (contents differ only in line endings)".toList

def report (expected actual : List Text) : List Text :=
  "Content mismatch:".toList ::
    if told expected actual = [] then [endingsOnly]
    else (told expected actual).flatMap (entry expected actual)

theorem shown_eq_iff (expected actual : Option Text) :
    shown expected = shown actual ↔ expected = actual ∨ IsMasked expected actual := by
  have absent : shown none = missing := rfl
  have present (line : Text) : shown (some line) = line := rfl
  cases expected <;> cases actual <;> simp [absent, present, IsMasked, eq_comm]

def differenceAt (line : Nat) (expected actual : List Text) (i : Nat) : LineDifference :=
  ⟨i + line, expected[i]?, actual[i]?⟩

theorem differing_step {expected actual : List Text} (h : expected ≠ [] ∨ actual ≠ []) :
    differing expected actual =
      (if expected.head? = actual.head? then [] else [0]) ++
        (differing expected.tail actual.tail).map (· + 1) := by
  have length : max expected.length actual.length =
      max expected.tail.length actual.tail.length + 1 := by
    rw [List.length_tail, List.length_tail]
    rcases h with h | h <;> have := List.length_pos_iff.mpr h <;> omega
  rw [differing, length, List.range_succ_eq_map, List.filter_cons, List.filter_map]
  simp only [← List.head?_eq_getElem?, Function.comp_def, differing, List.getElem?_tail]
  by_cases same : expected.head? = actual.head? <;> simp [same]

theorem map_differing_step (line : Nat) {expected actual : List Text}
    (h : expected ≠ [] ∨ actual ≠ []) :
    (differing expected actual).map (differenceAt line expected actual) =
      (if expected.head? = actual.head? then [] else [⟨line, expected.head?, actual.head?⟩]) ++
        (differing expected.tail actual.tail).map
          (differenceAt (line + 1) expected.tail actual.tail) := by
  have later (i : Nat) : differenceAt line expected actual (i + 1) =
      differenceAt (line + 1) expected.tail actual.tail i := by
    simp only [differenceAt, List.getElem?_tail, Nat.add_right_comm i 1 line, Nat.add_assoc]
  have first : differenceAt line expected actual 0 = ⟨line, expected.head?, actual.head?⟩ := by
    simp only [differenceAt, List.head?_eq_getElem?, Nat.zero_add]
  rw [differing_step h, List.map_append, List.map_map]
  congr 1
  next => split <;> simp [first]
  next => exact List.map_congr_left fun i _ => later i

theorem differencesFrom_eq (line : Nat) (expected actual : List Text) :
    differencesFrom line expected actual =
      (differing expected actual).map (differenceAt line expected actual) := by
  fun_induction differencesFrom line expected actual with
  | case1 => rfl
  | case2 line e es ih =>
    rw [map_differing_step line (.inl (List.cons_ne_nil e es)), ih]
    rfl
  | case3 line a as ih =>
    rw [map_differing_step line (.inr (List.cons_ne_nil a as)), ih]
    rfl
  | case4 line es e as ih =>
    rw [map_differing_step line (.inl (List.cons_ne_nil e es)), ih]
    simp
  | case5 line e es a as different ih =>
    rw [map_differing_step line (.inl (List.cons_ne_nil e es)), ih]
    simp [different]

theorem isVisible_iff (line : Nat) (expected actual : Option Text) :
    (LineDifference.mk line expected actual).isVisible ↔
      expected ≠ actual ∧ ¬IsMasked expected actual := by
  rw [LineDifference.isVisible, bne_iff_ne, ne_eq, shown_eq_iff, not_or]

theorem IsMasked.ne {expected actual : Option Text} (h : IsMasked expected actual) :
    expected ≠ actual := by
  rcases h with ⟨rfl, rfl⟩ | ⟨rfl, rfl⟩ <;> simp

theorem mem_differing (expected actual : List Text) (i : Nat) :
    i ∈ differing expected actual ↔ expected[i]? ≠ actual[i]? := by
  rw [differing, List.mem_filter, List.mem_range, bne_iff_ne, and_iff_right_iff_imp]
  -- past both lists there is nothing to differ
  intro different
  by_contra beyond
  rw [List.getElem?_eq_none (by omega), List.getElem?_eq_none (by omega)] at different
  exact different rfl

theorem mem_told (expected actual : List Text) (i : Nat) :
    i ∈ told expected actual ↔
      expected[i]? ≠ actual[i]? ∧ ¬IsMasked expected[i]? actual[i]? := by
  rw [told, List.mem_filter, mem_differing, decide_eq_true_iff]

theorem told_eq_nil_iff (expected actual : List Text) :
    told expected actual = [] ↔
      ∀ i : Nat, expected[i]? = actual[i]? ∨ IsMasked expected[i]? actual[i]? := by
  simp only [List.eq_nil_iff_forall_not_mem, mem_told, not_and_or, not_not, ne_eq]

theorem told_eq_differing_iff (expected actual : List Text) :
    told expected actual = differing expected actual ↔
      ∀ i : Nat, ¬IsMasked expected[i]? actual[i]? := by
  simp only [told, List.filter_eq_self, mem_differing, decide_eq_true_iff]
  exact forall_congr' fun i => ⟨fun h masked => h masked.ne masked, fun h _ => h⟩

theorem differences_eq (expected actual : Text) :
    differences expected actual =
      (told (lines expected) (lines actual)).map
        (differenceAt 1 (lines expected) (lines actual)) := by
  rw [differences, differencesFrom_eq, List.filter_map, told]
  congr 1
  refine List.filter_congr fun i member => ?_
  have different := (mem_differing _ _ i).mp member
  rw [Bool.eq_iff_iff, Function.comp_apply, differenceAt, isVisible_iff, decide_eq_true_iff]
  exact and_iff_right different

theorem text_differenceAt (expected actual : List Text) (i : Nat) :
    (differenceAt 1 expected actual i).text = (entry expected actual i).flatMap (· ++ ['\n']) := by
  have first : ":\n  expected: ".toList = ":".toList ++ '\n' :: "  expected: ".toList := by decide
  have second : "\n  actual:   ".toList = '\n' :: "  actual:   ".toList := by decide
  have last : "\n".toList = ['\n'] := by decide
  unfold differenceAt LineDifference.text entry
  rw [first, second, last]
  generalize "Line ".toList = line, ":".toList = colon, "  expected: ".toList = left,
    "  actual:   ".toList = right
  simp

theorem compare_eq (expected actual : Text) :
    compare expected actual =
      if expected = actual then none
      else some ((report (lines expected) (lines actual)).flatMap (· ++ ['\n'])) := by
  have header : "Content mismatch:\n".toList = "Content mismatch:".toList ++ ['\n'] := by decide
  have endings : "  (contents differ only in line endings)\n".toList = endingsOnly ++ ['\n'] := by
    decide
  have body : (differences expected actual).flatMap LineDifference.text =
      ((told (lines expected) (lines actual)).flatMap
        (entry (lines expected) (lines actual))).flatMap (· ++ ['\n']) := by
    rw [differences_eq, List.flatMap_map, List.flatMap_assoc]
    exact List.flatMap_congr fun i _ => text_differenceAt _ _ i
  unfold compare report
  simp only [header, endings, body, List.flatMap_cons]
  by_cases silent : told (lines expected) (lines actual) = []
  next => simp [silent]
  next =>
    obtain ⟨i, rest, shape⟩ := List.exists_cons_of_ne_nil silent
    simp [shape, entry]

theorem notMem_lines (text : Text) : ∀ line ∈ lines text, '\n' ∉ line := by
  fun_induction lines text with
  | case1 => simp
  | case2 rest ih => simpa using ih
  | case3 rest ih => simpa using ih
  | case4 c rest notFeed notReturn ih => exact notMem_consFirst notFeed ih

theorem notMem_shown {texts : List Text} (h : ∀ line ∈ texts, '\n' ∉ line) (i : Nat) :
    '\n' ∉ shown texts[i]? := by
  cases found : texts[i]? with
  | none => decide
  | some line => exact h line (List.mem_of_getElem? found)

theorem notMem_report {expected actual : List Text} (left : ∀ line ∈ expected, '\n' ∉ line)
    (right : ∀ line ∈ actual, '\n' ∉ line) : ∀ line ∈ report expected actual, '\n' ∉ line := by
  have position (n : Nat) : '\n' ∉ ofNat n := by
    intro feed
    cases isDigit_ofNat n '\n' feed
  have entries : ∀ i, ∀ line ∈ entry expected actual i, '\n' ∉ line := by
    intro i
    simp only [entry, List.forall_mem_cons, List.mem_append, not_or]
    refine ⟨⟨⟨by decide, position (i + 1)⟩, by decide⟩, ⟨by decide, notMem_shown left i⟩,
      ⟨by decide, notMem_shown right i⟩, List.forall_mem_nil _⟩
  refine List.forall_mem_cons.mpr ⟨by decide, ?_⟩
  split
  next => exact List.forall_mem_singleton.mpr (by decide)
  next =>
    intro line member
    obtain ⟨i, _, inside⟩ := List.mem_flatMap.mp member
    exact entries i line inside

theorem endingsOnly_notMem_entry (expected actual : List Text) (i : Nat) :
    endingsOnly ∉ entry expected actual i := by
  -- the first three characters tell it from each line of an entry
  intro member
  simp only [entry, List.mem_cons, List.not_mem_nil, or_false] at member
  rcases member with same | same | same <;> cases congrArg (List.take 3) same

theorem endingsOnly_mem_report (expected actual : List Text) :
    endingsOnly ∈ report expected actual ↔ told expected actual = [] := by
  have notHeader : endingsOnly ≠ "Content mismatch:".toList := by decide
  rw [report, List.mem_cons, or_iff_right notHeader]
  split
  next silent => exact iff_of_true (List.mem_singleton.mpr rfl) silent
  next loud =>
    refine iff_of_false (fun member => ?_) loud
    obtain ⟨i, _, inside⟩ := List.mem_flatMap.mp member
    exact endingsOnly_notMem_entry expected actual i inside

theorem differing_eq_nil_iff (expected actual : List Text) :
    differing expected actual = [] ↔ expected = actual := by
  simp only [List.eq_nil_iff_forall_not_mem, mem_differing, ne_eq, not_not]
  exact List.ext_getElem?_iff.symm

/-- Texts that are equal have no report. On others there is a report, line by line: what it tells,
in the order of the lines, is each position at which a line differs from the other one or has none,
unless a line that reads as absent lines are shown stands there against an absent one. It says that
the endings alone differ if and only if there is nothing else to tell. Where no such line is, these
are all the positions that differ, and none differs if and only if the lines are equal. -/
theorem compare_report (expected actual : Text) :
    let left := lines expected
    let right := lines actual
    (compare expected actual = none ↔ expected = actual) ∧
      (compare expected actual =
        if expected = actual then none else some ((report left right).flatMap (· ++ ['\n']))) ∧
      (∀ line ∈ report left right, '\n' ∉ line) ∧
      (told left right).Pairwise (· < ·) ∧
      (∀ i, i ∈ told left right ↔ left[i]? ≠ right[i]? ∧ ¬IsMasked left[i]? right[i]?) ∧
      (endingsOnly ∈ report left right ↔
        ∀ i : Nat, left[i]? = right[i]? ∨ IsMasked left[i]? right[i]?) ∧
      (told left right = differing left right ↔ ∀ i : Nat, ¬IsMasked left[i]? right[i]?) ∧
      (differing left right = [] ↔ left = right) := by
  intro left right
  refine ⟨?_, compare_eq expected actual, notMem_report (notMem_lines _) (notMem_lines _), ?_,
    mem_told left right, ?_, told_eq_differing_iff left right, differing_eq_nil_iff left right⟩
  next =>
    rw [compare_eq]
    split <;> simp_all
  next => exact (List.pairwise_lt_range.filter _).filter _
  next => rw [endingsOnly_mem_report, told_eq_nil_iff]

-- The second line is absent on one side and reads as the sign for that on the other: it is not
-- told, and the report blames the endings.
theorem compare_report_masked :
    let expected := "a\n<missing>\n".toList
    let actual := "a\n".toList
    lines expected = [['a'], missing] ∧ lines actual = [['a']] ∧
      differing (lines expected) (lines actual) = [1] ∧
      compare expected actual = some
        "Content mismatch:\n  (contents differ only in line endings)\n".toList := by
  intro expected actual
  have apart : expected ≠ actual := by decide
  have silent : told (lines expected) (lines actual) = [] := by decide
  refine ⟨by decide, by decide, by decide, ?_⟩
  rw [compare_eq, if_neg apart, report, if_pos silent]
  rfl

end DataLiteral.Text

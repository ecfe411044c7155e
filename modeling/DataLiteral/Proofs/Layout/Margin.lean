import DataLiteral.Proofs.Declaration.Documentation
import DataLiteral.Proofs.Expr.Characters

set_option autoImplicit false

namespace DataLiteral

namespace Text

def indentBreaks (margin text : Text) : Text :=
  text.flatMap fun c => if c = '\n' then '\n' :: margin else [c]

def indentFrom (margin : Text) (starts : Bool) : Text → Text
  | [] => []
  | c :: rest => (if starts then margin else []) ++ c :: indentFrom margin (c == '\n') rest

def indentLines (margin text : Text) : Text :=
  indentFrom margin true text

variable (margin : Text)

theorem indentBreaks_append (first second : Text) :
    indentBreaks margin (first ++ second) =
      indentBreaks margin first ++ indentBreaks margin second :=
  List.flatMap_append

theorem indentBreaks_of_notMem {text : Text} (h : '\n' ∉ text) :
    indentBreaks margin text = text := by
  apply flatMap_of_kept
  intro c member
  apply if_neg
  rintro rfl
  exact h member

theorem indentFrom_append_singleton (starts : Bool) (text : Text) (last : Char) :
    indentFrom margin starts (text ++ [last]) =
      (if starts then margin else []) ++ (indentBreaks margin text ++ [last]) := by
  induction text generalizing starts with
  | nil => rfl
  | cons c rest ih =>
    by_cases feed : c = '\n' <;> simp [indentFrom, indentBreaks, ih, feed]

theorem indentFrom_of_notMem {line : Text} (h : '\n' ∉ line) (rest : Text) :
    indentFrom margin false (line ++ '\n' :: rest) = line ++ '\n' :: indentLines margin rest := by
  induction line with
  | nil => rfl
  | cons c line ih =>
    simp only [List.mem_cons, not_or] at h
    obtain ⟨other, later⟩ := h
    have inside : (c == '\n') = false := beq_eq_false_iff_ne.mpr (Ne.symm other)
    simp [indentFrom, inside, ih later]

theorem indentLines_line {line : Text} (h : '\n' ∉ line) (rest : Text) :
    indentLines margin (line ++ '\n' :: rest) =
      margin ++ line ++ '\n' :: indentLines margin rest := by
  cases line with
  | nil => simp [indentLines, indentFrom]
  | cons c line =>
    simp only [List.mem_cons, not_or] at h
    obtain ⟨other, later⟩ := h
    have inside : (c == '\n') = false := beq_eq_false_iff_ne.mpr (Ne.symm other)
    simp [indentLines, indentFrom, inside, indentFrom_of_notMem margin later]

theorem indentLines_flatMap {code : List Text} (h : ∀ line ∈ code, '\n' ∉ line) :
    indentLines margin (code.flatMap (· ++ ['\n'])) =
      code.flatMap fun line => margin ++ line ++ ['\n'] := by
  induction code with
  | nil => rfl
  | cons line rest ih =>
    obtain ⟨first, others⟩ := List.forall_mem_cons.mp h
    have next := indentLines_line margin first (rest.flatMap (· ++ ['\n']))
    simp only [ih others] at next
    simpa using next

theorem notMem_of_mem_splitOn {separator : Char} {text : Text} :
    ∀ piece ∈ splitOn separator text, separator ∉ piece := by
  induction text with
  | nil => simp [splitOn]
  | cons c rest ih =>
    simp only [splitOn]
    split
    next => exact List.forall_mem_cons.mpr ⟨List.not_mem_nil, ih⟩
    next other => exact notMem_consFirst other ih

theorem mem_of_mem_trimEnd {c d : Char} {text : Text} (h : d ∈ trimEnd c text) : d ∈ text := by
  have inside := (List.dropWhile_sublist (· == c)).subset (List.mem_reverse.mp h)
  exact List.mem_reverse.mp inside

end Text

namespace Indent

theorem margin_add (indent : Indent) (outer inner : Nat) :
    indent.margin (outer + inner) = indent.margin outer ++ indent.margin inner := by
  induction outer with
  | zero => simp [margin]
  | succ outer ih => simp [Nat.succ_add, margin, ih]

theorem notMem_margin (indent : Indent) (level : Nat) : '\n' ∉ indent.margin level := by
  induction level with
  | zero => exact List.not_mem_nil
  | succ level ih => cases indent <;> simp [margin, text, ih]

end Indent

namespace Fragment

theorem mem_guardEnd {c : Char} {text : Text} (h : c ∈ guardEnd text) : c ∈ text ∨ c = '\\' := by
  induction text using guardEnd.induct with
  | case1 rest ih =>
    simp only [guardEnd, List.mem_cons] at h ⊢
    grind
  | case2 d rest apart ih =>
    simp only [guardEnd.eq_2 d rest apart, List.mem_cons] at h ⊢
    grind
  | case3 => exact .inl h

theorem notMem_starred {text : Text} (h : '\n' ∉ text) : '\n' ∉ starred text := by
  cases text with
  | nil => decide
  | cons c rest => simpa [starred] using h

theorem notMem_docLines (entries : List Text) : ∀ line ∈ docLines entries, '\n' ∉ line := by
  simp only [docLines, List.mem_map, List.mem_flatMap]
  rintro _ ⟨piece, ⟨entry, _, inside⟩, rfl⟩ feed
  exact Text.notMem_of_mem_splitOn piece inside (Text.mem_of_mem_trimEnd feed)

theorem notMem_docCode (entries : List Text) : ∀ line ∈ docCode entries, '\n' ∉ line := by
  have guarded : ∀ line ∈ (docLines entries).map guardEnd, '\n' ∉ line := by
    refine List.forall_mem_map.mpr fun line member feed => ?_
    rcases mem_guardEnd feed with within | backslash
    next => exact notMem_docLines entries line member within
    next => cases backslash
  simp only [docCode]
  generalize (docLines entries).map guardEnd = lines at guarded
  split
  next => exact fun _ h => absurd h List.not_mem_nil
  next only => simpa using guarded
  next =>
    have starry : ∀ line ∈ lines.map starred, '\n' ∉ line := by
      intro line member
      obtain ⟨text, inside, rfl⟩ := List.mem_map.mp member
      exact notMem_starred (guarded text inside)
    refine List.forall_mem_cons.mpr ⟨by decide, List.forall_mem_append.mpr ⟨starry, ?_⟩⟩
    exact List.forall_mem_singleton.mpr (by decide)

theorem notMem_code {fragment : Fragment} (h : ∀ text, fragment = .line text → '\n' ∉ text) :
    ∀ line ∈ fragment.code, '\n' ∉ line := by
  cases fragment with
  | line text => exact List.forall_mem_singleton.mpr (h text rfl)
  | doc entries => exact notMem_docCode entries

end Fragment

end DataLiteral

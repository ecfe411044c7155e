import Mathlib.Data.List.DropRight
import DataLiteral.Proofs.Layout.Margin

set_option autoImplicit false

namespace DataLiteral

namespace Text

theorem splitOn_of_notMem {separator : Char} {text : Text} (h : separator ∉ text) :
    splitOn separator text = [text] := by
  induction text with
  | nil => rfl
  | cons c rest ih =>
    obtain ⟨other, later⟩ := not_or.mp (mt List.mem_cons.mpr h)
    rw [splitOn, if_neg (Ne.symm other), ih later]
    rfl

theorem trimEnd_trimEnd (c : Char) (text : Text) : trimEnd c (trimEnd c text) = trimEnd c text :=
  List.rdropWhile_idempotent (· == c) text

end Text

namespace Fragment

theorem docLines_append (first second : List Text) :
    docLines (first ++ second) = docLines first ++ docLines second := by
  simp [docLines]

theorem docLines_docLines (entries : List Text) :
    docLines (docLines entries) = docLines entries := by
  have whole : (docLines entries).flatMap (Text.splitOn '\n') = docLines entries := by
    have each : ∀ line ∈ docLines entries, Text.splitOn '\n' line = [line] :=
      fun line member => Text.splitOn_of_notMem (notMem_docLines entries line member)
    rw [List.flatMap_congr each, List.flatMap_singleton']
  rw [docLines, whole]
  simp [docLines, Text.trimEnd_trimEnd]

end Fragment

namespace Layout

theorem doc_congr {first second : List Text}
    (h : Fragment.docLines first = Fragment.docLines second) (layout : Layout) :
    layout.doc first = layout.doc second := by
  rw [doc, doc, fragment, fragment, Fragment.code, Fragment.code, Fragment.docCode,
    Fragment.docCode, h]

end Layout

namespace TypeAlias

open Fragment (docLines)

theorem emit_fragments (layout : Layout) (decl : TypeAlias) :
    layout.emit decl.fragments = (layout.doc decl.docs).line decl.signature := by
  rw [fragments]
  split
  next bare =>
    rw [List.isEmpty_iff.mp bare]
    rfl
  next => rfl

theorem emit_attached (layout : Layout) (decl : TypeAlias) (comments : List Text) :
    layout.emit (decl.attach comments).fragments =
      (layout.doc (decl.docs ++ comments)).line decl.signature := by
  rw [emit_fragments]
  refine congrArg (Layout.line · decl.signature) (Layout.doc_congr ?_ layout)
  rw [attach, Fragment.docLines_append, Fragment.docLines_append, Fragment.docLines_docLines]

theorem attach_attach (decl : TypeAlias) (first second : List Text) :
    (decl.attach first).attach second = decl.attach (first ++ second) := by
  simp [attach, Fragment.docLines_append]

theorem build_some (draft : Draft) (comments : List Text) :
    { draft with comments := some comments }.build.1 =
      { draft with comments := none }.build.1.attach comments := by
  cases comments with
  | nil => rfl
  | cons line rest => rfl

/-- A declaration is written as its comments, the way they were given, and then its own line. The
documentation it keeps is the lines of these comments, of which nothing more is split or trimmed
when they are written. No comments are written as nothing, and an empty one as a comment. What is
attached in two parts is attached as a whole. -/
theorem emit_comments :
    (∀ (draft : Draft) (comments : List Text) (layout : Layout),
      let decl := { draft with comments := some comments }.build.1
      layout.emit decl.fragments = (layout.doc comments).line decl.signature ∧
        decl.docs = docLines comments ∧ docLines decl.docs = decl.docs) ∧
    (∀ layout : Layout, layout.doc [] = layout ∧ layout.doc [[]] = layout.line "/**  */".toList) ∧
    ∀ (decl : TypeAlias) (first second : List Text),
      (decl.attach first).attach second = decl.attach (first ++ second) := by
  refine ⟨fun draft comments layout => ?_, fun layout => ⟨rfl, rfl⟩, attach_attach⟩
  intro decl
  have attached : decl = _ := build_some draft comments
  have docs : decl.docs = docLines comments := by
    rw [attached]
    rfl
  refine ⟨?_, docs, ?_⟩
  next =>
    rw [attached, emit_attached]
    rfl
  next => rw [docs, Fragment.docLines_docLines]

end TypeAlias

end DataLiteral

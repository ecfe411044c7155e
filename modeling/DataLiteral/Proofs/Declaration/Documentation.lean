import DataLiteral.Declaration.TypeAlias

set_option autoImplicit false

namespace DataLiteral

def afterEnd? : Text → Option Text
  | '*' :: '/' :: rest => some rest
  | _ :: rest => afterEnd? rest
  | [] => none

/-- One documentation comment and a line feed: the first end of the comment is at the end of its
last line. -/
def IsDocumentation (text : Text) : Prop :=
  ∃ body, text = "/*".toList ++ '*' :: body ∧ afterEnd? ('*' :: body) = some ['\n']

def EndsNothing (text : Text) : Prop :=
  ∀ rest, afterEnd? (text ++ rest) = afterEnd? rest

theorem afterEnd?_cons {c : Char} {text : Text} (open' : c = '*' → text.head? ≠ some '/') :
    afterEnd? (c :: text) = afterEnd? text := by
  rw [afterEnd?]
  intro rest star slash
  exact open' star (slash ▸ rfl)

namespace EndsNothing

variable {first second text : Text}

theorem nil : EndsNothing [] := fun _ => rfl

theorem append (h : EndsNothing first) (later : EndsNothing second) :
    EndsNothing (first ++ second) := by
  intro rest
  rw [List.append_assoc, h, later]

theorem cons {c : Char} (notStar : c ≠ '*') (h : EndsNothing text) : EndsNothing (c :: text) := by
  intro rest
  rw [List.cons_append, afterEnd?_cons fun star => absurd star notStar, h]

theorem star {c : Char} (notSlash : c ≠ '/') (h : EndsNothing (c :: text)) :
    EndsNothing ('*' :: c :: text) := by
  intro rest
  rw [List.cons_append, afterEnd?_cons fun _ => by simpa using notSlash, h]

theorem plain (h : ∀ c ∈ text, c ≠ '*') : EndsNothing text := by
  induction text with
  | nil => exact nil
  | cons c rest ih =>
    obtain ⟨notStar, others⟩ := List.forall_mem_cons.mp h
    exact cons notStar (ih others)

theorem flatMap {α : Type} {part : α → Text} (h : ∀ a, EndsNothing (part a)) (items : List α) :
    EndsNothing (items.flatMap part) := by
  induction items with
  | nil => exact nil
  | cons a rest ih =>
    rw [List.flatMap_cons]
    exact append (h a) ih

end EndsNothing

theorem endsNothing_margin (indent : Indent) (level : Nat) :
    EndsNothing (indent.margin level) := by
  induction level with
  | zero => exact .nil
  | succ level ih =>
    refine .append (.plain fun c member => ?_) ih
    cases indent with
    | spaces width =>
      rw [List.eq_of_mem_replicate member]
      decide
    | tab =>
      rw [List.mem_singleton.mp member]
      decide

namespace Fragment

theorem head?_guardEnd (text : Text) : (guardEnd text).head? = text.head? := by
  unfold guardEnd
  split <;> rfl

theorem endsNothing_guardEnd {c : Char} (notStar : c ≠ '*') (notSlash : c ≠ '/') (text : Text) :
    EndsNothing (guardEnd text ++ [c]) := by
  induction text using guardEnd.induct with
  | case1 rest ih => exact .star (by decide) (.cons (by decide) (.cons (by decide) ih))
  | case2 d rest apart ih =>
    rw [guardEnd.eq_2 d rest apart, List.cons_append]
    by_cases star : d = '*'
    · subst star
      cases shape : guardEnd rest with
      | nil =>
        rw [shape] at ih
        exact .star notSlash ih
      | cons e after =>
        have head : rest.head? = some e := by
          rw [← head?_guardEnd, shape]
          rfl
        have kept : e ≠ '/' := by
          rintro rfl
          obtain ⟨tail, same⟩ := List.head?_eq_some_iff.mp head
          exact apart tail rfl same
        rw [shape] at ih
        exact .star kept ih
    · exact .cons star ih
  | case3 => exact .cons notStar .nil

theorem endsNothing_starred (line : Text) : EndsNothing (starred (guardEnd line) ++ ['\n']) := by
  have guarded := endsNothing_guardEnd (c := '\n') (by decide) (by decide) line
  cases shape : guardEnd line with
  | nil => exact .cons (by decide) (.star (by decide) (.cons (by decide) .nil))
  | cons c rest =>
    rw [shape] at guarded
    exact .cons (by decide) (.star (by decide) (.cons (by decide) guarded))

theorem docLines_ne_nil {entries : List Text} (h : entries ≠ []) : docLines entries ≠ [] := by
  cases entries with
  | nil => exact absurd rfl h
  | cons entry rest => simp [docLines, Text.splitOn_ne_nil]

def written (margin : Text) (fragment : Fragment) : Text :=
  fragment.code.flatMap fun text => margin ++ text ++ ['\n']

theorem isDocumentation_close {body : Text} (h : EndsNothing ('*' :: body)) :
    IsDocumentation ("/*".toList ++ '*' :: (body ++ "*/\n".toList)) :=
  ⟨_, rfl, h "*/\n".toList⟩

theorem isDocumentation_written {margin : Text} (blank : EndsNothing margin)
    {entries : List Text} (h : entries ≠ []) :
    ∃ text, written margin (.doc entries) = margin ++ text ∧ IsDocumentation text := by
  rw [written, code, docCode]
  cases shape : docLines entries with
  | nil => exact absurd shape (docLines_ne_nil h)
  | cons first rest =>
    cases rest with
    | nil =>
      have guarded := endsNothing_guardEnd (c := ' ') (by decide) (by decide) first
      have before : EndsNothing ('*' :: ' ' :: (guardEnd first ++ [' '])) :=
        .star (by decide) (.cons (by decide) guarded)
      refine ⟨_, ?_, isDocumentation_close before⟩
      simp
    | cons second rest =>
      have line (text : Text) : EndsNothing (margin ++ (starred (guardEnd text) ++ ['\n'])) :=
        blank.append (endsNothing_starred text)
      have lines := EndsNothing.flatMap line (first :: second :: rest)
      have last : EndsNothing (margin ++ [' ']) := blank.append (.cons (by decide) .nil)
      have before := EndsNothing.star (c := '\n') (by decide)
        (.cons (by decide) (lines.append last))
      refine ⟨_, ?_, isDocumentation_close before⟩
      simp [List.flatMap_map]

end Fragment

namespace Layout

theorem fragment_eq (layout : Layout) (fragment : Fragment) :
    layout.fragment fragment = layout.raw (fragment.written layout.margin) := by
  have each (code : List Text) (layout : Layout) :
      code.foldl line layout =
        layout.raw (code.flatMap fun text => layout.margin ++ text ++ ['\n']) := by
    induction code generalizing layout with
    | nil => simp [raw]
    | cons text rest ih =>
      rw [List.foldl_cons, ih]
      simp [line, raw, margin]
  exact each fragment.code layout

end Layout

namespace TypeAlias

/-- What comments put in front of a declaration: nothing if there are none, and else the margin and
one documentation comment. -/
def IsLead (comments : Option (List Text)) (margin lead : Text) : Prop :=
  match comments with
  | some (_ :: _) => ∃ text, lead = margin ++ text ∧ IsDocumentation text
  | _ => lead = []

theorem emit_attach (layout : Layout) (decl : TypeAlias) (undocumented : decl.docs = [])
    {comments : List Text} (h : comments ≠ []) :
    ∃ lead, IsLead (some comments) layout.margin lead ∧
      layout.emit (decl.attach comments).fragments = (layout.raw lead).emit decl.fragments := by
  have docs : Fragment.docLines comments ≠ [] := Fragment.docLines_ne_nil h
  obtain ⟨text, written, documents⟩ :=
    Fragment.isDocumentation_written (endsNothing_margin layout.indent layout.level) docs
  refine ⟨layout.margin ++ text, ?_, ?_⟩
  · cases comments with
    | nil => exact absurd rfl h
    | cons line rest => exact ⟨text, rfl, documents⟩
  · have plain : decl.fragments = [.line decl.signature] := by
      rw [fragments, undocumented]
      rfl
    have documented : (decl.attach comments).fragments =
        [.doc (Fragment.docLines comments), .line decl.signature] := by
      rw [fragments, attach, undocumented, List.nil_append, if_neg (by simpa using docs)]
      rfl
    rw [plain, documented, Layout.emit, List.foldl_cons, Layout.fragment_eq, Layout.margin, written]
    rfl

theorem emit_build (draft : Draft) (layout : Layout) :
    ∃ lead, IsLead draft.comments layout.margin lead ∧
      layout.emit draft.build.1.fragments =
        (layout.raw lead).emit { draft with comments := none }.build.1.fragments := by
  obtain ⟨name, referenced, parameters, comments⟩ := draft
  have bare : layout.raw [] = layout := by simp [Layout.raw]
  match comments with
  | none => exact ⟨[], rfl, by rw [bare]⟩
  | some [] => exact ⟨[], rfl, by rw [bare]; rfl⟩
  | some (line :: rest) => exact emit_attach layout _ rfl (List.cons_ne_nil line rest)

/-- Documentation stands in front of a declaration, as one comment on lines of its own, and leaves
the declaration as it is. -/
theorem print_build (draft : Draft) :
    (∀ style : Style, ∃ lead, IsLead draft.comments [] lead ∧
      draft.build.1.print style = lead ++ { draft with comments := none }.build.1.print style) ∧
    ∀ layout : Layout, ∃ lead, IsLead draft.comments layout.margin lead ∧
      layout.emit draft.build.1.fragments =
        (layout.raw lead).emit { draft with comments := none }.build.1.fragments := by
  constructor
  · intro style
    obtain ⟨lead, leads, same⟩ := emit_build draft (.empty style.indent)
    refine ⟨lead, leads, ?_⟩
    rw [print, same]
    rfl
  · exact emit_build draft

end TypeAlias

end DataLiteral

import DataLiteral.Declaration.Constant
import DataLiteral.Proofs.Expr.Writing
import DataLiteral.Proofs.Layout.Margin
import DataLiteral.Proofs.Layout.Run
import DataLiteral.Proofs.Quote.Scan
import DataLiteral.Proofs.Value.Complete

set_option autoImplicit false

namespace DataLiteral

namespace Expr

def IsUnbroken (e : Expr) : Prop :=
  ∀ s, .string s true ∈ e.parts → '\n' ∉ s

theorem notMem_escape (q : Quote) (text : Text) : '\n' ∉ q.escape text := by
  have quote : '\n' ≠ q.char := by cases q <;> decide
  have body : '\n' ∉ q.escapeBody text :=
    fun feed => absurd (Quote.isInline_escapeBody q text '\n' feed) (by decide)
  simp [Quote.escape, quote, body]

theorem notMem_templateBody {text : Text} (h : '\n' ∉ text) (escaped : Bool) :
    '\n' ∉ Quote.templateBody escaped text := by
  induction text generalizing escaped with
  | nil => exact h
  | cons c rest ih =>
    simp only [List.mem_cons, not_or] at h
    obtain ⟨other, later⟩ := h
    rcases Quote.templateBody_cons escaped c rest with ⟨shape, _⟩ | ⟨shape, _⟩ <;>
      simp [shape, other, ih later]

theorem notMem_verbatim {text : Text} (h : '\n' ∉ text) (q : Quote) : '\n' ∉ q.verbatim text := by
  rcases Quote.verbatim_cases q text with ⟨d, shape, _⟩ | shape
  next =>
    have quote : '\n' ≠ d.char := by cases d <;> decide
    simp [shape, quote, h]
  next =>
    have quote : '\n' ≠ Quote.backtick := by decide
    simp [shape, Quote.template, quote, notMem_templateBody h]

theorem notMem_keyText (q : Quote) (key : Text) : '\n' ∉ keyText q key := by
  simp only [keyText]
  split
  next identifier => exact notMem_of_isIdentifier identifier (by decide)
  next => exact notMem_escape q key

section

variable (indent : Indent) (q : Quote) (outer : Nat)

theorem childLevel_add (level : Nat) (multiLine : Bool) :
    childLevel (outer + level) multiLine = outer + childLevel level multiLine := by
  cases multiLine <;> rfl

theorem indentBreaks_margin (n : Nat) :
    Text.indentBreaks (indent.margin outer) ('\n' :: indent.margin n) =
      '\n' :: indent.margin (outer + n) := by
  have kept := Text.indentBreaks_of_notMem (indent.margin outer) (indent.notMem_margin n)
  simp only [Text.indentBreaks] at kept
  simp [Text.indentBreaks, kept, Indent.margin_add]

theorem enclose_add {b : Brackets} (level : Nat) (multiLine : Bool) (children : List Text)
    (unbroken : '\n' ∉ b.opening ++ b.closing ++ b.padding ++ [',', ' ']) :
    b.enclose indent (outer + level) multiLine
        (children.map (Text.indentBreaks (indent.margin outer))) =
      Text.indentBreaks (indent.margin outer) (b.enclose indent level multiLine children) := by
  refine (flatMap_enclose level multiLine children ?_ (indentBreaks_margin indent outer)).symm
  rintro c member
  apply if_neg
  rintro rfl
  exact unbroken member

mutual

theorem textAt_add (level : Nat) : ∀ e : Expr, e.IsUnbroken →
    e.textAt indent q (outer + level) =
      Text.indentBreaks (indent.margin outer) (e.textAt indent q level)
  | .null, _ | .boolean true, _ | .boolean false, _ => rfl
  | .number n, _ => by
    have plain : '\n' ∉ n.literal :=
      fun feed => absurd (Number.isNumeric_literal n '\n' feed) (by decide)
    exact (Text.indentBreaks_of_notMem _ plain).symm
  | .string s false, _ => (Text.indentBreaks_of_notMem _ (notMem_escape q s)).symm
  | .string s true, h =>
    (Text.indentBreaks_of_notMem _ (notMem_verbatim (h s List.mem_cons_self) q)).symm
  | .array elements multiLine, h => by
    have texts := elementTexts_add (childLevel level multiLine) elements
      fun s member => h s (List.mem_cons_of_mem _ member)
    simp only [textAt, childLevel_add, texts]
    exact enclose_add indent outer level multiLine _ (by simp [arrayBrackets])
  | .object properties multiLine, h => by
    have texts := propertyTexts_add (childLevel level multiLine) properties
      fun s member => h s (List.mem_cons_of_mem _ member)
    simp only [textAt, childLevel_add, texts]
    exact enclose_add indent outer level multiLine _ (by simp [objectBrackets])

theorem elementTexts_add (level : Nat) : ∀ elements : List Expr,
    (∀ s, .string s true ∈ innerElements elements → '\n' ∉ s) →
    elementTexts indent q (outer + level) elements =
      (elementTexts indent q level elements).map (Text.indentBreaks (indent.margin outer))
  | [], _ => rfl
  | element :: rest, h => by
    have first := textAt_add level element
      fun s member => h s (List.mem_append_left (innerElements rest) member)
    have others := elementTexts_add level rest
      fun s member => h s (List.mem_append_right element.parts member)
    simp only [elementTexts, List.map_cons, first, others]

theorem propertyTexts_add (level : Nat) : ∀ properties : List (Text × Expr),
    (∀ s, .string s true ∈ innerProperties properties → '\n' ∉ s) →
    propertyTexts indent q (outer + level) properties =
      (propertyTexts indent q level properties).map (Text.indentBreaks (indent.margin outer))
  | [], _ => rfl
  | (key, value) :: rest, h => by
    have first := textAt_add level value
      fun s member => h s (List.mem_append_left (innerProperties rest) member)
    have others := propertyTexts_add level rest
      fun s member => h s (List.mem_append_right value.parts member)
    have plain : '\n' ∉ keyText q key ++ [':', ' '] := by simp [notMem_keyText]
    have label := Text.indentBreaks_of_notMem (indent.margin outer) plain
    have property := Text.indentBreaks_append (indent.margin outer)
      (keyText q key ++ [':', ' ']) (textAt indent q level value)
    simp only [label, List.append_assoc, List.cons_append, List.nil_append] at property
    simp only [propertyTexts, List.map_cons, first, others, property]

end

end

end Expr

theorem Constant.notMem_head {constant : Constant} (name : '\n' ∉ constant.name)
    (type : ∀ type ∈ constant.type, '\n' ∉ type) : '\n' ∉ constant.head := by
  obtain ⟨name', value, type', isExported⟩ := constant
  cases isExported <;> cases type' <;> simp_all [Constant.head]

theorem TypeAlias.notMem_signature {decl : TypeAlias} (name : '\n' ∉ decl.name)
    (parameters : ∀ p ∈ decl.parameters, '\n' ∉ p) (referenced : '\n' ∉ decl.referenced) :
    '\n' ∉ decl.signature := by
  have keywords : ∀ m : Modifier, '\n' ∉ m.keyword := by
    rintro ⟨⟩
    decide
  have list : '\n' ∉ [',', ' '].intercalate decl.parameters :=
    Text.notMem_intercalate (by decide) parameters
  have generics : '\n' ∉ parametersText decl.parameters := by
    simp only [parametersText]
    split <;> simp [list]
  simp [signature, keywords, name, generics, referenced]

namespace Layout

theorem emit_code (layout : Layout) (fragments : List Fragment) :
    layout.emit fragments = layout.raw
      ((fragments.flatMap Fragment.code).flatMap fun line => layout.margin ++ line ++ ['\n']) := by
  simp only [emit_eq, List.flatMap_assoc]
  rfl

variable (style : Style) (level : Nat) (before : Text)

theorem expr_at_level {e : Expr} (h : e.IsUnbroken) :
    expr ⟨style.indent, level, before⟩ style.quote e =
      ⟨style.indent, level,
        before ++ Text.indentBreaks (style.indent.margin level) (e.print style)⟩ := by
  have shifted := Expr.textAt_add style.indent style.quote level 0 e h
  rw [Expr.run_steps, Expr.print, ← shifted]
  rfl

theorem constant_at_level {constant : Constant} (name : '\n' ∉ constant.name)
    (type : ∀ type ∈ constant.type, '\n' ∉ type) (value : constant.value.IsUnbroken) :
    Layout.constant ⟨style.indent, level, before⟩ style.quote constant =
      ⟨style.indent, level,
        before ++ Text.indentLines (style.indent.margin level) (constant.print style)⟩ := by
  have written := expr_at_level style level
    (before ++ style.indent.margin level ++ constant.head) value
  have printed : constant.print style =
      (constant.head ++ constant.value.print style ++ [';']) ++ ['\n'] := by
    simp [Constant.print, Layout.constant, Expr.run_steps, Expr.print, empty, indentation, raw,
      margin, Indent.margin]
  have head := Text.indentBreaks_of_notMem (style.indent.margin level)
    (Constant.notMem_head name type)
  have semicolon : '\n' ∉ [';'] := by decide
  have last := Text.indentBreaks_of_notMem (style.indent.margin level) semicolon
  simp only [printed, Text.indentLines, Text.indentFrom_append_singleton,
    Text.indentBreaks_append, head, last, Layout.constant, indentation, raw, margin, written]
  simp

theorem emit_at_level {decl : TypeAlias} (name : '\n' ∉ decl.name)
    (parameters : ∀ p ∈ decl.parameters, '\n' ∉ p) (referenced : '\n' ∉ decl.referenced) :
    emit ⟨style.indent, level, before⟩ decl.fragments =
      ⟨style.indent, level,
        before ++ Text.indentLines (style.indent.margin level) (decl.print style)⟩ := by
  have lines : ∀ line ∈ decl.fragments.flatMap Fragment.code, '\n' ∉ line := by
    intro line member
    obtain ⟨fragment, inside, code⟩ := List.mem_flatMap.mp member
    refine Fragment.notMem_code (fun text shape => ?_) line code
    have signature : text = decl.signature := by
      simp only [TypeAlias.fragments] at inside
      split at inside <;> simp_all
    rw [signature]
    exact TypeAlias.notMem_signature name parameters referenced
  have indented := Text.indentLines_flatMap (style.indent.margin level) lines
  have printed : decl.print style =
      (decl.fragments.flatMap Fragment.code).flatMap (· ++ ['\n']) := by
    rw [TypeAlias.print, emit_code]
    rfl
  rw [printed, indented, emit_code]
  rfl

/-- What is printed can stand at any level: its lines are then indented to that level, and the
level stays. Text that goes on where a line has begun is indented from the next line on. -/
theorem print_at_level :
    (∀ e : Expr, e.IsUnbroken →
      expr ⟨style.indent, level, before⟩ style.quote e =
        ⟨style.indent, level,
          before ++ Text.indentBreaks (style.indent.margin level) (e.print style)⟩) ∧
    (∀ constant : Constant, '\n' ∉ constant.name → (∀ type ∈ constant.type, '\n' ∉ type) →
      constant.value.IsUnbroken →
      Layout.constant ⟨style.indent, level, before⟩ style.quote constant =
        ⟨style.indent, level,
          before ++ Text.indentLines (style.indent.margin level) (constant.print style)⟩) ∧
    ∀ decl : TypeAlias, '\n' ∉ decl.name → (∀ p ∈ decl.parameters, '\n' ∉ p) →
      '\n' ∉ decl.referenced →
      emit ⟨style.indent, level, before⟩ decl.fragments =
        ⟨style.indent, level,
          before ++ Text.indentLines (style.indent.margin level) (decl.print style)⟩ :=
  ⟨fun _ => expr_at_level style level before,
    fun _ => constant_at_level style level before,
    fun _ => emit_at_level style level before⟩

theorem print_at_level_nested :
    let style : Style := ⟨2, true, .double⟩
    let e : Expr := .object
      [("a".toList, .array [.string "b'".toList true, .object [] true] true),
        ("c d".toList, .null)] false
    let constant : Constant := ⟨"k".toList, e, some "T".toList, true⟩
    let decl : TypeAlias := ⟨[.exported], "N".toList, ["P".toList, "Q".toList], "R".toList,
      ["one".toList, "two\nthree".toList]⟩
    let object : Text :=
      "\x7b a: [\n\t\t\"b'\",\n\t\t\x7b\x7d\n\t], \"c d\": null \x7d".toList
    (e.IsUnbroken ∧
      expr ⟨style.indent, 1, "f(".toList⟩ style.quote e =
        ⟨style.indent, 1, "f(".toList ++ object⟩) ∧
    ('\n' ∉ constant.name ∧ (∀ type ∈ constant.type, '\n' ∉ type) ∧ constant.value.IsUnbroken ∧
      Layout.constant ⟨style.indent, 1, "f(".toList⟩ style.quote constant =
        ⟨style.indent, 1,
          "f(\texport const k: T = ".toList ++ object ++ ";\n".toList⟩) ∧
    '\n' ∉ decl.name ∧ (∀ p ∈ decl.parameters, '\n' ∉ p) ∧ '\n' ∉ decl.referenced ∧
      emit ⟨style.indent, 1, "f(".toList⟩ decl.fragments =
        ⟨style.indent, 1, ("f(\t/**\n\t * one\n\t * two\n\t * three\n\t */\n" ++
          "\texport type N<P, Q> = R;\n").toList⟩ := by
  intro style e constant decl object
  have unbroken : e.IsUnbroken := by
    intro s member
    have only : s = "b'".toList := by
      simpa [e, Expr.parts, Expr.inner, Expr.innerElements, Expr.innerProperties] using member
    simp [only]
  obtain ⟨embedded, defined, declared⟩ := print_at_level style 1 "f(".toList
  have name : '\n' ∉ constant.name := by decide
  have type : ∀ type ∈ constant.type, '\n' ∉ type := by decide
  have aliasName : '\n' ∉ decl.name := by decide
  have parameters : ∀ p ∈ decl.parameters, '\n' ∉ p := by decide
  have referenced : '\n' ∉ decl.referenced := by decide
  refine ⟨⟨unbroken, (embedded e unbroken).trans ?_⟩,
    ⟨name, type, unbroken, (defined constant name type unbroken).trans ?_⟩,
    aliasName, parameters, referenced, (declared decl aliasName parameters referenced).trans ?_⟩
  all_goals decide +kernel

end Layout

end DataLiteral

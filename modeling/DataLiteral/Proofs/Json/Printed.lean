import DataLiteral.Proofs.Expr.Characters
import DataLiteral.Proofs.Expr.Reading
import DataLiteral.Proofs.Json.Spelling
import DataLiteral.Proofs.Value.Decoded

set_option autoImplicit false

namespace DataLiteral

namespace Expr

theorem enclose_cases {P : Text → Prop} (b : Brackets) (indent : Indent) (level : Nat)
    (multiLine : Bool) {children : List Text} (padding : IsSpace b.padding)
    (empty : children = [] → P (b.opening ++ b.closing))
    (filled : ∀ before space after, children ≠ [] → IsSpace before → IsSpace space →
      IsSpace after → P (b.opening ++
        (before ++ ((',' :: space).intercalate children ++ (after ++ b.closing))))) :
    P (b.enclose indent level multiLine children) := by
  have gap : IsSpace [' '] := by simp [IsSpace]
  have deeper := isSpace_newline indent (level + 1)
  have last := isSpace_newline indent level
  unfold Brackets.enclose
  split
  next none' => exact empty (List.isEmpty_iff.mp none')
  next some' =>
    have nonempty : children ≠ [] := by simpa using some'
    split
    next =>
      have spread := filled _ _ _ nonempty deeper deeper last
      simp only [intercalate_map_append _ nonempty]
      simpa using spread
    next =>
      have inline := filled _ _ _ nonempty padding gap padding
      simpa using inline

end Expr

namespace Json

section

variable {depth : Nat} {texts : List Text} (indent : Indent) (level : Nat) (multiLine : Bool)

theorem isBlank_of_isSpace {space : Text} (h : Expr.IsSpace space) : ∀ c ∈ space, isBlank c := by
  intro c member
  rcases h c member with rfl | rfl | rfl <;> decide

theorem spells_enclose_array {items : List Value} (h : List.Forall₂ (Spells depth) texts items) :
    Spells (depth + 1) (Expr.arrayBrackets.enclose indent level multiLine texts)
      (.array items) := by
  apply Expr.enclose_cases (P := (Spells (depth + 1) · (.array items)))
  next => simp [Expr.IsSpace, Expr.arrayBrackets]
  next =>
    rintro rfl
    cases h
    exact spells_array_nil (List.forall_mem_nil _)
  next =>
    intro before space after nonempty first between last
    exact spells_array (isBlank_of_isSpace between) (isBlank_of_isSpace last)
      (isBlank_of_isSpace first) (h.imp fun _ _ => Spells.item) nonempty

theorem spells_enclose_record {entries : List (Text × Value)}
    (h : List.Forall₂ (EntrySpells depth) texts entries)
    (distinct : (Entries.keys entries).Nodup) :
    Spells (depth + 1) (Expr.objectBrackets.enclose indent level multiLine texts)
      (.record entries) := by
  apply Expr.enclose_cases (P := (Spells (depth + 1) · (.record entries)))
  next => simp [Expr.IsSpace, Expr.objectBrackets]
  next =>
    rintro rfl
    cases h
    exact spells_record_nil (List.forall_mem_nil _)
  next =>
    intro before space after nonempty first between last
    rw [← Entries.collect_of_nodup distinct]
    exact spells_record (isBlank_of_isSpace between) (isBlank_of_isSpace last)
      (isBlank_of_isSpace first) (h.imp fun _ _ => EntrySpells.member) nonempty

end

section

variable {depth : Nat}

theorem spells_null : Spells depth "null".toList .null :=
  spells_scalar fun _ _ => rfl

theorem spells_boolean (value : Bool) :
    Spells depth (if value then "true".toList else "false".toList) (.boolean value) := by
  cases value with
  | true => exact spells_scalar fun _ _ => rfl
  | false => exact spells_scalar fun _ _ => rfl

theorem spells_string {text : Text} (shared : IsShared text) :
    Spells depth (Quote.double.escape text) (.string text) :=
  spells_scalar fun rest _ => readScalarValue_escape shared rest

theorem spells_number {n : Number} (h : n.isInteger) : Spells depth n.literal (.number n) :=
  spells_scalar fun _ ends => readScalarValue_literal h ends

end

end Json

/-- Whether a part of a value is written alike in a literal and in a document. Keys in a literal
stand in quotes unless they are identifiers. -/
def Value.isPortable : Value → Bool
  | .undefined => false
  | .null => true
  | .boolean _ => true
  | .number n => n.isInteger
  | .string s => s.all Json.isShared
  | .array _ => true
  | .record entries =>
      decide (Entries.keys entries).Nodup &&
        (Entries.keys entries).all fun key => key.all Json.isShared && !isIdentifier key

namespace Json

open Value (forall_parts_array forall_parts_record self_mem_parts)

theorem isShared_of_all {text : Text} (h : text.all isShared) : IsShared text :=
  List.all_eq_true.mp h

section

variable (indent : Indent)

mutual

theorem spells_build : ∀ (v : Value) (level depth : Nat), (∀ w ∈ v.parts, w.isPortable) →
    v.depth ≤ depth → ∃ e, (Expr.assembly.build false v).1 = some e ∧
      Spells depth (e.textAt indent .double level) v
  | .undefined, _, _, h, _ => nomatch h _ (self_mem_parts _)
  | .null, _, _, _, _ => ⟨.null, rfl, spells_null⟩
  | .boolean true, _, _, _, _ => ⟨.boolean true, rfl, spells_boolean true⟩
  | .boolean false, _, _, _, _ => ⟨.boolean false, rfl, spells_boolean false⟩
  | .number n, _, _, h, _ => ⟨.number n, rfl, spells_number (h _ (self_mem_parts _))⟩
  | .string s, _, _, h, _ =>
    ⟨.string s false, rfl, spells_string (isShared_of_all (h _ (self_mem_parts _)))⟩
  | .array items, level, depth, h, shallow => by
    obtain ⟨depth, rfl⟩ := Nat.exists_eq_succ_of_ne_zero (Nat.ne_of_gt (Nat.zero_lt_of_lt shallow))
    refine ⟨.array (Expr.assembly.buildItems 0 items).1 _, rfl, ?_⟩
    rw [Expr.textAt]
    apply spells_enclose_array
    exact spells_buildItems items 0 _ depth (forall_parts_array.mp h).2
      (Nat.le_of_succ_le_succ shallow)
  | .record entries, level, depth, h, shallow => by
    obtain ⟨depth, rfl⟩ := Nat.exists_eq_succ_of_ne_zero (Nat.ne_of_gt (Nat.zero_lt_of_lt shallow))
    obtain ⟨distinct, keys⟩ := Bool.and_eq_true_iff.mp (h _ (self_mem_parts _))
    refine ⟨.object (Expr.assembly.buildEntries entries).1 true, rfl, ?_⟩
    rw [Expr.textAt]
    apply spells_enclose_record _ _ _ _ (of_decide_eq_true distinct)
    exact spells_buildEntries entries _ depth (List.all_eq_true.mp keys)
      (forall_parts_record.mp h).2 (Nat.le_of_succ_le_succ shallow)

theorem spells_buildItems : ∀ (items : List Value) (index level depth : Nat),
    (∀ item ∈ items, ∀ w ∈ item.parts, w.isPortable) → Value.depthItems items ≤ depth →
      List.Forall₂ (Spells depth)
        (Expr.elementTexts indent .double level (Expr.assembly.buildItems index items).1) items
  | [], _, _, _, _, _ => .nil
  | item :: rest, index, level, depth, h, shallow => by
    obtain ⟨first, later⟩ := List.forall_mem_cons.mp h
    obtain ⟨low, low'⟩ := Nat.max_le.mp shallow
    obtain ⟨e, built, spelled⟩ := spells_build item level depth first low
    simp only [Assembly.buildItems, built, Expr.elementTexts]
    exact .cons spelled (spells_buildItems rest (index + 1) level depth later low')

theorem spells_buildEntries : ∀ (entries : List (Text × Value)) (level depth : Nat),
    (∀ key ∈ Entries.keys entries, key.all isShared && !isIdentifier key) →
    (∀ entry ∈ entries, ∀ w ∈ entry.2.parts, w.isPortable) → Value.depthEntries entries ≤ depth →
      List.Forall₂ (EntrySpells depth)
        (Expr.propertyTexts indent .double level (Expr.assembly.buildEntries entries).1) entries
  | [], _, _, _, _, _ => .nil
  | (key, value) :: rest, level, depth, keys, h, shallow => by
    obtain ⟨own, others⟩ := List.forall_mem_cons.mp keys
    obtain ⟨first, later⟩ := List.forall_mem_cons.mp h
    obtain ⟨low, low'⟩ := Nat.max_le.mp shallow
    obtain ⟨shared, quoted⟩ := Bool.and_eq_true_iff.mp own
    obtain ⟨e, built, spelled⟩ := spells_build value level depth first low
    simp only [Assembly.buildEntries, built, Expr.propertyTexts]
    have keyed : Expr.keyText .double key = Quote.double.escape key :=
      if_neg (by simpa using quoted)
    have gap : ∀ c ∈ [' '], isBlank c := List.forall_mem_singleton.mpr rfl
    refine .cons ?_ (spells_buildEntries rest level depth others later low')
    refine ⟨' ' :: e.textAt indent .double level, ?_, isShared_of_all shared, spelled.blank gap⟩
    exact congrArg (· ++ ':' :: ' ' :: e.textAt indent .double level) keyed

end

end

end Json

theorem Source.readJson_of_read {source : Source} {v : Value}
    (h : Json.read source.text = .ok v) : source.readJson = .ok v := by
  rw [readJson, h]

/-- Printing with double quotes and reading back gives the same value, in any layout, for values
that are written alike in both notations. No other string is read back from its literal. -/
theorem Source.readJson_print :
    (∀ (v : Value) (style : Style) (name : Text), (∀ w ∈ v.parts, w.isPortable) → v.depth ≤ 127 →
      style.quote = .double → ∃ e, (Expr.ofValue v).1 = some e ∧
        (⟨e.print style, name⟩ : Source).readJson = .ok v) ∧
    ∀ text name : Text, (⟨Quote.double.escape text, name⟩ : Source).readJson = .ok (.string text) ↔
      ∀ c ∈ text, Json.isShared c := by
  constructor
  next =>
    intro v style name portable shallow double
    obtain ⟨e, built, spelled⟩ := Json.spells_build style.indent v 0 127 portable shallow
    refine ⟨e, built, Source.readJson_of_read ?_⟩
    rw [Expr.print, double]
    exact Json.read_of_spells spelled
  next =>
    intro text name
    exact ⟨fun found => Json.read_escape_iff.mp (Source.readJson_ok found),
      fun shared => Source.readJson_of_read (Json.read_escape_iff.mpr shared)⟩

theorem Source.readJson_print_nested :
    let v : Value := .record
      [([], .array [.null, .number (.uint 18446744073709551615), .string "\"\x08".toList]),
        ("a\n".toList, .record [])]
    let style : Style := ⟨0, true, .double⟩
    (∀ w ∈ v.parts, w.isPortable) ∧ v.depth ≤ 127 ∧ ∃ e, (Expr.ofValue v).1 = some e ∧
      (⟨e.print style, "values.json".toList⟩ : Source).readJson = .ok v := by
  intro v style
  have portable : ∀ w ∈ v.parts, w.isPortable := by decide
  have shallow : v.depth ≤ 127 := by decide
  exact ⟨portable, shallow, readJson_print.1 v style _ portable shallow rfl⟩

end DataLiteral

import Mathlib.Algebra.Ring.Int.Defs
import DataLiteral.Proofs.Style.Setting

set_option autoImplicit false

namespace DataLiteral

open Toml (Item Key Scalar)

namespace Style

inductive NotEmpty : Item → Cause → Prop
  | table (span : Text.Span) (origin : Toml.Origin) (first : Key × Item)
      (rest : List (Key × Item)) : NotEmpty (.table span origin (first :: rest)) .tableNotEmpty
  | array (span : Text.Span) (ofTables : Bool) (first : Item) (rest : List Item) :
      NotEmpty (.array span ofTables (first :: rest)) .arrayNotEmpty
  | scalar (span : Text.Span) (found : Scalar) : NotEmpty (.scalar span found) (.notTable found)

inductive Unnamed : Item → Refusal → Prop
  | string (span : Text.Span) {name : Text} (unknown : ∀ q : Quote, name ≠ q.name) :
      Unnamed (.scalar span (.string name)) ⟨.unknownQuote name, span⟩
  | scalar (span : Text.Span) {found : Scalar} (other : ∀ name, found ≠ .string name) :
      Unnamed (.scalar span found) ⟨.quoteNotNamed, span⟩
  | array (span : Text.Span) (ofTables : Bool) (items : List Item) :
      Unnamed (.array span ofTables items) ⟨.quoteNotNamed, span⟩
  | missing (span : Text.Span) (origin : Toml.Origin) :
      Unnamed (.table span origin []) ⟨.quoteMissing, span⟩
  | repeated (span : Text.Span) (origin : Toml.Origin) (first second : Key × Item)
      (rest : List (Key × Item)) :
      Unnamed (.table span origin (first :: second :: rest)) ⟨.quoteRepeated, span⟩
  | key (span : Text.Span) (origin : Toml.Origin) {key : Key} (item : Item)
      (unknown : ∀ q : Quote, key.name ≠ q.name) :
      Unnamed (.table span origin [(key, item)]) ⟨.unknownQuote key.name, key.span⟩
  | value (span : Text.Span) (origin : Toml.Origin) {key : Key} {item : Item} {q : Quote}
      {cause : Cause} (name : key.name = q.name) (more : NotEmpty item cause) :
      Unnamed (.table span origin [(key, item)]) ⟨cause, item.span⟩

inductive Mistyped (expected : Text) : Item → Cause → Prop
  | string (span : Text.Span) (s : Text) :
      Mistyped expected (.scalar span (.string s)) (.wrongType (.string s) expected)
  | integer (span : Text.Span) {n : Int} (low : -2 ^ 127 ≤ n) (high : n < 2 ^ 128) :
      Mistyped expected (.scalar span (.integer n)) (.wrongType (.integer n) expected)
  | largeInteger (span : Text.Span) {n : Int} (outside : n < -2 ^ 127 ∨ 2 ^ 128 ≤ n) :
      Mistyped expected (.scalar span (.integer n)) .integerTooLarge
  | float (span : Text.Span) (x : Binary64) :
      Mistyped expected (.scalar span (.float x)) (.wrongType (.float x) expected)
  | largeFloat (span : Text.Span) : Mistyped expected (.scalar span .hugeFloat) .floatTooLarge
  | boolean (span : Text.Span) (b : Bool) :
      Mistyped expected (.scalar span (.boolean b)) (.wrongType (.boolean b) expected)
  | datetime (span : Text.Span) (d : Toml.Datetime) :
      Mistyped expected (.scalar span (.datetime d)) (.wrongType .map expected)
  | array (span : Text.Span) (ofTables : Bool) (items : List Item) :
      Mistyped expected (.array span ofTables items) (.wrongType .sequence expected)
  | table (span : Text.Span) (origin : Toml.Origin) (entries : List (Key × Item)) :
      Mistyped expected (.table span origin entries) (.wrongType .map expected)

/-- What an entry that is not valid is refused for, and where. -/
inductive Refuses : Key × Item → Refusal → Prop
  | key {key : Key} (item : Item) (width : key.name ≠ widthKey) (tabs : key.name ≠ tabsKey)
      (quote : key.name ≠ quoteKey) : Refuses (key, item) ⟨.unknownKey key.name, key.span⟩
  | range {key : Key} (span : Text.Span) {n : Int} (named : key.name = widthKey)
      (outside : n < 0 ∨ 255 < n) (low : -2 ^ 63 ≤ n) (high : n < 2 ^ 64) :
      Refuses (key, .scalar span (.integer n)) ⟨.widthOutOfRange n, span⟩
  | width {key : Key} {item : Item} {cause : Cause} (named : key.name = widthKey)
      (other : ∀ span n, item = .scalar span (.integer n) → n < -2 ^ 63 ∨ 2 ^ 64 ≤ n)
      (mistyped : Mistyped "u8".toList item cause) : Refuses (key, item) ⟨cause, item.span⟩
  | tabs {key : Key} {item : Item} {cause : Cause} (named : key.name = tabsKey)
      (other : ∀ span value, item ≠ .scalar span (.boolean value))
      (mistyped : Mistyped "a boolean".toList item cause) : Refuses (key, item) ⟨cause, item.span⟩
  | quote {key : Key} {item : Item} {refusal : Refusal} (named : key.name = quoteKey)
      (unnamed : Unnamed item refusal) : Refuses (key, item) refusal

def RefusedFirst (entries : List (Key × Item)) (refusal : Refusal) : Prop :=
  ∃ before entry after, entries = before ++ entry :: after ∧ IsValid before ∧ Refuses entry refusal

variable {style : Style} {key : Key} {item : Item} {entries : List (Key × Item)}
  {refusal : Refusal}

theorem readQuoteName_error_iff {name : Text} {span : Text.Span} :
    readQuoteName name span = .error refusal ↔
      (∀ q : Quote, name ≠ q.name) ∧ refusal = ⟨.unknownQuote name, span⟩ := by
  have refused {refusal : Refusal} (h : readQuoteName name span = .error refusal) :
      refusal = ⟨.unknownQuote name, span⟩ := by
    unfold readQuoteName at h
    split at h <;> cases h
    rfl
  constructor
  next =>
    intro h
    refine ⟨fun q named => ?_, refused h⟩
    cases h.symm.trans (readQuoteName_ok_iff.mpr named)
  next =>
    rintro ⟨unknown, rfl⟩
    cases read : readQuoteName name span with
    | ok q => exact absurd (readQuoteName_ok_iff.mp read) (unknown q)
    | error other => rw [refused read]

theorem checkEmpty_error_iff {q : Quote} :
    checkEmpty q item = .error refusal ↔
      ∃ cause, NotEmpty item cause ∧ refusal = ⟨cause, item.span⟩ := by
  constructor
  next =>
    intro h
    unfold checkEmpty at h
    split at h <;> cases h
    next span origin first rest => exact ⟨_, .table span origin first rest, rfl⟩
    next span ofTables first rest => exact ⟨_, .array span ofTables first rest, rfl⟩
    next span found => exact ⟨_, .scalar span found, rfl⟩
  next =>
    rintro ⟨_, _ | _ | _, rfl⟩ <;> rfl

theorem readQuote_error_iff : readQuote item = .error refusal ↔ Unnamed item refusal := by
  constructor
  next =>
    intro h
    unfold readQuote at h
    split at h
    next span name =>
      obtain ⟨unknown, rfl⟩ := readQuoteName_error_iff.mp h
      exact .string span unknown
    next span origin =>
      cases h
      exact .missing span origin
    next span origin key item =>
      split at h
      next named =>
        obtain ⟨cause, more, rfl⟩ := checkEmpty_error_iff.mp h
        exact .value span origin (readQuoteName_ok_iff.mp named) more
      next refused =>
        cases h
        obtain ⟨unknown, rfl⟩ := readQuoteName_error_iff.mp refused
        exact .key span origin item unknown
    next span origin first second rest =>
      cases h
      exact .repeated span origin first second rest
    next noString noneIn noOne noMore =>
      cases h
      cases item with
      | scalar span found => exact .scalar span fun name same => noString span name (by rw [same])
      | array span ofTables items => exact .array span ofTables items
      | table span origin entries =>
        match entries with
        | [] => exact absurd rfl (noneIn span origin)
        | [(key, item)] => exact absurd rfl (noOne span origin key item)
        | first :: second :: rest => exact absurd rfl (noMore span origin first second rest)
  next =>
    rintro (⟨span, unknown⟩ | ⟨span, other⟩ | _ | _ | _ | ⟨span, origin, item, unknown⟩ |
      ⟨span, origin, name, more⟩)
    next => exact readQuoteName_error_iff.mpr ⟨unknown, rfl⟩
    next found =>
      cases found with
      | string name => exact absurd rfl (other name)
      | _ => rfl
    next => rfl
    next => rfl
    next => rfl
    next => rw [readQuote, readQuoteName_error_iff.mpr ⟨unknown, rfl⟩]
    next =>
      rw [readQuote, readQuoteName_ok_iff.mpr name]
      exact checkEmpty_error_iff.mpr ⟨_, more, rfl⟩

theorem fitsWord_iff {n : Int} : fitsWord n ↔ -2 ^ 63 ≤ n ∧ n < 2 ^ 64 := by
  rw [fitsWord, Bool.and_eq_true, decide_eq_true_iff, decide_eq_true_iff]
  omega

theorem not_fitsWord_iff {n : Int} : ¬fitsWord n ↔ n < -2 ^ 63 ∨ 2 ^ 64 ≤ n := by
  rw [fitsWord_iff]
  omega

theorem fitsTwoWords_iff {n : Int} : fitsTwoWords n ↔ -2 ^ 127 ≤ n ∧ n < 2 ^ 128 := by
  rw [fitsTwoWords, Bool.and_eq_true, decide_eq_true_iff, decide_eq_true_iff]
  omega

theorem not_fitsTwoWords_iff {n : Int} : ¬fitsTwoWords n ↔ n < -2 ^ 127 ∨ 2 ^ 128 ≤ n := by
  rw [fitsTwoWords_iff]
  omega

theorem mistyped_mismatch (expected : Text) (item : Item) :
    Mistyped expected item (mismatch expected item) := by
  unfold mismatch
  split
  next span s => exact .string span s
  next span n =>
    split
    next fits =>
      obtain ⟨low, high⟩ := fitsTwoWords_iff.mp fits
      exact .integer span low high
    next large => exact .largeInteger span (not_fitsTwoWords_iff.mp large)
  next span x => exact .float span x
  next span => exact .largeFloat span
  next span b => exact .boolean span b
  next span d => exact .datetime span d
  next span ofTables items => exact .array span ofTables items
  next span origin entries => exact .table span origin entries

theorem Mistyped.eq_mismatch {expected : Text} {cause : Cause} (h : Mistyped expected item cause) :
    cause = mismatch expected item := by
  cases h with
  | integer span low high => rw [mismatch, if_pos (fitsTwoWords_iff.mpr ⟨low, high⟩)]
  | largeInteger span outside => rw [mismatch, if_neg (not_fitsTwoWords_iff.mpr outside)]
  | _ => rfl

theorem readWidth_error (named : key.name = widthKey) (h : readWidth item = .error refusal) :
    Refuses (key, item) refusal := by
  unfold readWidth at h
  split at h
  next span n =>
    split at h
    next => cases h
    next outside =>
      split at h
      next fits =>
        cases h
        obtain ⟨low, high⟩ := fitsWord_iff.mp fits
        exact .range span named (by omega) low high
      next large =>
        cases h
        refine .width named (fun span' n' same => ?_) (mistyped_mismatch _ _)
        cases same
        exact not_fitsWord_iff.mp large
  next other =>
    cases h
    exact .width named (fun span n same => absurd same (other span n)) (mistyped_mismatch _ _)

theorem readTabs_error (named : key.name = tabsKey) (h : readTabs item = .error refusal) :
    Refuses (key, item) refusal := by
  unfold readTabs at h
  split at h <;> cases h
  next other => exact .tabs named other (mistyped_mismatch _ _)

theorem map_error_iff {α β : Type} {read : Except Refusal α} {f : α → β} :
    read.map f = .error refusal ↔ read = .error refusal := by
  cases read <;> simp [Except.map]

theorem readSetting_error_iff :
    readSetting key item = .error refusal ↔ Refuses (key, item) refusal := by
  constructor
  next =>
    intro h
    unfold readSetting at h
    split at h
    next named => exact readWidth_error named (map_error_iff.mp h)
    split at h
    next named => exact readTabs_error named (map_error_iff.mp h)
    split at h
    next named => exact .quote named (readQuote_error_iff.mp (map_error_iff.mp h))
    next width tabs quote =>
      cases h
      exact .key item width tabs quote
  next =>
    intro h
    unfold readSetting
    cases h with
    | key item width tabs quote => rw [if_neg width, if_neg tabs, if_neg quote]
    | range span named outside low high =>
      rw [if_pos named, map_error_iff, readWidth, if_neg (by omega),
        if_pos (fitsWord_iff.mpr ⟨low, high⟩)]
    | width named other mistyped =>
      rw [if_pos named, map_error_iff, mistyped.eq_mismatch]
      unfold readWidth
      split
      next span n =>
        have outside := other span n rfl
        rw [if_neg (by omega), if_neg (not_fitsWord_iff.mpr outside)]
        rfl
      next => rfl
    | tabs named other mistyped =>
      rw [named, if_neg tabsKey_ne_widthKey, if_pos rfl, map_error_iff, mistyped.eq_mismatch]
      unfold readTabs
      split
      next span value => exact absurd rfl (other span value)
      next => rfl
    | quote named unnamed =>
      rw [named, if_neg quoteKey_ne_widthKey, if_neg quoteKey_ne_tabsKey, if_pos rfl,
        map_error_iff, readQuote_error_iff]
      exact unnamed

theorem setAll_error_iff :
    style.setAll entries = .error refusal ↔ RefusedFirst entries refusal := by
  constructor
  next =>
    intro h
    induction entries generalizing style with
    | nil => cases h
    | cons entry rest ih =>
      obtain ⟨key, item⟩ := entry
      rw [setAll, set_eq] at h
      cases read : readSetting key item with
      | error refusal' =>
        rw [read] at h
        cases h
        exact ⟨[], _, rest, rfl, List.forall_mem_nil _, readSetting_error_iff.mp read⟩
      | ok setting =>
        rw [read] at h
        obtain ⟨before, entry, after, rfl, valid, refused⟩ := ih h
        refine ⟨(key, item) :: before, entry, after, rfl, ?_, refused⟩
        exact List.forall_mem_cons.mpr ⟨⟨setting, readSetting_ok_iff.mp read⟩, valid⟩
  next =>
    rintro ⟨before, ⟨key, item⟩, after, rfl, valid, refused⟩
    induction before generalizing style with
    | nil =>
      rw [List.nil_append, setAll, set_eq, readSetting_error_iff.mpr refused]
      rfl
    | cons entry rest ih =>
      obtain ⟨⟨setting, said⟩, valid⟩ := List.forall_mem_cons.mp valid
      rw [List.cons_append, setAll, set_ok said]
      exact ih valid

theorem RefusedFirst.not_isValid (h : RefusedFirst entries refusal) : ¬IsValid entries := by
  obtain ⟨before, ⟨key, item⟩, after, rfl, _, refused⟩ := h
  intro valid
  obtain ⟨setting, said⟩ := valid (key, item) (by simp)
  cases (readSetting_ok_iff.mpr said).symm.trans (readSetting_error_iff.mpr refused)

end Style

end DataLiteral

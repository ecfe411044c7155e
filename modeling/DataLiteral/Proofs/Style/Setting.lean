import DataLiteral.Style.Reader

set_option autoImplicit false

namespace DataLiteral

open Toml (Item Key)

inductive Toml.Item.IsEmpty : Item → Prop
  | table (span : Text.Span) (origin : Toml.Origin) : IsEmpty (.table span origin [])
  | array (span : Text.Span) (ofTables : Bool) : IsEmpty (.array span ofTables [])

namespace Style

/-- An item names a quote if it is the name, or a table with nothing but an empty entry under the
name. -/
inductive Names : Item → Quote → Prop
  | string (span : Text.Span) (q : Quote) : Names (.scalar span (.string q.name)) q
  | key (span : Text.Span) (origin : Toml.Origin) {key : Key} {item : Item} {q : Quote}
      (name : key.name = q.name) (empty : item.IsEmpty) : Names (.table span origin [(key, item)]) q

inductive Setting where
  | width (value : UInt8)
  | tabs (value : Bool)
  | quote (value : Quote)
  deriving DecidableEq, Repr

namespace Setting

def key : Setting → Text
  | .width _ => widthKey
  | .tabs _ => tabsKey
  | .quote _ => quoteKey

def HoldsIn (style : Style) : Setting → Prop
  | .width value => style.indentWidth = value
  | .tabs value => style.tabs = value
  | .quote value => style.quote = value

def apply (style : Style) : Setting → Style
  | .width value => { style with indentWidth := value }
  | .tabs value => { style with tabs := value }
  | .quote value => { style with quote := value }

inductive IsGiven : Item → Setting → Prop
  | width (span : Text.Span) {n : Int} (low : 0 ≤ n) (high : n ≤ 255) :
      IsGiven (.scalar span (.integer n)) (.width (.ofNat n.toNat))
  | tabs (span : Text.Span) (value : Bool) : IsGiven (.scalar span (.boolean value)) (.tabs value)
  | quote {item : Item} {q : Quote} (names : Names item q) : IsGiven item (.quote q)

end Setting

def Says (entry : Key × Item) (setting : Setting) : Prop :=
  entry.1.name = setting.key ∧ setting.IsGiven entry.2

def IsValid (entries : List (Key × Item)) : Prop :=
  ∀ entry ∈ entries, ∃ setting, Says entry setting

/-- The default style with the settings of these entries in it. -/
structure Replaces (style : Style) (entries : List (Key × Item)) : Prop where
  given : ∀ entry ∈ entries, ∀ setting, Says entry setting → setting.HoldsIn style
  kept : ∀ setting : Setting, setting.HoldsIn default →
    (∀ entry ∈ entries, entry.1.name ≠ setting.key) → setting.HoldsIn style

section

variable {style style' : Style} {key : Key} {item : Item} {entries : List (Key × Item)}

theorem readWidth_ok_iff {width : UInt8} :
    readWidth item = .ok width ↔ Setting.IsGiven item (.width width) := by
  constructor
  next =>
    intro h
    unfold readWidth at h
    split at h
    next span n =>
      split at h
      next bounds =>
        cases h
        exact .width span bounds.1 bounds.2
      next => split at h <;> cases h
    next => cases h
  next =>
    rintro (⟨span, low, high⟩ | _)
    rw [readWidth, if_pos ⟨low, high⟩]

theorem readTabs_ok_iff {tabs : Bool} :
    readTabs item = .ok tabs ↔ Setting.IsGiven item (.tabs tabs) := by
  constructor
  next =>
    intro h
    unfold readTabs at h
    split at h <;> cases h
    exact .tabs _ _
  next =>
    rintro (_ | _)
    rfl

theorem readQuoteName_ok_iff {name : Text} {span : Text.Span} {q : Quote} :
    readQuoteName name span = .ok q ↔ name = q.name := by
  constructor
  next =>
    intro h
    unfold readQuoteName Quote.ofName? at h
    split at h
    next found =>
      cases h
      split at found
      next same => cases found; exact same
      next =>
        split at found
        next same => cases found; exact same
        next => cases found
    next => cases h
  next =>
    rintro rfl
    rw [readQuoteName, Quote.ofName?_name]

theorem checkEmpty_ok_iff {q q' : Quote} : checkEmpty q item = .ok q' ↔ q = q' ∧ item.IsEmpty := by
  constructor
  next =>
    intro h
    unfold checkEmpty at h
    split at h <;> cases h
    next span origin => exact ⟨rfl, .table span origin⟩
    next span ofTables => exact ⟨rfl, .array span ofTables⟩
  next =>
    rintro ⟨rfl, _ | _⟩ <;> rfl

theorem readQuote_ok_iff {q : Quote} : readQuote item = .ok q ↔ Names item q := by
  constructor
  next =>
    intro h
    unfold readQuote at h
    split at h
    next span name =>
      rw [readQuoteName_ok_iff.mp h]
      exact .string span q
    next => cases h
    next span origin key item =>
      split at h
      next named =>
        obtain ⟨rfl, empty⟩ := checkEmpty_ok_iff.mp h
        exact .key span origin (readQuoteName_ok_iff.mp named) empty
      next => cases h
    next => cases h
    next => cases h
  next =>
    rintro (_ | ⟨span, origin, name, empty⟩)
    next => exact readQuoteName_ok_iff.mpr rfl
    next =>
      rw [readQuote, readQuoteName_ok_iff.mpr name]
      exact checkEmpty_ok_iff.mpr ⟨rfl, empty⟩

def readSetting (key : Key) (item : Item) : Except Refusal Setting :=
  if key.name = widthKey then (readWidth item).map .width
  else if key.name = tabsKey then (readTabs item).map .tabs
  else if key.name = quoteKey then (readQuote item).map .quote
  else .error ⟨.unknownKey key.name, key.span⟩

theorem set_eq (style : Style) (key : Key) (item : Item) :
    style.set key item = (readSetting key item).map fun setting => setting.apply style := by
  unfold set readSetting
  split
  next => cases readWidth item <;> rfl
  split
  next => cases readTabs item <;> rfl
  split
  next => cases readQuote item <;> rfl
  next => rfl

theorem map_ok_iff {α β : Type} {read : Except Refusal α} {f : α → β} {b : β} :
    read.map f = .ok b ↔ ∃ a, read = .ok a ∧ f a = b := by
  cases read <;> simp [Except.map]

theorem tabsKey_ne_widthKey : tabsKey ≠ widthKey := by decide

theorem quoteKey_ne_widthKey : quoteKey ≠ widthKey := by decide

theorem quoteKey_ne_tabsKey : quoteKey ≠ tabsKey := by decide

theorem readSetting_ok_iff {setting : Setting} :
    readSetting key item = .ok setting ↔ Says (key, item) setting := by
  constructor
  next =>
    intro h
    unfold readSetting at h
    split at h
    next named =>
      obtain ⟨value, read, rfl⟩ := map_ok_iff.mp h
      exact ⟨named, readWidth_ok_iff.mp read⟩
    split at h
    next named =>
      obtain ⟨value, read, rfl⟩ := map_ok_iff.mp h
      exact ⟨named, readTabs_ok_iff.mp read⟩
    split at h
    next named =>
      obtain ⟨value, read, rfl⟩ := map_ok_iff.mp h
      exact ⟨named, .quote (readQuote_ok_iff.mp read)⟩
    next => cases h
  next =>
    rintro ⟨named, given⟩
    unfold readSetting
    dsimp only at named given
    rw [named]
    cases setting with
    | width value =>
      rw [Setting.key, if_pos rfl, readWidth_ok_iff.mpr given]
      rfl
    | tabs value =>
      rw [Setting.key, if_neg tabsKey_ne_widthKey, if_pos rfl, readTabs_ok_iff.mpr given]
      rfl
    | quote value =>
      cases given with
      | quote names =>
        rw [Setting.key, if_neg quoteKey_ne_widthKey, if_neg quoteKey_ne_tabsKey, if_pos rfl,
          readQuote_ok_iff.mpr names]
        rfl

theorem set_ok {setting : Setting} (said : Says (key, item) setting) (style : Style) :
    style.set key item = .ok (setting.apply style) := by
  rw [set_eq, readSetting_ok_iff.mpr said]
  rfl

theorem Says.unique {entry : Key × Item} {s t : Setting} (h : Says entry s) (h' : Says entry t) :
    s = t := by
  have both := (readSetting_ok_iff.mpr h).symm.trans (readSetting_ok_iff.mpr h')
  cases both
  rfl

theorem setAll_cons_ok {entry : Key × Item} (h : style.setAll (entry :: entries) = .ok style') :
    ∃ setting, Says entry setting ∧ (setting.apply style).setAll entries = .ok style' := by
  obtain ⟨key, item⟩ := entry
  rw [setAll, set_eq] at h
  cases read : readSetting key item with
  | error refusal =>
    rw [read] at h
    cases h
  | ok setting =>
    rw [read] at h
    exact ⟨setting, readSetting_ok_iff.mp read, h⟩

end

namespace Setting

variable {s t : Setting} {style : Style}

theorem holdsIn_apply (s : Setting) (style : Style) : s.HoldsIn (s.apply style) := by
  cases s <;> rfl

theorem HoldsIn.apply (h : s.HoldsIn style) (other : s.key ≠ t.key) :
    s.HoldsIn (t.apply style) := by
  cases s <;> cases t <;> first | exact absurd rfl other | exact h

theorem HoldsIn.eq (hs : s.HoldsIn style) (ht : t.HoldsIn style) (same : s.key = t.key) :
    s = t := by
  cases s <;> cases t <;>
    first
    | exact congrArg _ (hs.symm.trans ht)
    | exact absurd same (by simp only [key]; decide)

theorem exists_holdsIn (s : Setting) (style : Style) :
    ∃ t : Setting, t.key = s.key ∧ t.HoldsIn style := by
  cases s with
  | width _ => exact ⟨.width style.indentWidth, rfl, rfl⟩
  | tabs _ => exact ⟨.tabs style.tabs, rfl, rfl⟩
  | quote _ => exact ⟨.quote style.quote, rfl, rfl⟩

theorem eq_of_holdsIn {style' : Style} (h : ∀ s : Setting, s.HoldsIn style → s.HoldsIn style') :
    style = style' := by
  obtain ⟨width, tabs, quote⟩ := style'
  obtain rfl : width = style.indentWidth := (h (.width style.indentWidth) rfl)
  obtain rfl : tabs = style.tabs := h (.tabs style.tabs) rfl
  obtain rfl : quote = style.quote := h (.quote style.quote) rfl
  rfl

end Setting

end Style

end DataLiteral

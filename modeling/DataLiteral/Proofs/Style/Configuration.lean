import DataLiteral.Proofs.Style.Refusal
import DataLiteral.Proofs.Toml.Order
import DataLiteral.Source

set_option autoImplicit false

namespace DataLiteral

open Toml (Item Key Table)

namespace Toml

theorem nodup_names_of_readTable {source : Text} {table : Table}
    (h : readTable source = .ok table) : table.names.Nodup := by
  obtain ⟨statements, _, view⟩ := view_of_readTable h
  have names : table.names = placed (mentions statements) [] := by
    rw [← Table.keys_view, view]
    rfl
  rw [names]
  exact nodup_placed _ _

end Toml

namespace Style

variable {style style' : Style} {entries entries' : List (Key × Item)}

theorem holdsIn_of_setAll {s : Setting} (h : style.setAll entries = .ok style')
    (holds : s.HoldsIn style) (absent : ∀ entry ∈ entries, entry.1.name ≠ s.key) :
    s.HoldsIn style' := by
  induction entries generalizing style with
  | nil =>
    cases h
    exact holds
  | cons entry rest ih =>
    obtain ⟨t, said, later⟩ := setAll_cons_ok h
    obtain ⟨other, absent⟩ := List.forall_mem_cons.mp absent
    apply ih later _ absent
    exact holds.apply fun same => other (said.1.trans same.symm)

theorem given_of_setAll (h : style.setAll entries = .ok style')
    (distinct : (entries.map fun entry => entry.1.name).Nodup) :
    IsValid entries ∧ ∀ entry ∈ entries, ∀ s, Says entry s → s.HoldsIn style' := by
  induction entries generalizing style with
  | nil => exact ⟨List.forall_mem_nil _, List.forall_mem_nil _⟩
  | cons entry rest ih =>
    obtain ⟨t, said, later⟩ := setAll_cons_ok h
    rw [List.map_cons, List.nodup_cons] at distinct
    obtain ⟨valid, given⟩ := ih later distinct.2
    refine ⟨List.forall_mem_cons.mpr ⟨⟨t, said⟩, valid⟩, List.forall_mem_cons.mpr ⟨?_, given⟩⟩
    intro s own
    obtain rfl := own.unique said
    apply holdsIn_of_setAll later (s.holdsIn_apply style)
    intro other member same
    exact distinct.1 (said.1.trans same.symm ▸ List.mem_map_of_mem member)

theorem Replaces.unique (valid : IsValid entries) (h : style.Replaces entries)
    (h' : style'.Replaces entries) : style = style' := by
  have held {s : Setting} (holds : s.HoldsIn style) : s.HoldsIn style' := by
    by_cases present : ∃ entry ∈ entries, entry.1.name = s.key
    next =>
      obtain ⟨entry, member, name⟩ := present
      obtain ⟨t, said⟩ := valid entry member
      rw [holds.eq (h.given entry member t said) (name.symm.trans said.1)]
      exact h'.given entry member t said
    next =>
      have absent : ∀ entry ∈ entries, entry.1.name ≠ s.key :=
        fun entry member name => present ⟨entry, member, name⟩
      obtain ⟨t, same, initial⟩ := s.exists_holdsIn default
      rw [← same] at absent
      rw [holds.eq (h.kept t initial absent) same.symm]
      exact h'.kept t initial absent
  exact Setting.eq_of_holdsIn fun s => held

theorem setAll_default_iff (distinct : (entries.map fun entry => entry.1.name).Nodup) :
    default.setAll entries = .ok style ↔ IsValid entries ∧ style.Replaces entries := by
  have sound {style : Style} (h : default.setAll entries = .ok style) :
      IsValid entries ∧ style.Replaces entries := by
    obtain ⟨valid, given⟩ := given_of_setAll h distinct
    exact ⟨valid, given, fun s initial absent => holdsIn_of_setAll h initial absent⟩
  refine ⟨sound, fun ⟨valid, replaces⟩ => ?_⟩
  cases h : default.setAll entries with
  | error refusal => exact absurd valid (setAll_error_iff.mp h).not_isValid
  | ok other => rw [(sound h).2.unique valid replaces]

theorem Replaces.congr (valid : IsValid entries)
    (same : ∀ s, (∃ entry ∈ entries, Says entry s) ↔ ∃ entry ∈ entries', Says entry s)
    (h : style.Replaces entries) : style.Replaces entries' := by
  constructor
  next =>
    intro entry' member' s said'
    obtain ⟨entry, member, said⟩ := (same s).mpr ⟨entry', member', said'⟩
    exact h.given entry member s said
  next =>
    intro s initial absent
    apply h.kept s initial
    intro entry member name
    obtain ⟨t, said⟩ := valid entry member
    obtain ⟨entry', member', said'⟩ := (same t).mp ⟨entry, member, said⟩
    exact absent entry' member' (said'.1.trans (said.1.symm.trans name))

end Style

namespace Source

open Style (IsValid Says RefusedFirst)

variable {source : Source} {table : Table} {style : Style}

theorem readStyle_of_setAll (h : Toml.readTable source.text = .ok table)
    (taken : Style.default.setAll table.entries = .ok style) : source.readStyle = .ok style := by
  simp only [readStyle, Style.read, h, taken]

theorem readStyle_of_refusedFirst {refusal : Style.Refusal}
    (h : Toml.readTable source.text = .ok table) (refused : RefusedFirst table.entries refusal) :
    source.readStyle =
      .error ⟨.config, source.name, .described refusal.cause.message (some refusal.span)⟩ := by
  simp only [readStyle, Style.read, h, Style.setAll_error_iff.mpr refused]
  rfl

theorem readStyle_ok_iff (h : Toml.readTable source.text = .ok table) :
    source.readStyle = .ok style ↔ IsValid table.entries ∧ style.Replaces table.entries := by
  rw [← Style.setAll_default_iff (Toml.nodup_names_of_readTable h)]
  refine ⟨fun read => ?_, readStyle_of_setAll h⟩
  cases taken : Style.default.setAll table.entries with
  | error refusal =>
    have refused := readStyle_of_refusedFirst h (Style.setAll_error_iff.mp taken)
    cases read.symm.trans refused
  | ok other =>
    cases read.symm.trans (readStyle_of_setAll h taken)
    rfl

theorem exists_readStyle_of_isValid (h : Toml.readTable source.text = .ok table)
    (valid : IsValid table.entries) : ∃ style, source.readStyle = .ok style := by
  cases taken : Style.default.setAll table.entries with
  | error refusal => exact absurd valid (Style.setAll_error_iff.mp taken).not_isValid
  | ok style => exact ⟨style, readStyle_of_setAll h taken⟩

/-- A configuration is read if all of its entries are valid. It is the default then with these
entries in it, in whichever order they stand. Otherwise it is refused for the first entry that is
not valid, whatever follows that one. -/
theorem readStyle_of_readTable (h : Toml.readTable source.text = .ok table) :
    ((∃ style, source.readStyle = .ok style) ↔ IsValid table.entries) ∧
      (∀ style, source.readStyle = .ok style ↔
        IsValid table.entries ∧ style.Replaces table.entries) ∧
      (∀ (source' : Source) (table' : Table), Toml.readTable source'.text = .ok table' →
        IsValid table.entries → IsValid table'.entries →
        (∀ setting, (∃ entry ∈ table.entries, Says entry setting) ↔
          ∃ entry ∈ table'.entries, Says entry setting) →
        source'.readStyle = source.readStyle) ∧
      (¬IsValid table.entries ↔ ∃ refusal, RefusedFirst table.entries refusal) ∧
      ∀ refusal, RefusedFirst table.entries refusal → source.readStyle =
        .error ⟨.config, source.name, .described refusal.cause.message (some refusal.span)⟩ := by
  refine ⟨⟨?_, exists_readStyle_of_isValid h⟩, fun style => readStyle_ok_iff h, ?order,
    ⟨?refused, ?_⟩, fun refusal => readStyle_of_refusedFirst h⟩
  next =>
    rintro ⟨style, read⟩
    exact ((readStyle_ok_iff h).mp read).1
  case order =>
    intro source' table' h' valid valid' same
    obtain ⟨style, read⟩ := exists_readStyle_of_isValid h valid
    rw [read, readStyle_ok_iff h']
    exact ⟨valid', ((readStyle_ok_iff h).mp read).2.congr valid same⟩
  case refused =>
    intro invalid
    cases taken : Style.default.setAll table.entries with
    | error refusal => exact ⟨refusal, Style.setAll_error_iff.mp taken⟩
    | ok style =>
      have distinct := Toml.nodup_names_of_readTable h
      exact absurd ((Style.setAll_default_iff distinct).mp taken).1 invalid
  next =>
    rintro ⟨refusal, refused⟩
    exact refused.not_isValid

theorem readStyle_of_readTable_taken_refused :
    let named : Source := ⟨"tabs = true\nquote.single = []".toList, "printer.toml".toList⟩
    let unknown : Source :=
      ⟨"tabs = true\nbogus = 1\nx = 99999999999999999999".toList, "printer.toml".toList⟩
    (∃ table, Toml.readTable named.text = .ok table) ∧
      (∃ table, Toml.readTable unknown.text = .ok table) ∧
      named.readStyle = .ok ⟨2, true, .single⟩ ∧
      unknown.readStyle = .error ⟨.config, "printer.toml".toList,
        .described "unknown field `bogus`, expected one of `indent-width`, `tabs`, `quote`".toList
          (some ⟨12, 17⟩)⟩ := by
  intro named unknown
  have tabs : Says (⟨"tabs".toList, ⟨0, 4⟩⟩, .scalar ⟨7, 11⟩ (.boolean true)) (.tabs true) :=
    ⟨rfl, .tabs _ _⟩
  have read : Toml.readTable named.text = .ok ⟨.header,
      [(⟨"tabs".toList, ⟨0, 4⟩⟩, .scalar ⟨7, 11⟩ (.boolean true)),
        (⟨"quote".toList, ⟨12, 17⟩⟩,
          .table ⟨12, 17⟩ .dotted [(⟨"single".toList, ⟨18, 24⟩⟩, .array ⟨27, 29⟩ false [])])]⟩ := by
    cbv
  have read' : Toml.readTable unknown.text = .ok ⟨.header,
      [(⟨"tabs".toList, ⟨0, 4⟩⟩, .scalar ⟨7, 11⟩ (.boolean true)),
        (⟨"bogus".toList, ⟨12, 17⟩⟩, .scalar ⟨20, 21⟩ (.integer 1)),
        (⟨"x".toList, ⟨22, 23⟩⟩, .scalar ⟨26, 46⟩ (.integer 99999999999999999999))]⟩ := by
    cbv
  have quote : Says (⟨"quote".toList, ⟨12, 17⟩⟩,
      .table ⟨12, 17⟩ .dotted [(⟨"single".toList, ⟨18, 24⟩⟩, .array ⟨27, 29⟩ false [])])
      (.quote .single) :=
    ⟨rfl, .quote (.key _ _ rfl (.array _ _))⟩
  refine ⟨⟨_, read⟩, ⟨_, read'⟩, ((readStyle_of_readTable read).2.1 _).mpr ⟨?valid, ?given, ?kept⟩,
    (readStyle_of_readTable read').2.2.2.2 ⟨.unknownKey "bogus".toList, ⟨12, 17⟩⟩ ?refused⟩
  case valid =>
    exact List.forall_mem_cons.mpr ⟨⟨_, tabs⟩, List.forall_mem_singleton.mpr ⟨_, quote⟩⟩
  case given =>
    refine List.forall_mem_cons.mpr ⟨?_, List.forall_mem_singleton.mpr ?_⟩
    next =>
      intro s said
      obtain rfl := said.unique tabs
      rfl
    next =>
      intro s said
      obtain rfl := said.unique quote
      rfl
  case kept =>
    intro s initial absent
    obtain ⟨notTabs, notQuote⟩ := List.forall_mem_cons.mp absent
    cases s with
    | width value => exact initial
    | tabs value => exact absurd rfl notTabs
    | quote value => exact absurd rfl (notQuote _ List.mem_cons_self)
  case refused =>
    refine ⟨[_], _, [_], rfl, List.forall_mem_singleton.mpr ⟨_, tabs⟩, .key _ ?_ ?_ ?_⟩
    all_goals decide

end Source

end DataLiteral

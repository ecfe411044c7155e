import DataLiteral.Proofs.Expr.Reading
import DataLiteral.Proofs.Number.Value
import DataLiteral.Proofs.Value.Distinct
import DataLiteral.Proofs.Value.Prune

set_option autoImplicit false

namespace DataLiteral.Value

open Script

mutual

def definesPrototype : Value → Bool
  | .array items => itemsDefinePrototype items
  | .record entries => entriesDefinePrototype entries
  | _ => false

def itemsDefinePrototype : List Value → Bool
  | [] => false
  | item :: rest => item.definesPrototype || itemsDefinePrototype rest

def entriesDefinePrototype : List (Text × Value) → Bool
  | [] => false
  | (key, value) :: rest =>
      value.isDefined && (Text.units key == prototypeKey || value.definesPrototype) ||
        entriesDefinePrototype rest

end

mutual

/-- A script's datum has the content of a value: an array its defined items, an object exactly one
own property for each defined entry, in any order and with any prototype. -/
def Describes : Value → Datum → Prop
  | .undefined, _ => False
  | .null, d => d = .null
  | .boolean b, d => d = .boolean b
  | .number n, d => d = .number n.double
  | .string s, d => d = .string (Text.units s)
  | .array items, d => ∃ elements, d = .array elements ∧ DescribesItems items elements
  | .record entries, d =>
      ∃ own prototype, d = .object own prototype ∧ (own.map Prod.fst).Nodup ∧
        (∀ name ∈ own.map Prod.fst, ∃ key value, (key, value) ∈ entries ∧ value.isDefined ∧
          Text.units key = name) ∧
        DescribesEntries entries own

def DescribesItems : List Value → List Datum → Prop
  | [], elements => elements = []
  | item :: rest, elements =>
      if item.isDefined then
        ∃ d later, elements = d :: later ∧ item.Describes d ∧ DescribesItems rest later
      else DescribesItems rest elements

def DescribesEntries : List (Text × Value) → List (Units × Datum) → Prop
  | [], _ => True
  | (key, value) :: rest, own =>
      (value.isDefined → ∃ d, own.lookup (Text.units key) = some d ∧ value.Describes d) ∧
        DescribesEntries rest own

end

mutual

def datum : Value → Datum
  | .undefined => .null
  | .null => .null
  | .boolean b => .boolean b
  | .number n => .number n.double
  | .string s => .string (Text.units s)
  | .array items => .array (itemData items)
  | .record entries => make (entryData entries)

def itemData : List Value → List Datum
  | [] => []
  | item :: rest => if item.isDefined then item.datum :: itemData rest else itemData rest

def entryData : List (Text × Value) → List (Units × Datum)
  | [] => []
  | (key, value) :: rest =>
      if value.isDefined then (Text.units key, value.datum) :: entryData rest else entryData rest

end

theorem mem_entryData {name : Units} {d : Datum} {entries : List (Text × Value)} :
    (name, d) ∈ entryData entries ↔
      ∃ key value, (key, value) ∈ entries ∧ value.isDefined ∧ Text.units key = name ∧
        value.datum = d := by
  induction entries with
  | nil => simp [entryData]
  | cons entry rest ih =>
    obtain ⟨key, value⟩ := entry
    cases defined : value.isDefined with
    | false => simp only [entryData, defined, List.mem_cons]; grind
    | true => simp only [entryData, defined, if_true, ih, List.mem_cons]; grind

theorem keys_entryData_sublist (entries : List (Text × Value)) :
    ((entryData entries).map Prod.fst).Sublist ((Entries.keys entries).map Text.units) := by
  induction entries with
  | nil => exact .slnil
  | cons entry rest ih =>
    obtain ⟨key, value⟩ := entry
    rw [entryData]
    split
    · exact ih.cons_cons _
    · exact ih.cons _

theorem nodup_entryData {entries : List (Text × Value)} (h : (Entries.keys entries).Nodup) :
    ((entryData entries).map Prod.fst).Nodup :=
  (keys_entryData_sublist entries).nodup (h.map Text.units_injective)

section

variable (q : Quote)

mutual

theorem value?_build : ∀ (v : Value) (e : Expr), v.HasDistinctKeys →
    (Expr.assembly.build false v).1 = some e → e.isPaired ∧ value? (e.tree q) = some v.datum
  | .null, e, _, h => by
    cases h
    exact ⟨rfl, rfl⟩
  | .boolean b, e, _, h => by
    cases h
    exact ⟨rfl, rfl⟩
  | .number n, e, _, h => by
    cases h
    refine ⟨rfl, ?_⟩
    show (numberValue? (Number.split n.literal).1 (Number.split n.literal).2).map _ = _
    rw [Number.numberValue?_literal]
    rfl
  | .string s, e, _, h => by
    cases h
    exact ⟨rfl, rfl⟩
  | .array items, e, distinct, h => by
    cases h
    obtain ⟨paired, values⟩ := value?_buildItems items 0 distinct
    refine ⟨paired, ?_⟩
    show (elementValues? (Expr.elementTrees q _)).map _ = _
    rw [values]
    rfl
  | .record entries, e, distinct, h => by
    cases h
    obtain ⟨paired, values⟩ := value?_buildEntries entries distinct.2
    exact ⟨paired, value?_object values (nodup_entryData distinct.1)⟩

theorem value?_buildItems : ∀ (items : List Value) (index : Nat), ItemsHaveDistinctKeys items →
    Expr.areElementsPaired (Expr.assembly.buildItems index items).1 ∧
      elementValues? (Expr.elementTrees q (Expr.assembly.buildItems index items).1) =
        some (itemData items)
  | [], _, _ => ⟨rfl, rfl⟩
  | item :: rest, index, distinct => by
    obtain ⟨laterPaired, laterValues⟩ := value?_buildItems rest (index + 1) distinct.2
    have present := isSome_build Expr.assembly false item
    rw [Assembly.buildItems, itemData]
    cases built : (Expr.assembly.build false item).1 with
    | none =>
      rw [built] at present
      simp only [← present]
      exact ⟨laterPaired, laterValues⟩
    | some e =>
      obtain ⟨paired, value⟩ := value?_build item e distinct.1 built
      rw [built] at present
      simp only [← present]
      simp [Expr.areElementsPaired, Expr.elementTrees, elementValues?, paired, laterPaired, value,
        laterValues]

theorem value?_buildEntries : ∀ entries : List (Text × Value), EntriesHaveDistinctKeys entries →
    Expr.arePropertiesPaired (Expr.assembly.buildEntries entries).1 ∧
      propertyValues? (Expr.propertyTrees q (Expr.assembly.buildEntries entries).1) =
        some (entryData entries)
  | [], _ => ⟨rfl, rfl⟩
  | (key, value) :: rest, distinct => by
    obtain ⟨laterPaired, laterValues⟩ := value?_buildEntries rest distinct.2
    have present := isSome_build Expr.assembly false value
    rw [Assembly.buildEntries, entryData]
    cases built : (Expr.assembly.build false value).1 with
    | none =>
      rw [built] at present
      simp only [← present]
      exact ⟨laterPaired, laterValues⟩
    | some e =>
      obtain ⟨paired, evaluated⟩ := value?_build value e distinct.1 built
      rw [built] at present
      have property : Expr.assembly.property key e = (key, e) := rfl
      simp only [← present, property]
      simp [Expr.arePropertiesPaired, Expr.propertyTrees, propertyValues?, paired, laterPaired,
        evaluated, laterValues]

end

end

theorem lookup_of_mem {own : List (Units × Datum)} {name : Units} {d : Datum}
    (distinct : (own.map Prod.fst).Nodup) (h : (name, d) ∈ own) : own.lookup name = some d := by
  induction own with
  | nil => cases h
  | cons property rest ih =>
    obtain ⟨key, value⟩ := property
    rw [List.map_cons, List.nodup_cons] at distinct
    rcases List.mem_cons.mp h with same | member
    · cases same
      simp [List.lookup]
    · have other : name ≠ key := by
        rintro rfl
        exact distinct.1 (List.mem_map.mpr ⟨_, member, rfl⟩)
      rw [List.lookup, beq_eq_false_iff_ne.mpr other]
      exact ih distinct.2 member

theorem lookup_of_notMem {own : List (Units × Datum)} {name : Units}
    (h : name ∉ own.map Prod.fst) : own.lookup name = none := by
  rw [List.lookup_eq_none_iff]
  intro property member
  rw [bne_iff_ne]
  rintro rfl
  exact h (List.mem_map_of_mem member)

theorem lookup_entryData {entries : List (Text × Value)} (distinct : (Entries.keys entries).Nodup)
    {key : Text} {value : Value} (member : (key, value) ∈ entries) (defined : value.isDefined) :
    ((entryData entries).filter (·.1 ≠ prototypeKey)).lookup (Text.units key) =
      if Text.units key = prototypeKey then none else some value.datum := by
  split
  · next proto =>
    refine lookup_of_notMem ?_
    rw [proto]
    simp
  · next proto =>
    refine lookup_of_mem ?_ ?_
    · exact (nodup_entryData distinct).sublist (List.filter_sublist.map _)
    · refine List.mem_filter.mpr ⟨mem_entryData.mpr ⟨key, value, member, defined, rfl, rfl⟩, ?_⟩
      simpa using proto

mutual

theorem describes_datum : ∀ v : Value, v.isDefined → v.HasDistinctKeys →
    (v.Describes v.datum ↔ v.definesPrototype = false)
  | .null, _, _ => by simp [Describes, datum, definesPrototype]
  | .boolean b, _, _ => by simp [Describes, datum, definesPrototype]
  | .number n, _, _ => by simp [Describes, datum, definesPrototype]
  | .string s, _, _ => by simp [Describes, datum, definesPrototype]
  | .array items, _, distinct => by
    have each := describesItems_itemData items distinct
    simpa [Describes, datum, definesPrototype] using each
  | .record entries, _, distinct => by
    obtain ⟨prototype, made⟩ := make_eq (nodup_entryData distinct.1)
    have each := describesEntries_own entries ((entryData entries).filter (·.1 ≠ prototypeKey))
      distinct.2 fun key value member defined => lookup_entryData distinct.1 member defined
    have keys : (((entryData entries).filter (·.1 ≠ prototypeKey)).map Prod.fst).Nodup :=
      (nodup_entryData distinct.1).sublist (List.filter_sublist.map _)
    have known : ∀ name ∈ ((entryData entries).filter (·.1 ≠ prototypeKey)).map Prod.fst,
        ∃ key value, (key, value) ∈ entries ∧ value.isDefined ∧ Text.units key = name := by
      intro name member
      obtain ⟨⟨_, d⟩, kept, rfl⟩ := List.mem_map.mp member
      obtain ⟨key, value, source, defined, same, _⟩ :=
        mem_entryData.mp (List.mem_of_mem_filter kept)
      exact ⟨key, value, source, defined, same⟩
    rw [datum, made, definesPrototype, ← each, Describes]
    constructor
    · rintro ⟨own, prototype', same, _, _, bound⟩
      cases same
      exact bound
    · exact fun bound => ⟨_, _, rfl, keys, known, bound⟩

theorem describesItems_itemData : ∀ items : List Value, ItemsHaveDistinctKeys items →
    (DescribesItems items (itemData items) ↔ itemsDefinePrototype items = false)
  | [], _ => by simp [DescribesItems, itemData, itemsDefinePrototype]
  | item :: rest, distinct => by
    have later := describesItems_itemData rest distinct.2
    cases defined : item.isDefined with
    | false =>
      have undefined' : item.definesPrototype = false := by
        cases item <;> first | rfl | cases defined
      simpa [DescribesItems, itemData, itemsDefinePrototype, defined, undefined'] using later
    | true =>
      have first := describes_datum item defined distinct.1
      simp [DescribesItems, itemData, itemsDefinePrototype, defined, first, later]

theorem describesEntries_own : ∀ (entries : List (Text × Value)) (own : List (Units × Datum)),
    EntriesHaveDistinctKeys entries →
    (∀ key value, (key, value) ∈ entries → value.isDefined →
      own.lookup (Text.units key) =
        if Text.units key = prototypeKey then none else some value.datum) →
    (DescribesEntries entries own ↔ entriesDefinePrototype entries = false)
  | [], _, _, _ => by simp [DescribesEntries, entriesDefinePrototype]
  | (key, value) :: rest, own, distinct, bound => by
    have later := describesEntries_own rest own distinct.2
      fun key value member => bound key value (List.mem_cons_of_mem _ member)
    cases defined : value.isDefined with
    | false => simpa [DescribesEntries, entriesDefinePrototype, defined] using later
    | true =>
      have first := describes_datum value defined distinct.1
      have found := bound key value List.mem_cons_self defined
      by_cases proto : Text.units key = prototypeKey
      · rw [if_pos proto, proto] at found
        simp [DescribesEntries, entriesDefinePrototype, defined, found, proto]
      · simp [DescribesEntries, entriesDefinePrototype, defined, found, proto, first, later]

end

theorem evaluate_ofValue (style : Style) {v : Value} (defined : v.isDefined)
    (distinct : v.HasDistinctKeys) :
    ∃ e, (Expr.ofValue v).1 = some e ∧ evaluate (e.print style) = some v.datum := by
  have present := isSome_build Expr.assembly false v
  rw [defined] at present
  obtain ⟨e, built⟩ := Option.isSome_iff_exists.mp present
  obtain ⟨paired, evaluated⟩ := value?_build style.quote v e distinct built
  refine ⟨e, built, ?_⟩
  rw [evaluate, Expr.print, Expr.read_textAt paired]
  exact evaluated

/-- The printed literal of a value always evaluates, and to the value's content unless a record has
a defined entry under the prototype's key. -/
theorem evaluate_print (style : Style) {v : Value} (defined : v.isDefined)
    (distinct : v.HasDistinctKeys) :
    ∃ e d, (Expr.ofValue v).1 = some e ∧ evaluate (e.print style) = some d ∧
      (v.Describes d ↔ v.definesPrototype = false) := by
  obtain ⟨e, built, evaluated⟩ := evaluate_ofValue style defined distinct
  exact ⟨e, v.datum, built, evaluated, describes_datum v defined distinct⟩

theorem evaluate_print_nested :
    let v : Value := .record [("a".toList, .array [.undefined, .record [("b".toList, .null)]]),
      ("__proto__".toList, .undefined)]
    v.isDefined ∧ v.HasDistinctKeys ∧ ∃ e d, (Expr.ofValue v).1 = some e ∧
      evaluate (e.print .default) = some d ∧ v.Describes d := by
  intro v
  have distinct : v.HasDistinctKeys :=
    ⟨by decide, ⟨trivial, ⟨by decide, trivial, trivial⟩, trivial⟩, trivial, trivial⟩
  obtain ⟨e, d, built, evaluated, content⟩ := evaluate_print .default rfl distinct
  exact ⟨rfl, distinct, e, d, built, evaluated, content.mpr rfl⟩

theorem evaluate_print_prototype :
    let v : Value := .record [("__proto__".toList, .number (.int 1))]
    v.isDefined ∧ v.HasDistinctKeys ∧ ∃ e, (Expr.ofValue v).1 = some e ∧
      evaluate (e.print .default) = some (.object [] none) ∧
      ¬v.Describes (.object [] none) := by
  intro v
  have distinct : v.HasDistinctKeys := ⟨by decide, trivial, trivial⟩
  obtain ⟨e, built, evaluated⟩ := evaluate_ofValue .default rfl distinct
  refine ⟨rfl, distinct, e, built, evaluated, fun described => ?_⟩
  have content := (describes_datum v rfl distinct).mp described
  exact absurd content (by decide)

end DataLiteral.Value

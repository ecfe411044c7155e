import DataLiteral.Proofs.Json.Members
import DataLiteral.Proofs.Toml.Keys

set_option autoImplicit false

namespace DataLiteral

namespace Value

/-- The values that can be obtained: records are made of entries or decoded. -/
inductive Obtained : Value → Prop
  | undefined : Obtained .undefined
  | null : Obtained .null
  | boolean (value : Bool) : Obtained (.boolean value)
  | number (value : Number) : Obtained (.number value)
  | string (value : Text) : Obtained (.string value)
  | array {items : List Value} (each : ∀ item ∈ items, Obtained item) : Obtained (.array items)
  | record {entries : Entries Value} (each : ∀ entry ∈ entries, Obtained entry.2) :
      Obtained (.ofEntries entries)
  | json {source : Source} {v : Value} (read : source.readJson = .ok v) : Obtained v
  | toml {source : Source} {v : Value} (read : source.readToml = .ok v) : Obtained v

theorem hasDistinctKeys_ofEntries {entries : Entries Value}
    (h : ∀ entry ∈ entries, entry.2.HasDistinctKeys) : (ofEntries entries).HasDistinctKeys := by
  refine ⟨Entries.nodup_keys_collect entries, entriesHaveDistinctKeys_iff.mpr ?_⟩
  exact fun entry member => h entry (Entries.mem_of_mem_collect member)

theorem hasDistinctKeys_of_scalar {v : Value} (leaf : Json.IsScalar v) : v.HasDistinctKeys := by
  cases leaf <;> trivial

theorem hasDistinctKeys_of_readJson {source : Source} {v : Value}
    (h : source.readJson = .ok v) : v.HasDistinctKeys := by
  refine Json.read_induction (P := fun _ v => v.HasDistinctKeys)
    (fun _ _ leaf => hasDistinctKeys_of_scalar leaf)
    (fun _ _ => itemsHaveDistinctKeys_iff.mpr) (fun _ _ => hasDistinctKeys_ofEntries)
    (Source.readJson_ok h)

mutual

theorem hasDistinctKeys_of_at? : ∀ {v : Value},
    (∀ address entries, v.at? address = some (.record entries) → (Entries.keys entries).Nodup) →
      v.HasDistinctKeys
  | .array items, h => by
    refine itemsHaveDistinctKeys_of_at? fun item member address entries found => ?_
    obtain ⟨index, own⟩ := List.mem_iff_getElem?.mp member
    have child : (Value.array items).child? (.item index) = some item := own
    exact h (.item index :: address) entries ((at?_of_child? child address).trans found)
  | .record entries, h => by
    have distinct := h [] entries rfl
    refine ⟨distinct, entriesHaveDistinctKeys_of_at? fun entry member address inner found => ?_⟩
    have child : (Value.record entries).child? (.entry entry.1) = some entry.2 :=
      Entries.find?_of_mem distinct member
    exact h (.entry entry.1 :: address) inner ((at?_of_child? child address).trans found)
  | .undefined, _ | .null, _ | .boolean _, _ | .number _, _ | .string _, _ => trivial

theorem itemsHaveDistinctKeys_of_at? : ∀ {items : List Value},
    (∀ item ∈ items, ∀ address entries, item.at? address = some (.record entries) →
      (Entries.keys entries).Nodup) → ItemsHaveDistinctKeys items
  | [], _ => trivial
  | _ :: _, h =>
    have ⟨first, later⟩ := List.forall_mem_cons.mp h
    ⟨hasDistinctKeys_of_at? first, itemsHaveDistinctKeys_of_at? later⟩

theorem entriesHaveDistinctKeys_of_at? : ∀ {entries : List (Text × Value)},
    (∀ entry ∈ entries, ∀ address inner, entry.2.at? address = some (.record inner) →
      (Entries.keys inner).Nodup) → EntriesHaveDistinctKeys entries
  | [], _ => trivial
  | _ :: _, h =>
    have ⟨first, later⟩ := List.forall_mem_cons.mp h
    ⟨hasDistinctKeys_of_at? first, entriesHaveDistinctKeys_of_at? later⟩

end

theorem hasDistinctKeys_of_readToml {source : Source} {v : Value}
    (h : source.readToml = .ok v) : v.HasDistinctKeys := by
  obtain ⟨statements, _, keys⟩ := Toml.keys_at_of_read (Source.readToml_ok h)
  refine hasDistinctKeys_of_at? fun address entries found => ?_
  rw [keys address entries found]
  exact Toml.nodup_placed _ address

theorem Obtained.hasDistinctKeys {v : Value} (h : v.Obtained) : v.HasDistinctKeys := by
  induction h with
  | undefined | null | boolean | number | string => trivial
  | array _ ih => exact itemsHaveDistinctKeys_iff.mpr ih
  | record _ ih => exact hasDistinctKeys_ofEntries ih
  | json read => exact hasDistinctKeys_of_readJson read
  | toml read => exact hasDistinctKeys_of_readToml read

section

variable {entries : List (Text × Value)}

mutual

theorem nodup_of_mem_parts : ∀ {v : Value}, v.HasDistinctKeys → .record entries ∈ v.parts →
    (Entries.keys entries).Nodup
  | .array items, h, member => by
    rcases List.mem_cons.mp member with same | inside
    next => cases same
    next => exact nodup_of_mem_innerItems h inside
  | .record own, h, member => by
    rcases List.mem_cons.mp member with same | inside
    next =>
      cases same
      exact h.1
    next => exact nodup_of_mem_innerEntries h.2 inside
  | .undefined, _, member | .null, _, member | .boolean _, _, member | .number _, _, member
  | .string _, _, member => by
    cases List.mem_singleton.mp member

theorem nodup_of_mem_innerItems : ∀ {items : List Value}, ItemsHaveDistinctKeys items →
    .record entries ∈ innerItems items → (Entries.keys entries).Nodup
  | item :: rest, h, member => by
    rw [innerItems, ← List.cons_append] at member
    rcases List.mem_append.mp member with first | later
    next => exact nodup_of_mem_parts h.1 first
    next => exact nodup_of_mem_innerItems h.2 later

theorem nodup_of_mem_innerEntries : ∀ {others : List (Text × Value)},
    EntriesHaveDistinctKeys others → .record entries ∈ innerEntries others →
      (Entries.keys entries).Nodup
  | (_, value) :: rest, h, member => by
    rw [innerEntries, ← List.cons_append] at member
    rcases List.mem_append.mp member with first | later
    next => exact nodup_of_mem_parts h.1 first
    next => exact nodup_of_mem_innerEntries h.2 later

end

end

theorem keys_pruneEntries (entries : List (Text × Value)) :
    Entries.keys (pruneEntries entries) =
      Entries.keys (entries.filter fun entry => entry.2.isDefined) := by
  simp [pruneEntries_eq, Entries.keys]

end Value

namespace Expr

theorem keys_propertyValues (properties : List (Text × Expr)) :
    Entries.keys (propertyValues properties) = Entries.keys properties := by
  induction properties with
  | nil => rfl
  | cons property rest ih => exact congrArg (property.1 :: ·) ih

def HasKeysOf (part : Expr) (v : Value) : Prop :=
  ∀ properties multiLine, part = .object properties multiLine →
    (Entries.keys properties).Nodup ∧
      ∃ entries, v = .record entries ∧
        Entries.keys properties = Entries.keys (entries.filter fun entry => entry.2.isDefined)

theorem hasKeysOf_of_value {part : Expr} {v : Value} (content : part.value = v.prune)
    (distinct : ∀ entries, v = .record entries → (Entries.keys entries).Nodup) :
    part.HasKeysOf v := by
  rintro properties multiLine rfl
  cases v with
  | record entries =>
    have same := congrArg Entries.keys (Value.record.inj content)
    rw [keys_propertyValues, Value.keys_pruneEntries] at same
    refine ⟨?_, entries, rfl, same⟩
    rw [same]
    exact (distinct entries rfl).sublist (List.filter_sublist.map Prod.fst)
  | undefined | null | boolean | number | string | array => cases content

theorem hasKeysOf_parts {v : Value} {e : Expr} (distinct : v.HasDistinctKeys)
    (built : (ofValue v).1 = some e) :
    List.Forall₂ (fun w part => part.HasKeysOf w) (v.parts.filter Value.isDefined) e.parts := by
  obtain ⟨whole, inside⟩ := isLiteral_build false v e built
  have present : v.isDefined := Value.isDefined_of_build built
  have each {w : Value} {part : Expr} (member : w ∈ v.parts) (content : part.value = w.prune) :
      part.HasKeysOf w := by
    refine hasKeysOf_of_value content ?_
    rintro entries rfl
    exact Value.nodup_of_mem_parts distinct member
  rw [Value.parts, List.filter_cons_of_pos present]
  refine .cons (each v.self_mem_parts whole.content) ?_
  rw [RestateAll] at inside
  rw [List.forall₂_iff_get] at inside ⊢
  refine ⟨inside.1, fun i low high => each ?_ (inside.2 i low high).content⟩
  exact List.mem_cons_of_mem v (List.mem_of_mem_filter (List.get_mem _ _))

end Expr

/-- A record has the keys of its entries, each where it comes first and with the value that comes
last, and so has an object of a document, whatever the keys and values are written like. No record
that can be obtained has a key twice at any depth, and neither has any object of its literal, where
the keys of what is left stand in their order. -/
theorem Value.keys_of_obtained :
    (∀ entries : Entries Value, ∃ kept, ofEntries entries = .record kept ∧
      Entries.keys kept = (Entries.keys entries).eraseDups ∧
        ∀ key, Entries.find? key kept = Entries.find? key entries.reverse) ∧
    (∀ (members : List (Text × Text)) (entries : Entries Value) (name : Text),
      List.Forall₂ (fun member entry =>
        (⟨member.1, name⟩ : Source).readJson = .ok (.string entry.1) ∧
          (⟨'[' :: (member.2 ++ [']']), name⟩ : Source).readJson = .ok (.array [entry.2]))
        members entries →
      (⟨Json.objectText members, name⟩ : Source).readJson = .ok (ofEntries entries)) ∧
    ∀ v : Value, v.Obtained → v.HasDistinctKeys ∧
      ∀ e, (Expr.ofValue v).1 = some e →
        List.Forall₂ (fun w part => part.HasKeysOf w) (v.parts.filter isDefined) e.parts := by
  refine ⟨fun entries => ?_, fun members entries name each => ?_, fun v obtained => ?_⟩
  next =>
    exact ⟨_, rfl, Entries.keys_collect entries, fun key => Entries.find?_collect key entries⟩
  next =>
    have read : Json.read (Json.objectText members) = .ok (ofEntries entries) :=
      Json.read_objectText (each.imp fun _ _ both =>
        ⟨Source.readJson_ok both.1, Source.readJson_ok both.2⟩)
    rw [Source.readJson, read]
  next =>
    have distinct := obtained.hasDistinctKeys
    exact ⟨distinct, fun e built => Expr.hasKeysOf_parts distinct built⟩

theorem Value.keys_of_obtained_by_turns :
    let name := "values.json".toList
    let members : List (Text × Text) :=
      [("\"b\"".toList, "1".toList), (" \"a\" ".toList, " 2".toList),
        ("\"\\u0062\"".toList, "[]".toList), ("\"a\"".toList, "3".toList)]
    let decoded : Value := .record [(['b'], .array []), (['a'], .number (.int 3))]
    let v : Value := ofEntries [(['x'], .undefined), (['y'], decoded)]
    (⟨Json.objectText members, name⟩ : Source).readJson = .ok decoded ∧ v.Obtained ∧
      v.HasDistinctKeys ∧ ∃ e, (Expr.ofValue v).1 = some e ∧
        List.Forall₂ (fun w part => part.HasKeysOf w) (v.parts.filter isDefined) e.parts := by
  intro name members decoded v
  have each : List.Forall₂ (fun member entry =>
      (⟨member.1, name⟩ : Source).readJson = .ok (.string entry.1) ∧
        (⟨'[' :: (member.2 ++ [']']), name⟩ : Source).readJson = .ok (.array [entry.2]))
      members [(['b'], Value.number (.int 1)), (['a'], .number (.int 2)), (['b'], .array []),
        (['a'], .number (.int 3))] :=
    .cons ⟨by cbv, by cbv⟩ (.cons ⟨by cbv, by cbv⟩ (.cons ⟨by cbv, by cbv⟩
      (.cons ⟨by cbv, by cbv⟩ .nil)))
  have read : (⟨Json.objectText members, name⟩ : Source).readJson = .ok decoded :=
    keys_of_obtained.2.1 members _ name each
  have obtained : v.Obtained := by
    refine .record (List.forall_mem_cons.mpr ⟨.undefined, ?_⟩)
    exact List.forall_mem_singleton.mpr (.json read)
  obtain ⟨distinct, literal⟩ := keys_of_obtained.2.2 v obtained
  exact ⟨read, obtained, distinct, _, rfl, literal _ rfl⟩

end DataLiteral

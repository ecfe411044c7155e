import DataLiteral.Proofs.Expr.Restating

set_option autoImplicit false

namespace DataLiteral.Value

@[elab_as_elim]
theorem inductionOn {P : Value → Prop} (v : Value) (undefined : P .undefined) (null : P .null)
    (boolean : ∀ b, P (.boolean b)) (number : ∀ n, P (.number n)) (string : ∀ s, P (.string s))
    (array : ∀ items, (∀ item ∈ items, P item) → P (.array items))
    (record : ∀ entries, (∀ entry ∈ entries, P entry.2) → P (.record entries)) : P v :=
  @Value.rec P (fun items => ∀ item ∈ items, P item) (fun entries => ∀ entry ∈ entries, P entry.2)
    (fun entry => P entry.2) undefined null boolean number string array record
    (List.forall_mem_nil P) (fun _ _ first later => List.forall_mem_cons.mpr ⟨first, later⟩)
    (List.forall_mem_nil _) (fun _ _ first later => List.forall_mem_cons.mpr ⟨first, later⟩)
    (fun _ _ inside => inside) v

def parts (v : Value) : List Value :=
  v :: v.inner

mutual

def depth : Value → Nat
  | .array items => depthItems items + 1
  | .record entries => depthEntries entries + 1
  | _ => 0

def depthItems : List Value → Nat
  | [] => 0
  | item :: rest => max item.depth (depthItems rest)

def depthEntries : List (Text × Value) → Nat
  | [] => 0
  | (_, value) :: rest => max value.depth (depthEntries rest)

end

theorem depthItems_le_iff {items : List Value} {n : Nat} :
    depthItems items ≤ n ↔ ∀ item ∈ items, item.depth ≤ n := by
  induction items with
  | nil => simp [depthItems]
  | cons item rest ih => rw [depthItems, Nat.max_le, ih, List.forall_mem_cons]

theorem depthEntries_le_iff {entries : List (Text × Value)} {n : Nat} :
    depthEntries entries ≤ n ↔ ∀ entry ∈ entries, entry.2.depth ≤ n := by
  induction entries with
  | nil => simp [depthEntries]
  | cons entry rest ih => rw [depthEntries, Nat.max_le, ih, List.forall_mem_cons]

theorem innerItems_eq (items : List Value) : innerItems items = items.flatMap parts := by
  induction items with
  | nil => rfl
  | cons item rest ih => simp [innerItems, parts, ih]

theorem innerEntries_eq (entries : List (Text × Value)) :
    innerEntries entries = entries.flatMap fun entry => entry.2.parts := by
  induction entries with
  | nil => rfl
  | cons entry rest ih => simp [innerEntries, parts, ih]

section

variable {p : Value → Prop} {v w : Value} {items : List Value} {entries : List (Text × Value)}

theorem forall_innerItems_iff :
    (∀ w ∈ innerItems items, p w) ↔ ∀ item ∈ items, ∀ w ∈ item.parts, p w := by
  simp only [innerItems_eq, List.mem_flatMap]
  exact ⟨fun h item member w inside => h w ⟨item, member, inside⟩,
    fun h w ⟨item, member, inside⟩ => h item member w inside⟩

theorem forall_innerEntries_iff :
    (∀ w ∈ innerEntries entries, p w) ↔ ∀ entry ∈ entries, ∀ w ∈ entry.2.parts, p w := by
  simp only [innerEntries_eq, List.mem_flatMap]
  exact ⟨fun h entry member w inside => h w ⟨entry, member, inside⟩,
    fun h w ⟨entry, member, inside⟩ => h entry member w inside⟩

theorem forall_parts_array :
    (∀ w ∈ (array items).parts, p w) ↔
      p (.array items) ∧ ∀ item ∈ items, ∀ w ∈ item.parts, p w := by
  rw [parts, List.forall_mem_cons, inner, forall_innerItems_iff]

theorem forall_parts_record :
    (∀ w ∈ (record entries).parts, p w) ↔
      p (.record entries) ∧ ∀ entry ∈ entries, ∀ w ∈ entry.2.parts, p w := by
  rw [parts, List.forall_mem_cons, inner, forall_innerEntries_iff]

theorem self_mem_parts (v : Value) : v ∈ v.parts :=
  List.mem_cons_self

end

mutual

theorem parts_subset : ∀ {v w : Value}, w ∈ v.parts → w.parts ⊆ v.parts
  | .array items, w, h => by
    rcases List.mem_cons.mp h with rfl | inside
    next => exact List.Subset.refl _
    next => exact List.subset_cons_of_subset _ (parts_subset_items inside)
  | .record entries, w, h => by
    rcases List.mem_cons.mp h with rfl | inside
    next => exact List.Subset.refl _
    next => exact List.subset_cons_of_subset _ (parts_subset_entries inside)
  | .undefined, _, h | .null, _, h | .boolean _, _, h | .number _, _, h | .string _, _, h => by
    rw [List.mem_singleton.mp h]
    exact List.Subset.refl _

theorem parts_subset_items : ∀ {items : List Value} {w : Value}, w ∈ innerItems items →
    w.parts ⊆ innerItems items
  | item :: rest, w, h => by
    rw [innerItems, ← List.cons_append] at h ⊢
    rcases List.mem_append.mp h with first | later
    next => exact List.subset_append_of_subset_left _ (parts_subset first)
    next => exact List.subset_append_of_subset_right _ (parts_subset_items later)

theorem parts_subset_entries : ∀ {entries : List (Text × Value)} {w : Value},
    w ∈ innerEntries entries → w.parts ⊆ innerEntries entries
  | (key, value) :: rest, w, h => by
    rw [innerEntries, ← List.cons_append] at h ⊢
    rcases List.mem_append.mp h with first | later
    next => exact List.subset_append_of_subset_left _ (parts_subset first)
    next => exact List.subset_append_of_subset_right _ (parts_subset_entries later)

end

end DataLiteral.Value

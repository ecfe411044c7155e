import DataLiteral.Proofs.Value.Parts

set_option autoImplicit false

namespace DataLiteral

def Expr.parts (e : Expr) : List Expr :=
  e :: e.inner

namespace Value

/-- A value that becomes a literal as a whole: nothing in it is dropped, and each value in it has
one expression of its own, in the same order, which states that value. -/
def ConvertsWhole (v : Value) : Prop :=
  ∃ e, Expr.ofValue v = (some e, []) ∧
    List.Forall₂ (fun w part => part.value = w) v.parts e.parts

mutual

theorem prune_eq_self : ∀ {v : Value}, (∀ w ∈ v.parts, w.isDefined) → v.prune = v
  | .array _, h => congrArg Value.array (pruneItems_eq_self (forall_parts_array.mp h).2)
  | .record _, h => congrArg Value.record (pruneEntries_eq_self (forall_parts_record.mp h).2)
  | .undefined, _ | .null, _ | .boolean _, _ | .number _, _ | .string _, _ => rfl

theorem pruneItems_eq_self : ∀ {items : List Value},
    (∀ item ∈ items, ∀ w ∈ item.parts, w.isDefined) → pruneItems items = items
  | [], _ => rfl
  | item :: rest, h => by
    obtain ⟨first, later⟩ := List.forall_mem_cons.mp h
    rw [pruneItems, if_pos (first item item.self_mem_parts), prune_eq_self first,
      pruneItems_eq_self later]

theorem pruneEntries_eq_self : ∀ {entries : List (Text × Value)},
    (∀ entry ∈ entries, ∀ w ∈ entry.2.parts, w.isDefined) → pruneEntries entries = entries
  | [], _ => rfl
  | (key, value) :: rest, h => by
    obtain ⟨first, later⟩ := List.forall_mem_cons.mp h
    rw [pruneEntries, if_pos (first value value.self_mem_parts), prune_eq_self first,
      pruneEntries_eq_self later]

end

section

variable {ν π : Type} (A : Assembly ν π)

theorem build_fst_of_defined {v : Value} (h : v.isDefined) (verbatim : Bool) :
    ∃ node, (A.build verbatim v).1 = some node := by
  rw [← Option.isSome_iff_exists, isSome_build, h]

mutual

theorem build_snd_eq_nil (verbatim : Bool) : ∀ {v : Value}, (∀ w ∈ v.parts, w.isDefined) →
    (A.build verbatim v).2 = []
  | .array _, h => buildItems_snd_eq_nil 0 (forall_parts_array.mp h).2
  | .record _, h => buildEntries_snd_eq_nil (forall_parts_record.mp h).2
  | .undefined, _ | .null, _ | .boolean _, _ | .number _, _ | .string _, _ => rfl

theorem buildItems_snd_eq_nil (index : Nat) : ∀ {items : List Value},
    (∀ item ∈ items, ∀ w ∈ item.parts, w.isDefined) → (A.buildItems index items).2 = []
  | [], _ => rfl
  | item :: rest, h => by
    obtain ⟨first, later⟩ := List.forall_mem_cons.mp h
    obtain ⟨node, built⟩ := build_fst_of_defined A (first item item.self_mem_parts) false
    simp only [Assembly.buildItems, built, build_snd_eq_nil false first,
      buildItems_snd_eq_nil (index + 1) later, List.append_nil]

theorem buildEntries_snd_eq_nil : ∀ {entries : List (Text × Value)},
    (∀ entry ∈ entries, ∀ w ∈ entry.2.parts, w.isDefined) → (A.buildEntries entries).2 = []
  | [], _ => rfl
  | (key, value) :: rest, h => by
    obtain ⟨first, later⟩ := List.forall_mem_cons.mp h
    obtain ⟨node, built⟩ := build_fst_of_defined A (first value value.self_mem_parts) false
    simp only [Assembly.buildEntries, built, build_snd_eq_nil false first,
      buildEntries_snd_eq_nil later, List.append_nil]

end

end

theorem convertsWhole_of_defined {v : Value} (h : ∀ w ∈ v.parts, w.isDefined) :
    v.ConvertsWhole := by
  obtain ⟨e, built⟩ := build_fst_of_defined Expr.assembly (h v v.self_mem_parts) false
  obtain ⟨whole, inside⟩ := Expr.isLiteral_build false v e built
  have states {w : Value} {part : Expr} (member : w ∈ v.parts)
      (content : part.value = w.prune) : part.value = w := by
    rw [content]
    exact prune_eq_self fun x within => h x (parts_subset member within)
  have all : v.inner.filter isDefined = v.inner :=
    List.filter_eq_self.mpr fun w member => h w (List.mem_cons_of_mem v member)
  refine ⟨e, Prod.ext built (build_snd_eq_nil Expr.assembly false h), ?_⟩
  refine .cons (states v.self_mem_parts whole.content) ?_
  rw [Expr.RestateAll, all] at inside
  rw [List.forall₂_iff_get] at inside ⊢
  refine ⟨inside.1, fun i low high => ?_⟩
  exact states (List.mem_cons_of_mem v (List.get_mem _ _)) (inside.2 i low high).content

end Value

end DataLiteral

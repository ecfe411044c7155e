import Mathlib.Logic.Relation
import DataLiteral.Proofs.Value.Equality

set_option autoImplicit false

namespace DataLiteral.Value

open List (Forall₂)
open Relation (ReflTransGen)
open Entries (Pairs)

/-- One change that equality does not see: the entries of a record are put in another order, or a
zero takes the other sign, at any depth. -/
inductive Change : Value → Value → Prop
  | reorder {entries changed : List (Text × Value)} (perm : entries.Perm changed) :
      Change (.record entries) (.record changed)
  | negate {x : Binary64} (zero : x.isZero) : Change (.number (.float x)) (.number (.float x.neg))
  | item {v w : Value} (before after : List Value) (inside : Change v w) :
      Change (.array (before ++ v :: after)) (.array (before ++ w :: after))
  | entry {v w : Value} (key : Text) (before after : List (Text × Value)) (inside : Change v w) :
      Change (.record (before ++ (key, v) :: after)) (.record (before ++ (key, w) :: after))

section

variable {α : Type} {before after : List α} {x y : α}

theorem forall_mem_exchange {p : α → Prop} (each : ∀ z ∈ before ++ x :: after, p z) (h : p y) :
    ∀ z ∈ before ++ y :: after, p z := by
  simp only [List.forall_mem_append, List.forall_mem_cons] at each ⊢
  exact ⟨each.1, h, each.2.2⟩

theorem forall₂_exchange {R : α → α → Prop} (self : ∀ z ∈ before ++ x :: after, R z z)
    (h : R x y) : Forall₂ R (before ++ x :: after) (before ++ y :: after) := by
  simp only [List.forall_mem_append, List.forall_mem_cons] at self
  exact List.rel_append (List.forall₂_same.mpr self.1) (.cons h (List.forall₂_same.mpr self.2.2))

end

section

variable {items : List Value} {entries : List (Text × Value)}

theorem same_items (distinct : (array items).HasDistinctKeys) (number : (array items).HasNoNaN) :
    ∀ item ∈ items, item.same item :=
  List.forall₂_same.mp (same_array_iff.mp ((same_self_iff distinct).mpr number))

theorem pairs_entries (distinct : (record entries).HasDistinctKeys)
    (number : (record entries).HasNoNaN) :
    ∀ entry ∈ entries, Pairs (fun x y => x.same y) entry entry := by
  intro entry member
  have inside := entriesHaveDistinctKeys_iff.mp distinct.2 entry member
  exact ⟨rfl, (same_self_iff inside).mpr (hasNoNaN_record.mp number entry member)⟩

end

variable {v w : Value}

theorem same_of_change (change : Change v w) (distinct : v.HasDistinctKeys) (number : v.HasNoNaN) :
    v.same w ∧ w.HasDistinctKeys := by
  induction change with
  | reorder perm =>
    have each := entriesHaveDistinctKeys_iff.mp distinct.2
    have pairs := List.forall₂_same.mpr (pairs_entries distinct number)
    refine ⟨(same_record_iff_perm distinct.1).mpr ⟨_, pairs, perm⟩,
      (perm.map Prod.fst).nodup distinct.1, entriesHaveDistinctKeys_iff.mpr ?_⟩
    exact fun entry member => each entry (perm.symm.subset member)
  | negate zero => exact ⟨Binary64.same_neg zero, trivial⟩
  | item before after _ ih =>
    have each := itemsHaveDistinctKeys_iff.mp distinct
    obtain ⟨equal, distinct'⟩ := ih (each _ List.mem_append_cons_self)
      (hasNoNaN_array.mp number _ List.mem_append_cons_self)
    exact ⟨same_array_iff.mpr (forall₂_exchange (same_items distinct number) equal),
      itemsHaveDistinctKeys_iff.mpr (forall_mem_exchange each distinct')⟩
  | @entry x y key before after _ ih =>
    have each := entriesHaveDistinctKeys_iff.mp distinct.2
    obtain ⟨equal, distinct'⟩ := ih (each _ List.mem_append_cons_self)
      (hasNoNaN_record.mp number _ List.mem_append_cons_self)
    have pair : Pairs (fun x y => x.same y) (key, x) (key, y) := ⟨rfl, equal⟩
    have pairs := forall₂_exchange (pairs_entries distinct number) pair
    have keys := Entries.keys_eq_of_pairs pairs
    exact ⟨(same_record_iff_perm distinct.1).mpr ⟨_, pairs, .refl _⟩, keys ▸ distinct.1,
      entriesHaveDistinctKeys_iff.mpr (forall_mem_exchange each distinct')⟩

theorem same_of_changes (changes : ReflTransGen Change v w) (distinct : v.HasDistinctKeys)
    (number : v.HasNoNaN) : v.same w ∧ w.HasDistinctKeys := by
  induction changes with
  | refl => exact ⟨(same_self_iff distinct).mpr number, distinct⟩
  | tail _ change ih =>
    obtain ⟨equal, distinct'⟩ := ih
    have self := same_trans distinct' (same_symm distinct equal) equal
    obtain ⟨next, distinct''⟩ := same_of_change change distinct' ((same_self_iff distinct').mp self)
    exact ⟨same_trans distinct equal next, distinct''⟩

theorem changes_of_forall₂ {α : Type} {r : α → α → Prop} {whole : List α → Value}
    (lift : ∀ before after x y, r x y →
      Change (whole (before ++ x :: after)) (whole (before ++ y :: after)))
    {xs ys : List α} (h : Forall₂ (ReflTransGen r) xs ys) :
    ReflTransGen Change (whole xs) (whole ys) := by
  have each (before : List α) :
      ReflTransGen Change (whole (before ++ xs)) (whole (before ++ ys)) := by
    induction h generalizing before with
    | nil => exact .refl
    | @cons x y xs ys changes _ ih =>
      have first := changes.lift (fun z => whole (before ++ z :: xs)) (lift before xs) _ _
      have later := ih (before ++ [y])
      simp only [List.append_assoc, List.singleton_append] at later
      exact first.trans later
  exact each []

theorem changes_of_same (distinct : v.HasDistinctKeys) (h : v.same w) :
    ReflTransGen Change v w := by
  refine same_induction (P := ReflTransGen Change) .refl .refl (fun _ => .refl) ?_
    (fun _ => .refl) ?_ ?_ distinct h
  next =>
    intro m n equal
    rcases Number.eq_or_neg_of_same equal with rfl | ⟨x, zero, rfl, rfl⟩
    next => exact .refl
    next => exact .single (.negate zero)
  next =>
    intro items others pairs
    exact changes_of_forall₂ (fun before after _ _ => .item before after) pairs
  next =>
    intro entries paired changed _ pairs perm
    have inside : ReflTransGen Change (.record entries) (.record paired) := by
      refine changes_of_forall₂ (r := Pairs Change) ?_ ?_
      next =>
        rintro before after ⟨key, x⟩ ⟨_, y⟩ ⟨rfl, change⟩
        exact .entry key before after change
      next =>
        refine pairs.imp ?_
        rintro ⟨key, x⟩ ⟨_, y⟩ ⟨rfl, changes⟩
        exact changes.lift (Prod.mk key) (fun _ _ change => ⟨rfl, change⟩) _ _
    exact inside.tail (.reorder perm)

/-- Equality of values is symmetric and transitive, and reflexive where no number is a NaN. There,
values are equal when changes of the order of entries and of the sign of zeros, at any depth, lead
from one to the other. Numbers of two kinds are never equal. -/
theorem same_equivalence :
    (∀ v w : Value, v.HasDistinctKeys → v.same w → w.same v) ∧
    (∀ u v w : Value, u.HasDistinctKeys → u.same v → v.same w → u.same w) ∧
    (∀ v : Value, v.HasDistinctKeys → (v.same v ↔ v.HasNoNaN)) ∧
    (∀ v w : Value, v.HasDistinctKeys → v.HasNoNaN → (v.same w ↔ ReflTransGen Change v w)) ∧
    ∀ (i : Int64) (n : UInt64) (x : Binary64),
      [Number.int i, .uint n, .float x].Pairwise fun a b =>
        (number a).same (number b) = false ∧ (number b).same (number a) = false := by
  refine ⟨fun v w => same_symm, fun u v w => same_trans, fun v => same_self_iff, ?_, ?_⟩
  next =>
    intro v w distinct numbers
    exact ⟨changes_of_same distinct, fun changes => (same_of_changes changes distinct numbers).1⟩
  next =>
    intro i n x
    simp [same, Number.same]

theorem same_equivalence_reordered :
    let v : Value := .record [(['a'], .array [.number (.float (.zero false)), .null]),
      (['b'], .record [(['c'], .number (.int 1)), (['d'], .undefined)])]
    let w : Value := .record [(['b'], .record [(['d'], .undefined), (['c'], .number (.int 1))]),
      (['a'], .array [.number (.float (.zero true)), .null])]
    v.HasDistinctKeys ∧ v.HasNoNaN ∧ v.same w ∧ w.same v ∧ v.same v ∧ ReflTransGen Change v w := by
  intro v w
  obtain ⟨symm, trans, self, changes, _⟩ := same_equivalence
  have distinct : v.HasDistinctKeys :=
    ⟨by decide, ⟨trivial, trivial, trivial⟩, ⟨by decide, trivial, trivial, trivial⟩, trivial⟩
  have equal : v.same w := by decide
  have back := symm v w distinct equal
  have whole := trans v w v distinct equal back
  have numbers := (self v distinct).mp whole
  exact ⟨distinct, numbers, equal, back, whole, (changes v w distinct numbers).mp equal⟩

end DataLiteral.Value

import DataLiteral.Proofs.Value.Equality

set_option autoImplicit false

namespace DataLiteral.Expr

open List (Forall₂)
open Entries (Pairs)

inductive Agrees : Expr → Expr → Prop
  | null : Agrees .null .null
  | boolean (b : Bool) : Agrees (.boolean b) (.boolean b)
  | number {m n : Number} (equal : m.same n) : Agrees (.number m) (.number n)
  | string (s : Text) (verbatim : Bool) : Agrees (.string s verbatim) (.string s verbatim)
  | array {xs ys : List Expr} (multiLine : Bool) (each : Forall₂ Agrees xs ys) :
      Agrees (.array xs multiLine) (.array ys multiLine)
  | object {ps qs : List (Text × Expr)} (multiLine : Bool) (distinct : (Entries.keys ps).Nodup)
      (keys : (Entries.keys ps).Perm (Entries.keys qs))
      (each : ∀ key x y, (key, x) ∈ ps → (key, y) ∈ qs → Agrees x y) :
      Agrees (.object ps multiLine) (.object qs multiLine)

theorem Agrees.object_of_pairs {ps qs paired : List (Text × Expr)} (multiLine : Bool)
    (distinct : (Entries.keys ps).Nodup) (pairs : Forall₂ (Pairs Agrees) ps paired)
    (perm : paired.Perm qs) :
    Agrees (.object ps multiLine) (.object qs multiLine) := by
  have keys := Entries.keys_eq_of_pairs pairs
  refine .object multiLine distinct (keys ▸ perm.map Prod.fst) fun key x y left right => ?_
  obtain ⟨⟨_, z⟩, partner, rfl, agree⟩ := Entries.exists_mem_of_forall₂ pairs left
  rw [keys] at distinct
  have first := Entries.find?_of_mem distinct partner
  have second := Entries.find?_of_mem distinct (perm.symm.subset right)
  obtain rfl : z = y := Option.some.inj (first.symm.trans second)
  exact agree

def isObjectLike : Expr → Bool
  | .object _ _ => true
  | .null => true
  | _ => false

theorem isObjectLike_ofValue (v : Value) :
    (ofValue v).1.any isObjectLike = v.isObjectLike := by
  cases v <;> rfl

theorem any_isObjectLike_congr {x y : Option Expr} (h : Option.Rel Agrees x y) :
    x.any isObjectLike = y.any isObjectLike := by
  cases h with
  | none => rfl
  | some agree => cases agree <;> rfl

theorem startsObjectLike_congr {items others : List Value}
    (h : Forall₂ (fun x y => Option.Rel Agrees (ofValue x).1 (ofValue y).1) items others) :
    Assembly.startsObjectLike items = Assembly.startsObjectLike others := by
  cases h with
  | nil => rfl
  | cons first _ =>
    have layout := any_isObjectLike_congr first
    rwa [isObjectLike_ofValue, isObjectLike_ofValue] at layout

theorem rel_property {x y : Option Expr} (key : Text) (h : Option.Rel Agrees x y) :
    Option.Rel (Pairs Agrees) (x.map (Prod.mk key)) (y.map (Prod.mk key)) := by
  cases h with
  | none => exact .none
  | some agree => exact .some ⟨rfl, agree⟩

/-- Equal values have literals that agree, or none. -/
theorem agrees_ofValue {v w : Value} (distinct : v.HasDistinctKeys) (h : v.same w) :
    Option.Rel Agrees (ofValue v).1 (ofValue w).1 := by
  refine Value.same_induction (P := fun v w => Option.Rel Agrees (ofValue v).1 (ofValue w).1)
    .none (.some .null) (fun b => .some (.boolean b)) (fun m n equal => .some (.number equal))
    (fun s => .some (.string s false)) ?_ ?_ distinct h
  next =>
    intro items others pairs
    rw [ofValue_array, ofValue_array, startsObjectLike_congr pairs]
    exact .some (.array _ (List.rel_filterMap (fun _ _ => id) pairs))
  next =>
    intro entries paired changed keys pairs perm
    rw [ofValue_record, ofValue_record]
    have kept :=
      (Entries.keys_filterMap_sublist (fun entry => (ofValue entry.2).1) entries).nodup keys
    refine .some (.object_of_pairs true kept (List.rel_filterMap ?_ pairs) (perm.filterMap _))
    rintro ⟨key, x⟩ ⟨_, y⟩ ⟨rfl, agree⟩
    exact rel_property key agree

theorem agrees_ofValue_reordered :
    let v : Value := .record [(['a'], .undefined), (['b'], .array [.null, .undefined]),
      (['c'], .number (.float (.zero false)))]
    let w : Value := .record [(['c'], .number (.float (.zero true))), (['a'], .undefined),
      (['b'], .array [.null, .undefined])]
    v.HasDistinctKeys ∧ v.same w ∧ Option.Rel Agrees
      (some (.object [(['b'], .array [.null] true), (['c'], .number (.float (.zero false)))] true))
      (some (.object [(['c'], .number (.float (.zero true))), (['b'], .array [.null] true)]
        true)) := by
  intro v w
  have distinct : v.HasDistinctKeys :=
    ⟨by decide, trivial, ⟨trivial, trivial, trivial⟩, trivial, trivial⟩
  have equal : v.same w := by decide
  exact ⟨distinct, equal, agrees_ofValue distinct equal⟩

end DataLiteral.Expr

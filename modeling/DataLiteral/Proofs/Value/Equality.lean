import DataLiteral.Proofs.Entries
import DataLiteral.Proofs.Value.Distinct
import DataLiteral.Proofs.Value.Parts

set_option autoImplicit false

namespace DataLiteral

open List (Forall₂)
open Entries (Pairs)

namespace Binary64

theorem code_neg (x : Binary64) : x.neg.code = x.code :=
  code_ofCode _ _ x.code_lt

theorem same_iff {x y : Binary64} :
    x.same y ↔ x.isNaN = false ∧ y.isNaN = false ∧ (x = y ∨ x.isZero ∧ y.isZero) := by
  obtain ⟨a⟩ := x
  obtain ⟨b⟩ := y
  simp [same, and_assoc]

theorem same_neg {x : Binary64} (zero : x.isZero) : x.same x.neg := by
  have code : x.code = 0 := beq_iff_eq.mp zero
  have number (y : Binary64) (h : y.code = 0) : y.isNaN = false := by simp [isNaN, h]
  have negated : x.neg.code = 0 := x.code_neg.trans code
  exact same_iff.mpr ⟨number x code, number _ negated, .inr ⟨zero, beq_iff_eq.mpr negated⟩⟩

theorem same_trans {x y z : Binary64} (h : x.same y) (h' : y.same z) : x.same z := by
  obtain ⟨first, _, equal⟩ := same_iff.mp h
  obtain ⟨_, last, equal'⟩ := same_iff.mp h'
  refine same_iff.mpr ⟨first, last, ?_⟩
  rcases equal with rfl | ⟨zero, between⟩
  next => exact equal'
  next =>
    rcases equal' with rfl | ⟨_, zero'⟩
    next => exact .inr ⟨zero, between⟩
    next => exact .inr ⟨zero, zero'⟩

theorem eq_or_eq_neg {x y : Binary64} (zero : x.isZero) (zero' : y.isZero) :
    y = x ∨ y = x.neg := by
  have code : x.code = 0 := beq_iff_eq.mp zero
  have code' : y.code = 0 := beq_iff_eq.mp zero'
  rw [neg, ← ofCode_code y, ← ofCode_code x, code_ofCode _ _ x.code_lt,
    isNegative_ofCode _ _ x.code_lt, code, code']
  cases x.isNegative <;> cases y.isNegative <;> simp

end Binary64

namespace Number

theorem same_comm (m n : Number) : m.same n = n.same m := by
  cases m <;> cases n <;> simp only [same, BEq.comm, Binary64.same_comm]

theorem same_trans {l m n : Number} (h : l.same m) (h' : m.same n) : l.same n := by
  cases l <;> cases m <;> cases n <;> grind [same, Binary64.same_trans]

theorem eq_or_neg_of_same {m n : Number} (h : m.same n) :
    m = n ∨ ∃ x, x.isZero ∧ m = .float x ∧ n = .float x.neg := by
  cases m <;> cases n <;> grind [same, Binary64.same_iff, Binary64.eq_or_eq_neg]

theorem same_self_iff {n : Number} : n.same n ↔ ∀ x, n = .float x → x.isNaN = false := by
  cases n <;> simp [same, Binary64.same_self]

end Number

namespace Value

theorem forall₂_comp {α β γ : Type} {R : α → β → Prop} {S : β → γ → Prop} {T : α → γ → Prop}
    (carry : ∀ x y z, R x y → S y z → T x z) {xs : List α} {ys : List β} {zs : List γ}
    (h : Forall₂ R xs ys) (h' : Forall₂ S ys zs) : Forall₂ T xs zs := by
  induction h generalizing zs with
  | nil =>
    cases h'
    exact .nil
  | cons first _ ih =>
    cases h' with
    | cons next later => exact .cons (carry _ _ _ first next) (ih later)

variable {u v w : Value} {items others : List Value} {entries changed : List (Text × Value)}

theorem same_array_iff :
    (array items).same (array others) ↔ Forall₂ (fun x y => x.same y) items others := by
  show sameItems items others ↔ _
  induction items generalizing others with
  | nil => cases others <;> simp [sameItems]
  | cons item rest ih => cases others <;> simp [sameItems, ih]

theorem sameEntries_iff :
    sameEntries entries changed ↔ ∀ entry ∈ entries,
      ∃ value, Entries.find? entry.1 changed = some value ∧ entry.2.same value := by
  induction entries with
  | nil => simp [sameEntries]
  | cons entry rest ih =>
    rw [sameEntries, Bool.and_eq_true, ih, List.forall_mem_cons]
    cases Entries.find? entry.1 changed <;> simp

theorem same_record_iff :
    (record entries).same (record changed) ↔ entries.length = changed.length ∧
      ∀ entry ∈ entries,
        ∃ value, Entries.find? entry.1 changed = some value ∧ entry.2.same value := by
  simp [same, sameEntries_iff]

theorem same_record_iff_perm (distinct : (Entries.keys entries).Nodup) :
    (record entries).same (record changed) ↔
      ∃ paired, Forall₂ (Pairs fun x y => x.same y) entries paired ∧ paired.Perm changed :=
  same_record_iff.trans (Entries.exists_perm_iff (R := fun x y => x.same y) distinct)

@[elab_as_elim]
theorem same_induction {P : Value → Value → Prop} (undefined : P .undefined .undefined)
    (null : P .null .null) (boolean : ∀ b, P (.boolean b) (.boolean b))
    (number : ∀ m n, m.same n → P (.number m) (.number n))
    (string : ∀ s, P (.string s) (.string s))
    (array : ∀ items others, Forall₂ P items others → P (.array items) (.array others))
    (record : ∀ entries paired changed, (Entries.keys entries).Nodup →
      Forall₂ (Pairs P) entries paired → paired.Perm changed →
        P (.record entries) (.record changed))
    (distinct : v.HasDistinctKeys) (h : v.same w) : P v w := by
  induction v using inductionOn generalizing w with
  | undefined => cases w <;> first | exact undefined | cases h
  | null => cases w <;> first | exact null | cases h
  | boolean b =>
    cases w with
    | boolean c =>
      obtain rfl : b = c := beq_iff_eq.mp h
      exact boolean b
    | _ => cases h
  | number m =>
    cases w with
    | number n => exact number m n h
    | _ => cases h
  | string s =>
    cases w with
    | string t =>
      obtain rfl : s = t := beq_iff_eq.mp h
      exact string s
    | _ => cases h
  | array items ih =>
    cases w with
    | array others =>
      have each (item : Value) (member : item ∈ items) (other : Value) (same : item.same other) :
          P item other :=
        ih item member (itemsHaveDistinctKeys_iff.mp distinct item member) same
      have pairs := (List.forall₂_and_left _ _).mpr ⟨each, same_array_iff.mp h⟩
      exact array items others (pairs.imp fun _ other both => both.1 other both.2)
    | _ => cases h
  | record entries ih =>
    cases w with
    | record changed =>
      have each (entry : Text × Value) (member : entry ∈ entries) (other : Value)
          (same : entry.2.same other) : P entry.2 other :=
        ih entry member (entriesHaveDistinctKeys_iff.mp distinct.2 entry member) same
      obtain ⟨paired, pairs, perm⟩ := (same_record_iff_perm distinct.1).mp h
      have pairs' := (List.forall₂_and_left _ _).mpr ⟨each, pairs⟩
      exact record entries paired changed distinct.1
        (pairs'.imp fun _ other both => ⟨both.2.1, both.1 other.2 both.2.2⟩) perm
    | _ => cases h

theorem same_symm (distinct : v.HasDistinctKeys) (h : v.same w) : w.same v := by
  refine same_induction (P := fun v w => w.same v) rfl rfl beq_self_eq_true ?_
    (fun s => beq_self_eq_true s) ?_ ?_ distinct h
  next =>
    intro m n equal
    rwa [Number.same_comm] at equal
  next =>
    intro items others pairs
    exact same_array_iff.mpr pairs.flip
  next =>
    intro entries paired changed distinct pairs perm
    have apart := Entries.nodup_keys_of_pairs distinct pairs perm
    have back : Forall₂ (Pairs fun x y => x.same y) paired entries :=
      .flip (pairs.imp fun _ _ pair => ⟨pair.1.symm, pair.2⟩)
    exact (same_record_iff_perm apart).mpr (List.perm_comp_forall₂ perm.symm back)

theorem same_trans (distinct : u.HasDistinctKeys) (h : u.same v) (h' : v.same w) : u.same w := by
  revert w
  refine same_induction (P := fun u v => ∀ {w}, v.same w → u.same w) id id (fun _ => id) ?_
    (fun _ => id) ?_ ?_ distinct h
  next =>
    intro l m equal w equal'
    cases w with
    | number n => exact Number.same_trans equal equal'
    | _ => cases equal'
  next =>
    intro items middle pairs w equal
    cases w with
    | array others =>
      have pairs' := same_array_iff.mp equal
      exact same_array_iff.mpr (forall₂_comp (fun _ _ _ carries next => carries next) pairs pairs')
    | _ => cases equal
  next =>
    intro entries paired middle _ pairs perm w equal
    cases w with
    | record changed =>
      obtain ⟨size, found⟩ := same_record_iff.mp equal
      have size' : entries.length = middle.length := pairs.length_eq.trans perm.length_eq
      refine same_record_iff.mpr ⟨size'.trans size, fun entry member => ?_⟩
      obtain ⟨between, inside, key, carries⟩ := Entries.exists_mem_of_forall₂ pairs member
      obtain ⟨value, known, equal'⟩ := found between (perm.subset inside)
      exact ⟨value, key ▸ known, carries equal'⟩
    | _ => cases equal

def HasNoNaN (v : Value) : Prop :=
  ∀ part ∈ v.parts, ∀ x, part = .number (.float x) → x.isNaN = false

theorem hasNoNaN_number {n : Number} :
    (number n).HasNoNaN ↔ ∀ x, n = .float x → x.isNaN = false := by
  simp [HasNoNaN, parts, inner]

theorem hasNoNaN_array : (array items).HasNoNaN ↔ ∀ item ∈ items, item.HasNoNaN :=
  forall_parts_array.trans (and_iff_right nofun)

theorem hasNoNaN_record : (record entries).HasNoNaN ↔ ∀ entry ∈ entries, entry.2.HasNoNaN :=
  forall_parts_record.trans (and_iff_right nofun)

theorem same_self_iff (distinct : v.HasDistinctKeys) : v.same v ↔ v.HasNoNaN := by
  induction v using inductionOn with
  | undefined | null => exact iff_of_true rfl (by simp [HasNoNaN, parts, inner])
  | boolean b => exact iff_of_true (beq_self_eq_true b) (by simp [HasNoNaN, parts, inner])
  | string s => exact iff_of_true (beq_self_eq_true s) (by simp [HasNoNaN, parts, inner])
  | number n => exact Number.same_self_iff.trans hasNoNaN_number.symm
  | array items ih =>
    rw [same_array_iff, List.forall₂_same, hasNoNaN_array]
    have each := itemsHaveDistinctKeys_iff.mp distinct
    exact forall₂_congr fun item member => ih item member (each item member)
  | record entries ih =>
    rw [same_record_iff, and_iff_right rfl, hasNoNaN_record]
    have each := entriesHaveDistinctKeys_iff.mp distinct.2
    refine forall₂_congr fun entry member => ?_
    simp [Entries.find?_of_mem distinct.1 member, ih entry member (each entry member)]

end Value

end DataLiteral

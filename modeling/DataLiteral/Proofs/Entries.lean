import Mathlib.Data.List.Induction
import Mathlib.Data.List.Nodup
import Mathlib.Data.List.Perm.Basic
import DataLiteral.Entries

set_option autoImplicit false

namespace DataLiteral.Entries

variable {α β : Type}

theorem eraseDups_concat (names : List Text) (name : Text) :
    (names ++ [name]).eraseDups =
      if name ∈ names then names.eraseDups else names.eraseDups ++ [name] := by
  rw [List.eraseDups_append]
  by_cases present : name ∈ names
  next => simp [List.removeAll, present]
  next => simp [List.removeAll, present, List.eraseDups_cons]

theorem collect_concat (entries : Entries α) (key : Text) (value : α) :
    collect (entries ++ [(key, value)]) = insert key value (collect entries) :=
  List.foldl_append

theorem keys_collect (entries : Entries α) : keys (collect entries) = (keys entries).eraseDups := by
  induction entries using List.reverseRecOn with
  | nil => rfl
  | append_singleton entries entry ih =>
    have all : keys (entries ++ [entry]) = keys entries ++ [entry.1] := List.map_append
    rw [collect_concat, keys_insert, all, eraseDups_concat, ih]
    simp only [List.mem_eraseDups]

theorem find?_collect (key : Text) (entries : Entries α) :
    find? key (collect entries) = find? key entries.reverse := by
  induction entries using List.reverseRecOn with
  | nil => rfl
  | append_singleton entries entry ih =>
    rw [collect_concat, List.reverse_append, List.reverse_singleton, List.singleton_append, find?]
    split
    next same => rw [← same, find?_insert_self]
    next other => rw [find?_insert_of_ne (Ne.symm other), ih]

theorem find?_of_mem {entries : Entries α} {key : Text} {value : α}
    (distinct : (keys entries).Nodup) (member : (key, value) ∈ entries) :
    find? key entries = some value := by
  induction entries with
  | nil => cases member
  | cons entry rest ih =>
    obtain ⟨absent, later⟩ := List.nodup_cons.mp distinct
    rcases List.mem_cons.mp member with rfl | member
    next => exact if_pos rfl
    next =>
      have other : entry.1 ≠ key := fun same =>
        absent (same ▸ List.mem_map_of_mem (f := Prod.fst) member)
      exact (if_neg other).trans (ih later member)

theorem mem_of_find? {entries : Entries α} {key : Text} {value : α}
    (h : find? key entries = some value) : (key, value) ∈ entries := by
  induction entries with
  | nil => cases h
  | cons entry rest ih =>
    rw [find?] at h
    split at h
    next same =>
      cases h
      exact same ▸ List.mem_cons_self
    next => exact List.mem_cons_of_mem entry (ih h)

theorem keys_filterMap_sublist (f : Text × α → Option β) (entries : Entries α) :
    (keys (entries.filterMap fun entry => (f entry).map (Prod.mk entry.1))).Sublist
      (keys entries) := by
  induction entries with
  | nil => exact .slnil
  | cons entry rest ih =>
    rw [List.filterMap_cons]
    cases f entry with
    | none => exact ih.cons _
    | some value => exact ih.cons_cons _

section

variable {R : α → β → Prop} {entries : Entries α} {others : Entries β}

theorem exists_mem_of_forall₂ {R : α → β → Prop} {xs : List α} {ys : List β}
    (h : List.Forall₂ R xs ys) {x : α} (member : x ∈ xs) : ∃ y ∈ ys, R x y := by
  induction h with
  | nil => cases member
  | cons related _ ih =>
    rcases List.mem_cons.mp member with rfl | later
    next => exact ⟨_, List.mem_cons_self, related⟩
    next =>
      obtain ⟨y, inside, partner⟩ := ih later
      exact ⟨y, List.mem_cons_of_mem _ inside, partner⟩

def Pairs (R : α → β → Prop) (entry : Text × α) (other : Text × β) : Prop :=
  entry.1 = other.1 ∧ R entry.2 other.2

theorem keys_eq_of_pairs (h : List.Forall₂ (Pairs R) entries others) :
    keys entries = keys others := by
  induction h with
  | nil => rfl
  | cons pair _ ih => exact congrArg₂ List.cons pair.1 ih

theorem nodup_keys_of_pairs {paired : Entries β} (distinct : (keys entries).Nodup)
    (pairs : List.Forall₂ (Pairs R) entries paired) (perm : paired.Perm others) :
    (keys others).Nodup := by
  rw [keys_eq_of_pairs pairs] at distinct
  exact (perm.map Prod.fst).nodup distinct

-- Where keys are distinct, finding each key is a pairing, and by its size it leaves nothing out.
theorem exists_perm_iff (distinct : (keys entries).Nodup) :
    (entries.length = others.length ∧
      ∀ entry ∈ entries, ∃ value, find? entry.1 others = some value ∧ R entry.2 value) ↔
    ∃ paired, List.Forall₂ (Pairs R) entries paired ∧ paired.Perm others := by
  constructor
  next =>
    rintro ⟨size, found⟩
    have each : ∃ paired, List.Forall₂ (Pairs R) entries paired ∧ paired ⊆ others := by
      clear distinct size
      induction entries with
      | nil => exact ⟨[], .nil, List.nil_subset others⟩
      | cons entry rest ih =>
        obtain ⟨⟨value, known, related⟩, later⟩ := List.forall_mem_cons.mp found
        obtain ⟨paired, pairs, inside⟩ := ih later
        exact ⟨(entry.1, value) :: paired, .cons ⟨rfl, related⟩ pairs,
          List.cons_subset.mpr ⟨mem_of_find? known, inside⟩⟩
    obtain ⟨paired, pairs, inside⟩ := each
    rw [keys_eq_of_pairs pairs] at distinct
    have apart : paired.Nodup := List.Nodup.of_map Prod.fst distinct
    have all : others.length ≤ paired.length := Nat.le_of_eq (size.symm.trans pairs.length_eq)
    exact ⟨paired, pairs, (List.subperm_of_subset apart inside).perm_of_length_le all⟩
  next =>
    rintro ⟨paired, pairs, perm⟩
    refine ⟨pairs.length_eq.trans perm.length_eq, fun entry member => ?_⟩
    have apart := nodup_keys_of_pairs distinct pairs perm
    obtain ⟨other, inside, same, related⟩ := exists_mem_of_forall₂ pairs member
    exact ⟨other.2, find?_of_mem apart (same ▸ perm.subset inside), related⟩

end

end DataLiteral.Entries

import DataLiteral.Text.Basic

set_option autoImplicit false

namespace DataLiteral

abbrev Entries (α : Type) := List (Text × α)

namespace Entries

variable {α : Type}

def find? (key : Text) : Entries α → Option α
  | [] => none
  | (k, value) :: rest => if k = key then some value else find? key rest

def insert (key : Text) (value : α) : Entries α → Entries α
  | [] => [(key, value)]
  | (k, old) :: rest =>
      if k = key then (k, value) :: rest else (k, old) :: insert key value rest

def erase (key : Text) : Entries α → Entries α
  | [] => []
  | (k, value) :: rest => if k = key then rest else (k, value) :: erase key rest

def keys (entries : Entries α) : List Text :=
  entries.map Prod.fst

def collect (entries : Entries α) : Entries α :=
  entries.foldl (fun found entry => insert entry.1 entry.2 found) []

theorem keys_insert (key : Text) (value : α) (entries : Entries α) :
    keys (insert key value entries) =
      if key ∈ keys entries then keys entries else keys entries ++ [key] := by
  induction entries with
  | nil => rfl
  | cons entry rest ih =>
    obtain ⟨k, old⟩ := entry
    by_cases same : k = key
    · simp [insert, keys, same]
    · have swapped : key ≠ k := fun h => same h.symm
      simp only [keys] at ih
      simp only [insert, same, keys, List.map_cons, List.mem_cons, swapped, ih, if_false, false_or]
      split <;> simp_all

theorem find?_insert_self (key : Text) (value : α) (entries : Entries α) :
    find? key (insert key value entries) = some value := by
  induction entries with
  | nil => simp [insert, find?]
  | cons entry rest ih =>
    by_cases same : entry.1 = key
    · simp [insert, find?, same]
    · simp [insert, find?, same, ih]

theorem find?_insert_of_ne {key other : Text} (h : other ≠ key) (value : α)
    (entries : Entries α) : find? other (insert key value entries) = find? other entries := by
  induction entries with
  | nil => simp [insert, find?, h.symm]
  | cons entry rest ih =>
    by_cases same : entry.1 = key
    · simp [insert, find?, same, h.symm]
    · simp [insert, find?, same, ih]

theorem nodup_keys_insert (key : Text) (value : α) (entries : Entries α)
    (distinct : (keys entries).Nodup) : (keys (insert key value entries)).Nodup := by
  rw [keys_insert]
  split
  · exact distinct
  · next absent =>
    exact List.nodup_append.mpr ⟨distinct, by simp, by
      intro a ha b hb
      simp only [List.mem_singleton] at hb
      intro same
      exact absent (hb ▸ same ▸ ha)⟩

theorem mem_of_mem_insert {key : Text} {value : α} {entry : Text × α} {entries : Entries α}
    (h : entry ∈ insert key value entries) : entry = (key, value) ∨ entry ∈ entries := by
  induction entries with
  | nil => exact .inl (List.mem_singleton.mp h)
  | cons first rest ih =>
    obtain ⟨k, old⟩ := first
    rw [insert] at h
    split at h
    · next same =>
      subst same
      exact (List.mem_cons.mp h).imp_right (List.mem_cons_of_mem _)
    · rcases List.mem_cons.mp h with rfl | later
      · exact .inr List.mem_cons_self
      · exact (ih later).imp_right (List.mem_cons_of_mem _)

theorem mem_of_mem_collect {entry : Text × α} {entries : Entries α} (h : entry ∈ collect entries) :
    entry ∈ entries := by
  have each (found : Entries α)
      (member : entry ∈ entries.foldl (fun found entry => insert entry.1 entry.2 found) found) :
      entry ∈ found ∨ entry ∈ entries := by
    clear h
    induction entries generalizing found with
    | nil => exact .inl member
    | cons first rest ih =>
      rcases ih _ member with early | later
      · rcases mem_of_mem_insert early with rfl | before
        · exact .inr List.mem_cons_self
        · exact .inl before
      · exact .inr (List.mem_cons_of_mem first later)
  exact (each [] h).resolve_left List.not_mem_nil

theorem insert_of_not_mem {key : Text} {entries : Entries α} (absent : key ∉ keys entries)
    (value : α) : insert key value entries = entries ++ [(key, value)] := by
  induction entries with
  | nil => rfl
  | cons entry rest ih =>
    simp only [keys, List.map_cons, List.mem_cons, not_or] at absent
    rw [insert, if_neg fun same => absent.1 same.symm, ih absent.2]
    rfl

theorem collect_of_nodup {entries : Entries α} (distinct : (keys entries).Nodup) :
    collect entries = entries := by
  have each (found : Entries α) (apart : (keys (found ++ entries)).Nodup) :
      entries.foldl (fun found entry => insert entry.1 entry.2 found) found = found ++ entries := by
    clear distinct
    induction entries generalizing found with
    | nil => exact (List.append_nil found).symm
    | cons entry rest ih =>
      have absent : entry.1 ∉ keys found := by
        intro member
        simp only [keys, List.map_append, List.map_cons] at apart
        exact (List.nodup_append.mp apart).2.2 _ member _ List.mem_cons_self rfl
      rw [List.foldl_cons, insert_of_not_mem absent, ih _ (by simpa using apart), List.append_assoc]
      rfl
  exact each [] distinct

theorem nodup_keys_collect (entries : Entries α) : (keys (collect entries)).Nodup := by
  have each (found : Entries α) (distinct : (keys found).Nodup) :
      (keys (entries.foldl (fun found entry => insert entry.1 entry.2 found) found)).Nodup := by
    induction entries generalizing found with
    | nil => exact distinct
    | cons entry rest ih => exact ih _ (nodup_keys_insert _ _ _ distinct)
  exact each [] List.nodup_nil

end Entries

end DataLiteral

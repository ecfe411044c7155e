import DataLiteral.Proofs.Json.Locality
import DataLiteral.Proofs.Json.Spelling

set_option autoImplicit false

namespace DataLiteral

namespace Json

section

variable {fuel depth : ℕ} {text rest : Text}

theorem spellsKey_of_readKey {key : Text} (h : readKey (skipBlank text) = .ok (key, rest)) :
    ∃ name, text = name ++ ':' :: rest ∧ SpellsKey name key := by
  obtain ⟨space, whole, blank⟩ := exists_blank text
  unfold readKey at h
  split at h
  next quoted shape =>
    split at h
    next => cases h
    next after found =>
      obtain ⟨taken, rfl, again⟩ := isLocal_readString found
      obtain ⟨gap, between, blank'⟩ := exists_blank after
      split at h
      next => cases h
      next colon =>
        cases h
        rw [colon] at between
        refine ⟨space ++ '"' :: (taken ++ gap), ?_, fun more => ?_⟩
        next =>
          rw [whole, shape, between]
          simp
        next =>
          have text' : space ++ '"' :: (taken ++ gap) ++ ':' :: more =
              space ++ '"' :: (taken ++ (gap ++ ':' :: more)) := by simp
          rw [text', skipBlank_append blank, skipBlank_cons (by decide), readKey, again _ trivial]
          dsimp only
          rw [skipBlank_append blank', skipBlank_cons (by decide)]
          rfl
      next => cases h
  next => cases h

theorem spells_of_scalar {v : Value} (step : ScalarStep (skipBlank text) v rest) :
    ∃ body, text = body ++ rest ∧ Spells depth body v := by
  obtain ⟨space, whole, blank⟩ := exists_blank text
  obtain ⟨taken, same, again⟩ := isLocal_readScalarValue step.readScalarValue
  rw [same, ← List.append_assoc] at whole
  exact ⟨space ++ taken, whole, (spells_scalar again).blank blank⟩

end

theorem intercalate_comma (text : Text) {texts : List Text} (nonempty : texts ≠ []) :
    [','].intercalate (text :: texts) = text ++ ',' :: [','].intercalate texts := by
  cases texts with
  | nil => exact absurd rfl nonempty
  | cons next texts => simp

def ValueSpelled (fuel : ℕ) : Prop :=
  ∀ {depth text v rest}, readValue fuel depth text = .ok (v, rest) →
    ∃ body, text = body ++ rest ∧ Spells depth body v

def ItemsSpelled (fuel : ℕ) : Prop :=
  ∀ {depth text items rest}, readItems fuel depth text = .ok (items, rest) →
    ∃ texts, texts ≠ [] ∧ text = [','].intercalate texts ++ ']' :: rest ∧
      List.Forall₂ (SpellsItem depth) texts items

def EntriesSpelled (fuel : ℕ) : Prop :=
  ∀ {depth text entries rest}, readEntries fuel depth (skipBlank text) = .ok (entries, rest) →
    ∃ texts, texts ≠ [] ∧ text = [','].intercalate texts ++ '\x7d' :: rest ∧
      List.Forall₂ (SpellsMember depth) texts entries

section

variable {fuel : ℕ}

theorem valueSpelled_succ (lists : ItemsSpelled fuel) (objects : EntriesSpelled fuel) :
    ValueSpelled (fuel + 1) := by
  intro depth text v rest h
  obtain ⟨less, same, step⟩ := readValue_step h
  cases same
  obtain ⟨space, whole, blank⟩ := exists_blank text
  have none' : ∀ c ∈ ([] : Text), isBlank c := List.forall_mem_nil _
  generalize shape : skipBlank text = front at step whole
  cases step with
  | scalar step => exact spells_of_scalar (shape ▸ step)
  | @arrayNil _ inside _ closes =>
    obtain ⟨gap, within, blank'⟩ := exists_blank inside
    rw [closes] at within
    refine ⟨space ++ '[' :: (gap ++ [']']), by simp [whole, within], ?_⟩
    exact (spells_array_nil blank').blank blank
  | @array _ inside _ _ read =>
    obtain ⟨gap, within, blank'⟩ := exists_blank inside
    obtain ⟨texts, nonempty, parts, spelled⟩ := lists read
    rw [parts] at within
    refine ⟨space ++ '[' :: (gap ++ ([','].intercalate texts ++ ([] ++ [']']))),
      by simp [whole, within], ?_⟩
    exact (spells_array none' none' blank' spelled nonempty).blank blank
  | @recordNil _ inside _ closes =>
    obtain ⟨gap, within, blank'⟩ := exists_blank inside
    rw [closes] at within
    refine ⟨space ++ '\x7b' :: (gap ++ ['\x7d']), by simp [whole, within], ?_⟩
    exact (spells_record_nil blank').blank blank
  | record read =>
    obtain ⟨texts, nonempty, rfl, spelled⟩ := objects read
    refine ⟨space ++ '\x7b' :: ([] ++ ([','].intercalate texts ++ ([] ++ ['\x7d']))),
      by simp [whole], ?_⟩
    exact (spells_record none' none' none' spelled nonempty).blank blank

theorem Continues.spelled {α : Type} {closing : Char} {reader : Text → Result (List α)}
    {text rest : Text} {later : List α} {SpellsOne : Text → α → Prop} (body : Text) {a : α}
    (h : Continues closing reader text later rest)
    (own : ∀ space, (∀ c ∈ space, isBlank c) → SpellsOne (body ++ space) a)
    (more : ∀ {next}, reader (skipBlank next) = .ok (later, rest) →
      ∃ texts, texts ≠ [] ∧ next = [','].intercalate texts ++ closing :: rest ∧
        List.Forall₂ SpellsOne texts later) :
    ∃ texts, texts ≠ [] ∧ body ++ text = [','].intercalate texts ++ closing :: rest ∧
      List.Forall₂ SpellsOne texts (a :: later) := by
  obtain ⟨space, blank, ⟨rfl, rfl⟩ | ⟨next, rfl, read⟩⟩ := h
  next => exact ⟨[body ++ space], List.cons_ne_nil _ _, by simp, .cons (own space blank) .nil⟩
  next =>
    obtain ⟨texts, nonempty, rfl, others⟩ := more read
    refine ⟨(body ++ space) :: texts, List.cons_ne_nil _ _, ?_, .cons (own space blank) others⟩
    rw [intercalate_comma _ nonempty]
    simp

theorem itemsSpelled_succ (values : ValueSpelled fuel) (lists : ItemsSpelled fuel) :
    ItemsSpelled (fuel + 1) := by
  intro depth text items rest h
  obtain ⟨less, item, after, later, same, rfl, first, goesOn⟩ := readItems_step h
  cases same
  obtain ⟨body, rfl, own⟩ := values first
  refine goesOn.spelled body (fun space blank => ⟨body, space, rfl, blank, own⟩) fun read => ?_
  exact lists (readItems_congr (skipBlank_skipBlank _) read)

theorem entriesSpelled_succ (values : ValueSpelled fuel) (objects : EntriesSpelled fuel) :
    EntriesSpelled (fuel + 1) := by
  intro depth text entries rest h
  obtain ⟨less, key, keyed, value, after, later, same, rfl, named, first, goesOn⟩ :=
    readEntries_step h
  cases same
  obtain ⟨name, rfl, spelledKey⟩ := spellsKey_of_readKey named
  obtain ⟨body, rfl, own⟩ := values first
  rw [← List.cons_append, ← List.append_assoc]
  refine goesOn.spelled (name ++ ':' :: body) (fun space blank => ?_) fun read => objects read
  exact ⟨name, body ++ space, by simp, spelledKey, body, space, rfl, blank, own⟩

end

theorem spelled (fuel : ℕ) : ValueSpelled fuel ∧ ItemsSpelled fuel ∧ EntriesSpelled fuel := by
  induction fuel with
  | zero =>
    refine ⟨?_, ?_, ?_⟩ <;> intro depth text found rest h
    next => rw [readValue] at h; cases h
    next => rw [readItems] at h; cases h
    next => rw [readEntries] at h; cases h
  | succ fuel ih =>
    obtain ⟨values, lists, objects⟩ := ih
    exact ⟨valueSpelled_succ lists objects, itemsSpelled_succ values lists,
      entriesSpelled_succ values objects⟩

section

variable {fuel depth : ℕ} {text key rest : Text}

theorem string_of_readValue (h : readValue fuel depth text = .ok (.string key, rest)) :
    ∃ quoted, skipBlank text = '"' :: quoted ∧ readString quoted = .ok (key, rest) := by
  obtain ⟨_, _, step⟩ := readValue_step h
  generalize skipBlank text = front at step
  cases step with
  | scalar step =>
    cases step with
    | string read => exact ⟨_, rfl, read⟩

theorem readItems_of_readValue {item : Value} {items : List Value}
    (h : readValue (fuel + 1) (depth + 1) ('[' :: text) = .ok (.array (item :: items), rest)) :
    readItems fuel depth text = .ok (item :: items, rest) := by
  obtain ⟨_, same, step⟩ := readValue_step h
  cases same
  rw [skipBlank_cons (by decide)] at step
  cases step with
  | scalar step => cases step
  | array read => exact readItems_congr (skipBlank_skipBlank text) read

end

theorem spellsKey_of_read {text key : Text} (h : read text = .ok (.string key)) :
    SpellsKey text key := by
  obtain ⟨rest, found, blank⟩ := read_step h
  obtain ⟨body, rfl, spelled⟩ := (spelled _).1 found
  intro more
  have closes : Decimal.Numeral.Ends (rest ++ ':' :: more) :=
    ends_append blank (ends_cons (by decide) more)
  obtain ⟨quoted, shape, read⟩ := string_of_readValue (spelled _ _ (Nat.le_refl _) closes)
  rw [List.append_assoc, shape, readKey, read]
  dsimp only
  rw [skipBlank_append blank, skipBlank_cons (by decide)]
  rfl

theorem spellsItem_of_read {text : Text} {v : Value}
    (h : read ('[' :: (text ++ [']'])) = .ok (.array [v])) : SpellsItem 126 text v := by
  obtain ⟨rest, found, blank⟩ := read_step h
  obtain ⟨texts, _, parts, all⟩ := (spelled _).2.1 (readItems_of_readValue found)
  cases all with
  | cons first others =>
    cases others
    rw [List.intercalate_singleton] at parts
    have nothing : rest = [] := by
      cases rest using List.reverseRecOn with
      | nil => rfl
      | append_singleton rest last =>
        rw [← List.cons_append, ← List.append_assoc] at parts
        cases List.append_inj_right' parts rfl
        cases blank ']' (List.mem_append_right _ List.mem_cons_self)
    rw [nothing] at parts
    rwa [List.append_inj_left' parts rfl]

def objectText (members : List (Text × Text)) : Text :=
  '\x7b' :: ([','].intercalate (members.map fun member => member.1 ++ ':' :: member.2) ++ ['\x7d'])

theorem read_objectText {members : List (Text × Text)} {entries : Entries Value}
    (h : List.Forall₂ (fun member entry => read member.1 = .ok (.string entry.1) ∧
      read ('[' :: (member.2 ++ [']'])) = .ok (.array [entry.2])) members entries) :
    read (objectText members) = .ok (.ofEntries entries) := by
  have none' : ∀ c ∈ ([] : Text), isBlank c := List.forall_mem_nil _
  have each : List.Forall₂ (SpellsMember 126)
      (members.map fun member => member.1 ++ ':' :: member.2) entries := by
    refine List.forall₂_map_left_iff.mpr (h.imp fun member entry both => ?_)
    exact ⟨_, _, rfl, spellsKey_of_read both.1, spellsItem_of_read both.2⟩
  apply read_of_spells
  cases members with
  | nil =>
    cases h
    exact spells_record_nil none'
  | cons member members => exact spells_record none' none' none' each (List.cons_ne_nil _ _)

end Json

end DataLiteral

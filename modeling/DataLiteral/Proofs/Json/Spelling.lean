import DataLiteral.Proofs.Json.Integer
import DataLiteral.Proofs.Json.Shared

set_option autoImplicit false

namespace DataLiteral.Json

open Decimal.Numeral (Ends)

section

variable {fuel depth : ℕ} {closing : Char} {missing atEnd : Cause}
  {text other after next rest : Text}

theorem head_of_readValue {found : Value × Text} (h : readValue fuel depth text = .ok found) :
    ∃ c tail, skipBlank text = c :: tail ∧ c ≠ ']' := by
  obtain ⟨v, rest⟩ := found
  obtain ⟨_, _, step⟩ := readValue_step h
  generalize skipBlank text = front at step
  cases step with
  | scalar step =>
    obtain ⟨c, tail, shape, _, _, notClosing, _⟩ := step.head
    exact ⟨c, tail, shape, notClosing⟩
  | arrayNil => exact ⟨'[', _, rfl, by decide⟩
  | array => exact ⟨'[', _, rfl, by decide⟩
  | recordNil => exact ⟨'\x7b', _, rfl, by decide⟩
  | record => exact ⟨'\x7b', _, rfl, by decide⟩

theorem readValue_congr {found : Value × Text} (same : skipBlank text = skipBlank other)
    (h : readValue fuel depth text = .ok found) : readValue fuel depth other = .ok found := by
  cases fuel with
  | zero => rw [readValue] at h; cases h
  | succ fuel => rwa [readValue, same, ← readValue] at h

theorem readItems_congr {found : List Value × Text} (same : skipBlank text = skipBlank other)
    (h : readItems fuel depth text = .ok found) : readItems fuel depth other = .ok found := by
  cases fuel with
  | zero => rw [readItems] at h; cases h
  | succ fuel =>
    rw [readItems] at h ⊢
    cases first : readValue fuel depth text with
    | error failure => rw [first] at h; cases h
    | ok value =>
      rw [first] at h
      rwa [readValue_congr same first]

theorem readContinuation_done (blank : ∀ c ∈ after, isBlank c) (printed : isBlank closing = false) :
    readContinuation closing missing atEnd (after ++ closing :: rest) = .ok (.done rest) := by
  rw [readContinuation, skipBlank_append blank, skipBlank_cons printed]
  exact if_pos rfl

theorem readContinuation_more {c : Char} {tail : Text} (blank : ∀ c ∈ after, isBlank c)
    (comma : closing ≠ ',') (shape : skipBlank next = c :: tail) (goesOn : c ≠ closing) :
    readContinuation closing missing atEnd (after ++ ',' :: next) = .ok (.more (c :: tail)) := by
  rw [readContinuation, skipBlank_append blank, skipBlank_cons (by decide)]
  dsimp only
  rw [if_neg comma.symm, if_pos rfl, shape]
  exact if_neg goesOn

theorem readItems_last {item : Value} (blank : ∀ c ∈ after, isBlank c)
    (h : readValue fuel depth text = .ok (item, after ++ ']' :: rest)) :
    readItems (fuel + 1) depth text = .ok ([item], rest) := by
  rw [readItems, h]
  dsimp only
  rw [readContinuation_done blank (by decide)]

theorem head_of_readItems {found : List Value × Text} (h : readItems fuel depth text = .ok found) :
    ∃ c tail, skipBlank text = c :: tail ∧ c ≠ ']' := by
  cases fuel with
  | zero => rw [readItems] at h; cases h
  | succ fuel =>
    rw [readItems] at h
    split at h
    next => cases h
    next first => exact head_of_readValue first

theorem readItems_more {item : Value} {items : List Value} (blank : ∀ c ∈ after, isBlank c)
    (first : readValue fuel depth text = .ok (item, after ++ ',' :: next))
    (later : readItems fuel depth next = .ok (items, rest)) :
    readItems (fuel + 1) depth text = .ok (item :: items, rest) := by
  obtain ⟨c, tail, shape, goesOn⟩ := head_of_readItems later
  rw [readItems, first]
  dsimp only
  rw [readContinuation_more blank (by decide) shape goesOn]
  dsimp only
  rw [← shape, readItems_congr (skipBlank_skipBlank next).symm later]

theorem readValue_array {items : List Value} (h : readItems fuel depth text = .ok (items, rest)) :
    readValue (fuel + 1) (depth + 1) ('[' :: text) = .ok (.array items, rest) := by
  obtain ⟨c, tail, shape, goesOn⟩ := head_of_readItems h
  have again := readItems_congr (skipBlank_skipBlank text).symm h
  rw [shape] at again
  rw [readValue, skipBlank_cons (by decide)]
  simp only [shape]
  split
  next none' => cases none'
  next same => cases same; exact absurd rfl goesOn
  next => rw [again]

theorem readEntries_last {key : Text} {value : Value} (blank : ∀ c ∈ after, isBlank c)
    (keyed : readKey text = .ok (key, other))
    (h : readValue fuel depth other = .ok (value, after ++ '\x7d' :: rest)) :
    readEntries (fuel + 1) depth text = .ok ([(key, value)], rest) := by
  rw [readEntries, keyed]
  dsimp only
  rw [h]
  dsimp only
  rw [readContinuation_done blank (by decide)]

theorem head_of_readEntries {found : List (Text × Value) × Text}
    (h : readEntries fuel depth text = .ok found) : ∃ tail, text = '"' :: tail := by
  cases fuel with
  | zero => rw [readEntries] at h; cases h
  | succ fuel =>
    rw [readEntries] at h
    unfold readKey at h
    split at h
    next => cases h
    next keyed =>
      split at keyed
      next tail => exact ⟨tail, rfl⟩
      next => cases keyed

theorem readEntries_more {key : Text} {value : Value} {entries : List (Text × Value)}
    (blank : ∀ c ∈ after, isBlank c) (keyed : readKey text = .ok (key, other))
    (first : readValue fuel depth other = .ok (value, after ++ ',' :: next))
    (later : readEntries fuel depth (skipBlank next) = .ok (entries, rest)) :
    readEntries (fuel + 1) depth text = .ok ((key, value) :: entries, rest) := by
  obtain ⟨tail, shape⟩ := head_of_readEntries later
  rw [readEntries, keyed]
  dsimp only
  rw [first]
  dsimp only
  rw [readContinuation_more blank (by decide) shape (by decide)]
  dsimp only
  rw [← shape, later]

theorem readValue_record {entries : List (Text × Value)}
    (h : readEntries fuel depth (skipBlank text) = .ok (entries, rest)) :
    readValue (fuel + 1) (depth + 1) ('\x7b' :: text) = .ok (.ofEntries entries, rest) := by
  obtain ⟨tail, shape⟩ := head_of_readEntries h
  rw [shape] at h
  rw [readValue, skipBlank_cons (by decide)]
  simp only [shape]
  split
  next none' => cases none'
  next same => cases same
  next => rw [h]

end

/-- A text is read as a value that nests no deeper than this, in front of whatever does not go on
with a numeral. -/
def Spells (depth : ℕ) (text : Text) (v : Value) : Prop :=
  ∀ fuel rest, 2 * text.length ≤ fuel → Ends rest →
    readValue fuel depth (text ++ rest) = .ok (v, rest)

def EntrySpells (depth : ℕ) (text : Text) (entry : Text × Value) : Prop :=
  ∃ body, text = Quote.double.escape entry.1 ++ ':' :: body ∧ IsShared entry.1 ∧
    Spells depth body entry.2

def SpellsItem (depth : ℕ) (text : Text) (v : Value) : Prop :=
  ∃ body space, text = body ++ space ∧ (∀ c ∈ space, isBlank c) ∧ Spells depth body v

def SpellsKey (text key : Text) : Prop :=
  ∀ rest, readKey (skipBlank (text ++ ':' :: rest)) = .ok (key, rest)

def SpellsMember (depth : ℕ) (text : Text) (entry : Text × Value) : Prop :=
  ∃ name body, text = name ++ ':' :: body ∧ SpellsKey name entry.1 ∧ SpellsItem depth body entry.2

section

variable {depth : ℕ} {text space before after rest : Text} {v : Value} {texts : List Text}
  {items : List Value} {entries : List (Text × Value)}

theorem Spells.blank (blank : ∀ c ∈ space, isBlank c) (h : Spells depth text v) :
    Spells depth (space ++ text) v := by
  intro fuel rest enough ends
  rw [List.length_append] at enough
  rw [List.append_assoc]
  exact readValue_congr (skipBlank_append blank _).symm (h fuel rest (by omega) ends)

theorem Spells.item (h : Spells depth text v) : SpellsItem depth text v :=
  ⟨text, [], (List.append_nil text).symm, List.forall_mem_nil _, h⟩

theorem EntrySpells.member {entry : Text × Value} (h : EntrySpells depth text entry) :
    SpellsMember depth text entry := by
  obtain ⟨body, same, shared, spelled⟩ := h
  refine ⟨_, body, same, fun rest => ?_, spelled.item⟩
  rw [escape_append, skipBlank_cons (by decide), ← escape_append]
  exact readKey_escape shared rest

theorem spells_of_step (nonempty : text ≠ [])
    (h : ∀ fuel rest, 2 * text.length ≤ fuel + 1 → Ends rest →
      readValue (fuel + 1) depth (text ++ rest) = .ok (v, rest)) : Spells depth text v := by
  intro fuel rest enough ends
  have size := List.length_pos_iff.mpr nonempty
  cases fuel with
  | zero => omega
  | succ fuel => exact h fuel rest enough ends

theorem spells_scalar
    (h : ∀ rest, Ends rest → readScalarValue (text ++ rest) = .ok (v, rest)) :
    Spells depth text v := by
  have step := readScalarValue_step (h [] ends_nil)
  rw [List.append_nil] at step
  obtain ⟨c, tail, rfl, printed, noList, _, noObject⟩ := step.head
  apply spells_of_step (List.cons_ne_nil c tail)
  intro fuel rest _ ends
  have scalar := h rest ends
  rw [List.cons_append] at scalar ⊢
  rw [readValue, skipBlank_cons printed]
  split
  next same => cases same; exact absurd rfl noList
  next same => cases same; exact absurd rfl noObject
  next => exact scalar

section

variable (blank : ∀ c ∈ space, isBlank c) (blank' : ∀ c ∈ after, isBlank c)

include blank blank'

theorem readItems_intercalate {fuel : ℕ} (h : List.Forall₂ (SpellsItem depth) texts items)
    (nonempty : texts ≠ []) (enough : 2 * ((',' :: space).intercalate texts).length + 1 ≤ fuel) :
    readItems fuel depth ((',' :: space).intercalate texts ++ (after ++ ']' :: rest)) =
      .ok (items, rest) := by
  induction h generalizing fuel with
  | nil => exact absurd rfl nonempty
  | @cons text item texts items first others ih =>
    obtain ⟨fuel, rfl⟩ := Nat.exists_eq_succ_of_ne_zero (Nat.ne_of_gt (Nat.zero_lt_of_lt enough))
    obtain ⟨body, gap, rfl, blank'', first⟩ := first
    cases others with
    | nil =>
      rw [List.intercalate_singleton, List.length_append] at enough
      rw [List.intercalate_singleton, List.append_assoc]
      have closes : Ends (']' :: rest) := ends_cons (by decide) rest
      have read := first fuel _ (by omega) (ends_append blank'' (ends_append blank' closes))
      rw [← List.append_assoc gap] at read ⊢
      exact readItems_last (List.forall_mem_append.mpr ⟨blank'', blank'⟩) read
    | cons second others =>
      simp only [List.intercalate_cons_cons, List.length_append, List.length_cons,
        List.append_assoc, List.cons_append] at enough ih ⊢
      have comma (next : Text) : Ends (',' :: next) := ends_cons (by decide) next
      apply readItems_more blank'' (first fuel _ (by omega) (ends_append blank'' (comma _)))
      apply readItems_congr (skipBlank_append blank _).symm
      exact ih (List.cons_ne_nil _ _) (by omega)

theorem readEntries_intercalate {fuel : ℕ} (h : List.Forall₂ (SpellsMember depth) texts entries)
    (nonempty : texts ≠ []) (enough : 2 * ((',' :: space).intercalate texts).length + 1 ≤ fuel) :
    readEntries fuel depth
        (skipBlank ((',' :: space).intercalate texts ++ (after ++ '\x7d' :: rest))) =
      .ok (entries, rest) := by
  induction h generalizing fuel with
  | nil => exact absurd rfl nonempty
  | @cons text entry texts entries first others ih =>
    obtain ⟨fuel, rfl⟩ := Nat.exists_eq_succ_of_ne_zero (Nat.ne_of_gt (Nat.zero_lt_of_lt enough))
    obtain ⟨name, text, rfl, keyed, body, gap, rfl, blank'', first⟩ := first
    cases others with
    | nil =>
      simp only [List.intercalate_singleton, List.length_append, List.length_cons,
        List.append_assoc, List.cons_append] at enough ⊢
      have closes : Ends ('\x7d' :: rest) := ends_cons (by decide) rest
      have read := first fuel _ (by omega) (ends_append blank'' (ends_append blank' closes))
      rw [← List.append_assoc gap] at read ⊢
      exact readEntries_last (List.forall_mem_append.mpr ⟨blank'', blank'⟩) (keyed _) read
    | cons second others =>
      simp only [List.intercalate_cons_cons, List.length_append, List.length_cons,
        List.append_assoc, List.cons_append] at enough ih ⊢
      have comma (next : Text) : Ends (',' :: next) := ends_cons (by decide) next
      apply readEntries_more blank'' (keyed _)
        (first fuel _ (by omega) (ends_append blank'' (comma _)))
      rw [skipBlank_append blank]
      exact ih (List.cons_ne_nil _ _) (by omega)

variable (blank'' : ∀ c ∈ before, isBlank c)

include blank''

theorem spells_array (h : List.Forall₂ (SpellsItem depth) texts items) (nonempty : texts ≠ []) :
    Spells (depth + 1) ('[' :: (before ++ ((',' :: space).intercalate texts ++ (after ++ [']']))))
      (.array items) := by
  apply spells_of_step (List.cons_ne_nil _ _)
  intro fuel rest enough _
  simp only [List.length_cons, List.length_append] at enough
  simp only [List.cons_append, List.append_assoc, List.nil_append]
  apply readValue_array
  apply readItems_congr (skipBlank_append blank'' _).symm
  exact readItems_intercalate blank blank' h nonempty (by omega)

theorem spells_record (h : List.Forall₂ (SpellsMember depth) texts entries)
    (nonempty : texts ≠ []) :
    Spells (depth + 1)
      ('\x7b' :: (before ++ ((',' :: space).intercalate texts ++ (after ++ ['\x7d']))))
      (.ofEntries entries) := by
  apply spells_of_step (List.cons_ne_nil _ _)
  intro fuel rest enough _
  simp only [List.length_cons, List.length_append] at enough
  simp only [List.cons_append, List.append_assoc, List.nil_append]
  apply readValue_record
  rw [skipBlank_append blank'']
  exact readEntries_intercalate blank blank' h nonempty (by omega)

end

theorem spells_array_nil {space : Text} (blank : ∀ c ∈ space, isBlank c) :
    Spells (depth + 1) ('[' :: (space ++ [']'])) (.array []) := by
  apply spells_of_step (List.cons_ne_nil _ _)
  intro fuel rest _ _
  have closes : skipBlank (space ++ ([']'] ++ rest)) = ']' :: rest :=
    (skipBlank_append blank _).trans (skipBlank_cons (by decide) rest)
  rw [List.cons_append, List.append_assoc, readValue, skipBlank_cons (by decide)]
  simp only [closes]

theorem spells_record_nil {space : Text} (blank : ∀ c ∈ space, isBlank c) :
    Spells (depth + 1) ('\x7b' :: (space ++ ['\x7d'])) (.record []) := by
  apply spells_of_step (List.cons_ne_nil _ _)
  intro fuel rest _ _
  have closes : skipBlank (space ++ (['\x7d'] ++ rest)) = '\x7d' :: rest :=
    (skipBlank_append blank _).trans (skipBlank_cons (by decide) rest)
  rw [List.cons_append, List.append_assoc, readValue, skipBlank_cons (by decide)]
  simp only [closes]

theorem read_of_spells (h : Spells maxDepth text v) : read text = .ok v := by
  have found := h (steps text) [] (Nat.le_add_right _ 2) ends_nil
  rw [List.append_nil] at found
  rw [read, found]
  rfl

end

end DataLiteral.Json

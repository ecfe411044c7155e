import Mathlib
import DataLiteral.Json.Reader

set_option autoImplicit false

namespace DataLiteral.Json

section

variable {text rest : Text}

theorem skipBlank_append {space : Text} (blank : ∀ c ∈ space, isBlank c) (text : Text) :
    skipBlank (space ++ text) = skipBlank text :=
  List.dropWhile_append_of_pos blank

theorem skipBlank_cons {c : Char} (printed : isBlank c = false) (text : Text) :
    skipBlank (c :: text) = c :: text :=
  List.dropWhile_cons_of_neg (by simp [printed])

theorem skipBlank_skipBlank (text : Text) : skipBlank (skipBlank text) = skipBlank text :=
  List.dropWhile_idempotent _ _

theorem exists_blank (text : Text) :
    ∃ space, text = space ++ skipBlank text ∧ ∀ c ∈ space, isBlank c :=
  ⟨text.takeWhile isBlank, List.takeWhile_append_dropWhile.symm,
    fun _ member => List.mem_takeWhile_imp member⟩

theorem readWord_ok_iff {value found : Value} {word : Text} :
    readWord value word text = .ok (found, rest) ↔ found = value ∧ text = word ++ rest := by
  induction word generalizing text with
  | nil =>
    rw [readWord, Except.ok.injEq, Prod.mk.injEq, eq_comm]
    rfl
  | cons w word ih =>
    cases text with
    | nil => simp [readWord]
    | cons c text =>
      rw [readWord]
      split
      next same => simp [ih, same]
      next other => simp [other]

theorem ne_of_startsNumber {c d : Char} (starts : (c = '-' || c.isDigit))
    (other : (d = '-' || d.isDigit) = false) : c ≠ d := by
  rintro rfl
  rw [other] at starts
  cases starts

inductive ScalarStep : Text → Value → Text → Prop where
  | null (rest : Text) : ScalarStep ("null".toList ++ rest) .null rest
  | yes (rest : Text) : ScalarStep ("true".toList ++ rest) (.boolean true) rest
  | no (rest : Text) : ScalarStep ("false".toList ++ rest) (.boolean false) rest
  | string {text s rest : Text} (read : readString text = .ok (s, rest)) :
      ScalarStep ('"' :: text) (.string s) rest
  | number {c : Char} {text rest : Text} {n : Number} (starts : c = '-' || c.isDigit)
      (read : readNumber (c :: text) = .ok (n, rest)) : ScalarStep (c :: text) (.number n) rest

theorem readScalarValue_step {v : Value} (h : readScalarValue text = .ok (v, rest)) :
    ScalarStep text v rest := by
  unfold readScalarValue at h
  split at h
  next => cases h
  split at h
  next first =>
    obtain ⟨rfl, rfl⟩ := readWord_ok_iff.mp h
    exact first ▸ .null rest
  split at h
  next first =>
    obtain ⟨rfl, rfl⟩ := readWord_ok_iff.mp h
    exact first ▸ .yes rest
  split at h
  next first =>
    obtain ⟨rfl, rfl⟩ := readWord_ok_iff.mp h
    exact first ▸ .no rest
  split at h
  next quote =>
    split at h <;> cases h
    next read => exact quote ▸ .string read
  split at h
  next starts =>
    split at h <;> cases h
    next read => exact .number starts read
  next => cases h

theorem ScalarStep.readScalarValue {v : Value} (step : ScalarStep text v rest) :
    readScalarValue text = .ok (v, rest) := by
  cases step with
  | null => exact readWord_ok_iff.mpr ⟨rfl, rfl⟩
  | yes => exact readWord_ok_iff.mpr ⟨rfl, rfl⟩
  | no => exact readWord_ok_iff.mpr ⟨rfl, rfl⟩
  | string read => simp [Json.readScalarValue, read]
  | number starts read =>
    have apart {d : Char} := ne_of_startsNumber (d := d) starts
    rw [Json.readScalarValue, if_neg (apart (by decide)), if_neg (apart (by decide)),
      if_neg (apart (by decide)), if_neg (apart (by decide)), if_pos starts, read]

theorem ScalarStep.head {v : Value} (step : ScalarStep text v rest) :
    ∃ c tail, text = c :: tail ∧ isBlank c = false ∧ c ≠ '[' ∧ c ≠ ']' ∧ c ≠ '\x7b' := by
  cases step with
  | null => exact ⟨'n', _, rfl, by decide⟩
  | yes => exact ⟨'t', _, rfl, by decide⟩
  | no => exact ⟨'f', _, rfl, by decide⟩
  | string => exact ⟨'"', _, rfl, by decide⟩
  | number starts =>
    have apart {d : Char} := ne_of_startsNumber (d := d) starts
    refine ⟨_, _, rfl, ?_, apart (by decide), apart (by decide), apart (by decide)⟩
    simp [isBlank, apart (d := ' ') (by decide), apart (d := '\t') (by decide),
      apart (d := '\n') (by decide), apart (d := '\r') (by decide)]

def Continues {α : Type} (closing : Char) (read : Text → Result (List α)) (text : Text)
    (later : List α) (rest : Text) : Prop :=
  ∃ space, (∀ c ∈ space, isBlank c) ∧
    (later = [] ∧ text = space ++ closing :: rest ∨
      ∃ next, text = space ++ ',' :: next ∧ read (skipBlank next) = .ok (later, rest))

theorem readContinuation_ok {closing : Char} {missing atEnd : Cause} {found : Continuation}
    (h : readContinuation closing missing atEnd text = .ok found) :
    ∃ space, (∀ c ∈ space, isBlank c) ∧
      ((∃ rest, found = .done rest ∧ text = space ++ closing :: rest) ∨
        ∃ next, found = .more (skipBlank next) ∧ text = space ++ ',' :: next) := by
  obtain ⟨space, whole, blank⟩ := exists_blank text
  refine ⟨space, blank, ?_⟩
  rw [readContinuation] at h
  split at h
  next => cases h
  next c next shape =>
    rw [shape] at whole
    split at h
    next closes =>
      cases h
      exact .inl ⟨next, rfl, closes ▸ whole⟩
    split at h
    next comma =>
      split at h
      next => cases h
      next shape' =>
        split at h <;> cases h
        exact .inr ⟨next, congrArg _ shape'.symm, comma ▸ whole⟩
    next => cases h

variable {α : Type} {closing : Char} {missing atEnd : Cause} {read : Text → Result (List α)}
  {later : List α}

theorem continues_done
    (h : readContinuation closing missing atEnd text = .ok (.done rest)) :
    Continues closing read text [] rest := by
  obtain ⟨space, blank, ⟨_, same, parts⟩ | ⟨_, same, _⟩⟩ := readContinuation_ok h <;> cases same
  exact ⟨space, blank, .inl ⟨rfl, parts⟩⟩

theorem continues_more {after : Text}
    (h : readContinuation closing missing atEnd text = .ok (.more after))
    (more : read after = .ok (later, rest)) : Continues closing read text later rest := by
  obtain ⟨space, blank, ⟨_, same, _⟩ | ⟨next, same, parts⟩⟩ := readContinuation_ok h <;> cases same
  exact ⟨space, blank, .inr ⟨next, parts, more⟩⟩

end

section

variable {fuel depth : ℕ} {text rest : Text}

inductive ValueStep (fuel : ℕ) : ℕ → Text → Value → Text → Prop where
  | scalar {depth : ℕ} {text rest : Text} {v : Value} (step : ScalarStep text v rest) :
      ValueStep fuel depth text v rest
  | arrayNil {depth : ℕ} {inside rest : Text} (closes : skipBlank inside = ']' :: rest) :
      ValueStep fuel (depth + 1) ('[' :: inside) (.array []) rest
  | array {depth : ℕ} {inside rest : Text} {items : List Value}
      (read : readItems fuel depth (skipBlank inside) = .ok (items, rest)) :
      ValueStep fuel (depth + 1) ('[' :: inside) (.array items) rest
  | recordNil {depth : ℕ} {inside rest : Text} (closes : skipBlank inside = '\x7d' :: rest) :
      ValueStep fuel (depth + 1) ('\x7b' :: inside) (.ofEntries []) rest
  | record {depth : ℕ} {inside rest : Text} {entries : Entries Value}
      (read : readEntries fuel depth (skipBlank inside) = .ok (entries, rest)) :
      ValueStep fuel (depth + 1) ('\x7b' :: inside) (.ofEntries entries) rest

theorem readValue_step {v : Value} (h : readValue fuel depth text = .ok (v, rest)) :
    ∃ less, fuel = less + 1 ∧ ValueStep less depth (skipBlank text) v rest := by
  cases fuel with
  | zero => rw [readValue] at h; cases h
  | succ less =>
    refine ⟨less, rfl, ?_⟩
    rw [readValue] at h
    split at h
    next shape =>
      rw [shape]
      cases depth with
      | zero => cases h
      | succ depth =>
        dsimp only at h
        split at h
        next => cases h
        next closes => cases h; exact .arrayNil closes
        next =>
          split at h <;> cases h
          next read => exact .array read
    next shape =>
      rw [shape]
      cases depth with
      | zero => cases h
      | succ depth =>
        dsimp only at h
        split at h
        next => cases h
        next closes => cases h; exact .recordNil closes
        next =>
          split at h <;> cases h
          next read => exact .record read
    next => exact .scalar (readScalarValue_step h)

theorem readItems_step {items : List Value} (h : readItems fuel depth text = .ok (items, rest)) :
    ∃ less item after later, fuel = less + 1 ∧ items = item :: later ∧
      readValue less depth text = .ok (item, after) ∧
      Continues ']' (readItems less depth) after later rest := by
  cases fuel with
  | zero => rw [readItems] at h; cases h
  | succ less =>
    rw [readItems] at h
    split at h
    next => cases h
    next first =>
      split at h
      next => cases h
      next ends =>
        cases h
        exact ⟨less, _, _, [], rfl, rfl, first, continues_done ends⟩
      next goesOn =>
        split at h <;> cases h
        next more => exact ⟨less, _, _, _, rfl, rfl, first, continues_more goesOn more⟩

theorem readEntries_step {entries : Entries Value}
    (h : readEntries fuel depth text = .ok (entries, rest)) :
    ∃ less key keyed value after later, fuel = less + 1 ∧ entries = (key, value) :: later ∧
      readKey text = .ok (key, keyed) ∧ readValue less depth keyed = .ok (value, after) ∧
      Continues '\x7d' (readEntries less depth) after later rest := by
  cases fuel with
  | zero => rw [readEntries] at h; cases h
  | succ less =>
    rw [readEntries] at h
    split at h
    next => cases h
    next named =>
      split at h
      next => cases h
      next first =>
        split at h
        next => cases h
        next ends =>
          cases h
          exact ⟨less, _, _, _, _, [], rfl, rfl, named, first, continues_done ends⟩
        next goesOn =>
          split at h <;> cases h
          next more =>
            exact ⟨less, _, _, _, _, _, rfl, rfl, named, first, continues_more goesOn more⟩

theorem read_step {v : Value} (h : read text = .ok v) :
    ∃ rest, readValue (steps text) maxDepth text = .ok (v, rest) ∧ ∀ c ∈ rest, isBlank c := by
  unfold read finish at h
  split at h
  next => cases h
  next rest found =>
    split at h
    next atEnd =>
      cases h
      exact ⟨rest, found, List.dropWhile_eq_nil_iff.mp atEnd⟩
    next => cases h

end

end DataLiteral.Json

import DataLiteral.Proofs.Json.Finite
import DataLiteral.Proofs.Value.Parts

set_option autoImplicit false

namespace DataLiteral

def Number.IsCanonical : Number → Prop
  | .int _ => True
  | .uint n => Int64.maxValue.toInt < n.toNat
  | .float x => x.isFinite

theorem Number.isCanonical_ofInt {n : ℤ} {number : Number} (h : Number.ofInt? n = some number) :
    number.IsCanonical := by
  simp only [Number.ofInt?] at h
  split at h
  next => cases h; trivial
  next outside =>
    split at h <;> cases h
    next inside =>
      have same : (UInt64.ofNat n.toNat).toNat = n.toNat := UInt64.toNat_ofNat_of_lt inside.2
      have low : Int64.minValue.toInt ≤ 0 := by decide
      rw [Number.IsCanonical, same]
      omega

namespace Value

def IsDecoded : Value → Prop
  | .undefined => False
  | .number n => n.IsCanonical
  | _ => True

structure DecodedWithin (depth : ℕ) (v : Value) : Prop where
  parts : ∀ w ∈ v.parts, w.IsDecoded
  nesting : v.depth ≤ depth

theorem IsDecoded.isDefined {v : Value} (h : v.IsDecoded) : v.isDefined := by
  cases v with
  | undefined => exact h.elim
  | _ => rfl

end Value

namespace Json

theorem isFinite_signed {x : Binary64} (h : x.isFinite) (negative : Bool) :
    (if negative then x.neg else x).isFinite := by
  cases negative with
  | true => exact Binary64.isFinite_neg h
  | false => exact h

theorem isFinite_zero (negative : Bool) : (Binary64.zero negative).isFinite := by
  cases negative <;> decide

theorem isCanonical_integer (negative : Bool) {significand : ℕ}
    (small : significand ≤ significandLimit) : (integer negative significand).IsCanonical := by
  unfold integer
  split
  next => exact isFinite_zero true
  split
  next kept => exact Number.isCanonical_ofInt kept
  next =>
    have finite := (Binary64.isPlain_ofNat (small.trans significandLimit_le)).isFinite
    exact isFinite_signed finite negative

theorem Reads.isCanonical {negative : Bool} {n : Decimal.Numeral} {number : Number}
    (h : Reads negative n number) : number.IsCanonical := by
  cases h with
  | integer _ small => exact isCanonical_integer negative small
  | scaled _ _ _ _ small scaled => exact isFinite_signed (isFinite_scale small scaled) negative
  | vanishing _ => exact isFinite_zero negative

inductive IsScalar : Value → Prop where
  | null : IsScalar .null
  | boolean (value : Bool) : IsScalar (.boolean value)
  | number (value : Number) (canonical : value.IsCanonical) : IsScalar (.number value)
  | string (value : Text) : IsScalar (.string value)

section

variable {fuel depth : ℕ} {text rest : Text} {v : Value}

theorem ScalarStep.isScalar (step : ScalarStep text v rest) : IsScalar v := by
  cases step with
  | null => exact .null
  | yes => exact .boolean true
  | no => exact .boolean false
  | string => exact .string _
  | number _ read =>
    obtain ⟨_, _, _, _, reads⟩ := readNumber_reads read
    exact .number _ reads.isCanonical

theorem Continues.forall_mem {α : Type} {closing : Char} {reader : Text → Result (List α)}
    {later : List α} {P : α → Prop} (h : Continues closing reader text later rest)
    (more : ∀ {next}, reader next = .ok (later, rest) → ∀ a ∈ later, P a) : ∀ a ∈ later, P a := by
  obtain ⟨_, _, ⟨rfl, _⟩ | ⟨_, _, read⟩⟩ := h
  next => exact List.forall_mem_nil _
  next => exact more read

section

variable {P : ℕ → Value → Prop} (scalar : ∀ depth v, IsScalar v → P depth v)
  (array : ∀ depth items, (∀ item ∈ items, P depth item) → P (depth + 1) (.array items))
  (record : ∀ depth (entries : Entries Value), (∀ entry ∈ entries, P depth entry.2) →
    P (depth + 1) (.ofEntries entries))

include scalar array record

-- The three readers call each other with less fuel, so one induction on the fuel is for all three.
theorem readers_induction :
    (∀ {depth text rest v}, readValue fuel depth text = .ok (v, rest) → P depth v) ∧
    (∀ {depth text rest items}, readItems fuel depth text = .ok (items, rest) →
      ∀ item ∈ items, P depth item) ∧
    ∀ {depth text rest entries}, readEntries fuel depth text = .ok (entries, rest) →
      ∀ entry ∈ entries, P depth entry.2 := by
  induction fuel using Nat.strong_induction_on with
  | _ fuel ih =>
  refine ⟨?_, ?_, ?_⟩ <;> intro depth text rest found h
  next =>
    obtain ⟨less, rfl, step⟩ := readValue_step h
    obtain ⟨-, lists, objects⟩ := ih less less.lt_succ_self
    generalize skipBlank text = front at step
    cases step with
    | scalar step => exact scalar depth found step.isScalar
    | arrayNil => exact array _ [] (List.forall_mem_nil _)
    | array read => exact array _ _ (lists read)
    | recordNil => exact record _ [] (List.forall_mem_nil _)
    | record read => exact record _ _ (objects read)
  next =>
    obtain ⟨less, item, _, later, rfl, rfl, first, others⟩ := readItems_step h
    obtain ⟨values, lists, -⟩ := ih less less.lt_succ_self
    exact List.forall_mem_cons.mpr ⟨values first, others.forall_mem lists⟩
  next =>
    obtain ⟨less, _, _, _, _, later, rfl, rfl, _, first, others⟩ := readEntries_step h
    obtain ⟨values, -, objects⟩ := ih less less.lt_succ_self
    exact List.forall_mem_cons.mpr ⟨values first, others.forall_mem objects⟩

theorem read_induction (h : read text = .ok v) : P maxDepth v := by
  obtain ⟨_, found, _⟩ := read_step h
  exact (readers_induction scalar array record).1 found

end

theorem decodedWithin_of_scalar (leaf : IsScalar v) : v.DecodedWithin depth := by
  cases leaf with
  | number value canonical =>
    exact ⟨List.forall_mem_singleton.mpr canonical, Nat.zero_le depth⟩
  | null | boolean | string => exact ⟨List.forall_mem_singleton.mpr trivial, Nat.zero_le depth⟩

theorem decodedWithin_array {items : List Value} (h : ∀ item ∈ items, item.DecodedWithin depth) :
    (Value.array items).DecodedWithin (depth + 1) := by
  constructor
  next => exact Value.forall_parts_array.mpr ⟨trivial, fun item member => (h item member).parts⟩
  next =>
    apply Nat.succ_le_succ
    exact Value.depthItems_le_iff.mpr fun item member => (h item member).nesting

theorem decodedWithin_ofEntries {entries : Entries Value}
    (h : ∀ entry ∈ entries, entry.2.DecodedWithin depth) :
    (Value.ofEntries entries).DecodedWithin (depth + 1) := by
  have kept (entry) (member : entry ∈ entries.collect) : entry.2.DecodedWithin depth :=
    h entry (Entries.mem_of_mem_collect member)
  constructor
  next =>
    exact Value.forall_parts_record.mpr ⟨trivial, fun entry member => (kept entry member).parts⟩
  next =>
    apply Nat.succ_le_succ
    exact Value.depthEntries_le_iff.mpr fun entry member => (kept entry member).nesting

theorem decodedWithin_of_read (h : read text = .ok v) : v.DecodedWithin maxDepth :=
  read_induction (fun _ _ => decodedWithin_of_scalar) (fun _ _ => decodedWithin_array)
    (fun _ _ => decodedWithin_ofEntries) h

end

end Json

end DataLiteral

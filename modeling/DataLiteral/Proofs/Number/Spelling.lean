import DataLiteral.Proofs.Binary64.Nearest
import DataLiteral.Proofs.Decimal.Fewest
import DataLiteral.Proofs.Number.Value

set_option autoImplicit false

namespace DataLiteral

open Binary64 (IsNearest infinityCode magnitude nearestTo)
open Decimal (Numeral)

namespace Decimal

open Numeral (isMark)

def IsPlain (c : Char) : Prop :=
  c.isDigit ∨ c = '.'

theorem IsPlain.not_isMark {c : Char} (h : IsPlain c) : ¬isMark c := by
  intro mark
  simp only [isMark, Bool.or_eq_true, beq_iff_eq] at mark
  rcases mark with rfl | rfl <;> exact absurd h (by unfold IsPlain; decide)

theorem Numeral.WellFormed.isPlain {n : Numeral} (h : n.WellFormed) :
    ∀ c ∈ n.whole ++ n.fraction, IsPlain c := by
  intro c member
  rcases List.mem_append.mp member with whole | fraction
  next => exact .inl (h.whole.2 c whole)
  next =>
    rcases h.fraction with none' | ⟨places, shape, digits⟩
    next => simp [none'] at fraction
    next =>
      rw [shape] at fraction
      exact (List.mem_cons.mp fraction).symm.imp (digits.2 c) id

theorem Numeral.WellFormed.exponent_iff {n : Numeral} (h : n.WellFormed) :
    n.exponent ≠ [] ↔ ∃ c ∈ n.text, isMark c := by
  constructor
  next =>
    intro present
    rcases h.exponent with none' | ⟨mark, sign, value, shape, isMark, _⟩
    next => exact absurd none' present
    next => exact ⟨mark, by simp [text, shape], isMark⟩
  next =>
    rintro ⟨c, member, mark⟩ none'
    rw [text, none', List.append_nil] at member
    exact (h.isPlain c member).not_isMark mark

theorem isPlain_positional (d : Decimal) : ∀ c ∈ d.positional, IsPlain c := by
  have digits {c : Char} (member : c ∈ d.significant) : IsPlain c :=
    .inl (isDigit_significant d c member)
  have zeros {k : ℕ} {c : Char} (member : c ∈ List.replicate k '0') : IsPlain c :=
    .inl (Text.isDigit_zeros k c member)
  have point {c : Char} (member : c ∈ "0.".toList) : IsPlain c := by
    have either : c = '0' ∨ c = '.' := by simpa using member
    rcases either with rfl | rfl
    next => exact .inl rfl
    next => exact .inr rfl
  intro c member
  unfold positional at member
  split at member
  next =>
    rcases List.mem_append.mp member with front | digit
    next => exact (List.mem_append.mp front).elim point zeros
    next => exact digits digit
  next => exact (List.mem_append.mp member).elim point digits
  next whole _ _ =>
    dsimp only at member
    split at member
    next => exact (List.mem_append.mp member).elim digits zeros
    next =>
      rcases List.mem_append.mp member with before | after
      next => exact digits (List.mem_of_mem_take before)
      next =>
        rcases List.mem_cons.mp after with rfl | after
        next => exact .inr rfl
        next => exact digits (List.mem_of_mem_drop after)

theorem mem_scientific (d : Decimal) : 'e' ∈ d.scientific := by
  unfold scientific
  split <;> simp

end Decimal

namespace Number

theorem exists_isMark_iff (x : Binary64) :
    (∃ c ∈ finiteMagnitude x, Numeral.isMark c) ↔ usesExponent x := by
  rw [finiteMagnitude]
  cases zero : x.isZero with
  | true => simp [usesExponent_of_isZero zero, Numeral.isMark]
  | false =>
    rw [if_neg Bool.false_ne_true]
    cases usesExponent x with
    | true =>
      rw [if_pos rfl]
      exact iff_of_true ⟨'e', Decimal.mem_scientific _, rfl⟩ rfl
    | false =>
      rw [if_neg Bool.false_ne_true]
      refine iff_of_false ?_ Bool.false_ne_true
      rintro ⟨c, member, mark⟩
      exact (Decimal.isPlain_positional _ c member).not_isMark mark

theorem magnitude_largeCode : magnitude largeCode = 10 ^ 21 := by
  have shown : Binary64.units largeCode = 10 ^ 21 * 2 ^ Binary64.unitShift := by decide +kernel
  rw [magnitude, shown, Nat.cast_mul, mul_div_cancel_right₀ _ (by positivity)]
  norm_num

theorem smallCode_eq : smallCode = (nearestTo false (1 / 10 ^ 6)).code := by
  have ratio : ((1 <<< Binary64.unitShift : ℕ) : ℚ) / (Decimal.tenTo 6 : ℕ) =
      Binary64.inUnits (1 / 10 ^ 6) := by
    rw [Nat.one_shiftLeft, Binary64.tenTo_cast, Binary64.inUnits]
    ring
  rw [smallCode, Binary64.ofRatio, Binary64.nearestCode_eq_codeNear (Decimal.tenTo_pos _) ratio,
    nearestTo]

theorem usesExponent_iff (x : Binary64) :
    usesExponent x ↔ 10 ^ 21 ≤ magnitude x.code ∨
      0 < magnitude x.code ∧ magnitude x.code < magnitude (nearestTo false (1 / 10 ^ 6)).code := by
  have positive : 0 < magnitude x.code ↔ x.code ≠ 0 :=
    (Binary64.magnitude_nonneg _).lt_iff_ne'.trans Binary64.magnitude_eq_zero_iff.not
  rw [← magnitude_largeCode, Binary64.magnitude_strictMono.le_iff_le, positive, ← smallCode_eq,
    Binary64.magnitude_strictMono.lt_iff_lt, usesExponent]
  simp

theorem read_literal (n : Number) :
    Script.read n.literal = some (.number (split n.literal).1 (split n.literal).2) := by
  have lexed := yields_literal n [] (by simp [Script.Detached])
  rw [List.append_nil, Script.tokens_nil, Option.map_some, List.append_nil] at lexed
  have positive : 0 < 2 * (tokens n.literal).length := by
    rw [tokens]
    split <;> exact Nat.succ_pos _
  have parsed := parseValue_tokens n (2 * (tokens n.literal).length - 1) []
  rw [List.append_nil, Nat.sub_add_cancel positive] at parsed
  exact Script.read_eq lexed parsed

theorem length_significant_le {x : Binary64} (bound : x.code ≤ infinityCode) {d d' : Decimal}
    (value : d.rat = if x.isZero then 0 else (Decimal.shortest x.code).rat)
    (reads : Decimal.Reads x.code d'.rat) : d.significant.length ≤ d'.significant.length := by
  cases zero : x.isZero with
  | true =>
    rw [zero, if_pos rfl] at value
    have nothing : d.rat = Decimal.rat ⟨0, 0⟩ := by
      rw [value, Decimal.rat, Nat.cast_zero, zero_mul]
    rw [Decimal.significant_eq_of_rat_eq nothing]
    exact Nat.zero_le _
  | false =>
    rw [zero, if_neg Bool.false_ne_true] at value
    rw [Decimal.significant_eq_of_rat_eq value]
    exact Decimal.length_shortest_le (beq_eq_false_iff_ne.mp zero) bound reads

/-- What a numeral for a finite double has to be. The bounds for an exponent are doubles: ten to the
21st is one, and of ten to the -6th the nearest counts. -/
structure Spells (n : Numeral) (x : Binary64) : Prop where
  grammar : n.WellFormed
  -- Among the doubles of one sign, this one alone is nearest to the numeral.
  nearest : ∀ y : Binary64, ¬y.isNaN → y.isNegative = x.isNegative →
    (IsNearest y.code n.value.rat ↔ y = x)
  fewest : ∀ m : Numeral, m.WellFormed → IsNearest x.code m.value.rat →
    n.significant.length ≤ m.significant.length
  exponent : n.exponent ≠ [] ↔ 10 ^ 21 ≤ magnitude x.code ∨
    0 < magnitude x.code ∧ magnitude x.code < magnitude (nearestTo false (1 / 10 ^ 6)).code

/-- A finite double is written with its sign and the shortest numeral that it is nearest to. -/
theorem literal_spells {x : Binary64} (finite : x.isFinite) :
    ∃ n : Numeral, (float x).literal = signText x.isNegative ++ n.text ∧ Spells n x ∧
      Script.read (float x).literal = some (.number x.isNegative n.text) := by
  obtain ⟨n, shape, wellFormed, value⟩ := writes_finiteMagnitude x
  have bound : x.code < infinityCode := of_decide_eq_true finite
  have literal := literal_finite finite
  have read := read_literal (float x)
  rw [literal, split_append _ (isMagnitude_of_writes (writes_finiteMagnitude x)), shape] at read
  rw [shape] at literal
  refine ⟨n, literal, ⟨wellFormed, ?_, ?_, ?_⟩, by rw [literal]; exact read⟩
  next =>
    intro y notNaN sign
    have bound' : y.code ≤ infinityCode :=
      Nat.le_of_not_lt fun above => notNaN (decide_eq_true above)
    rw [Binary64.isNearest_iff n.value.rat_nonneg bound', value, codeNear_finiteMagnitude finite]
    constructor
    next =>
      intro same
      rw [← Binary64.ofCode_code x, ← Binary64.ofCode_code y, sign, same]
    next =>
      rintro rfl
      rfl
  next =>
    intro m grammar nearest
    rw [← wellFormed.significant_value, ← grammar.significant_value]
    have reads := (Binary64.isNearest_iff m.value.rat_nonneg bound.le).mp nearest
    exact length_significant_le bound.le value reads
  next => rw [wellFormed.exponent_iff, ← shape, exists_isMark_iff, usesExponent_iff]

theorem literal_spells_least :
    let x : Binary64 := ⟨0x8000000000000001⟩
    x.isFinite ∧ (float x).literal = "-5e-324".toList ∧
      ∃ n : Numeral, "-5e-324".toList = signText true ++ n.text ∧ Spells n x ∧
        Script.read "-5e-324".toList = some (.number true n.text) := by
  intro x
  have finite : x.isFinite := by decide
  have literal : (float x).literal = "-5e-324".toList := by decide +kernel
  have negative : x.isNegative = true := by decide
  have spelled := literal_spells finite
  rw [literal, negative] at spelled
  exact ⟨finite, literal, spelled⟩

end Number

end DataLiteral

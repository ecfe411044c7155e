import DataLiteral.Proofs.Binary64.Arithmetic

set_option autoImplicit false

namespace DataLiteral

open Binary64 (codeNear inUnits infinityCode magnitude unitShift units)

namespace Text

theorem trimEnd_append_replicate (c : Char) (text : Text) (k : ℕ) :
    trimEnd c (text ++ List.replicate k c) = trimEnd c text := by
  have ends : ∀ d ∈ List.replicate k c, (d == c) = true := by
    intro d member
    rw [(List.mem_replicate.mp member).2, beq_self_eq_true]
  rw [trimEnd, trimEnd, List.reverse_append, List.reverse_replicate,
    List.dropWhile_append_of_pos ends]

theorem ofNat_mul_pow {n : ℕ} (positive : 0 < n) (k : ℕ) :
    ofNat (n * 10 ^ k) = ofNat n ++ List.replicate k '0' := by
  rw [ofNat_append positive (isDigit_zeros k), numeral_zeros, List.length_replicate, Nat.add_zero]

theorem zeros_append_dropWhile (text : Text) :
    ∃ k, text = List.replicate k '0' ++ text.dropWhile (· == '0') := by
  have front : text.takeWhile (· == '0') =
      List.replicate (text.takeWhile (· == '0')).length '0' := by
    refine List.eq_replicate_iff.mpr ⟨rfl, fun c member => ?_⟩
    simpa using List.mem_takeWhile_imp member
  exact ⟨_, by rw [← front, List.takeWhile_append_dropWhile]⟩

theorem trimEnd_dropWhile {text : Text} (isDigit : ∀ c ∈ text, c.isDigit) :
    trimEnd '0' (text.dropWhile (· == '0')) = trimEnd '0' (ofNat (numeral 10 text)) := by
  obtain ⟨k, split⟩ := zeros_append_dropWhile text
  have value : numeral 10 text = numeral 10 (text.dropWhile (· == '0')) := by
    conv_lhs => rw [split, numeral_append, numeral_zeros, Nat.zero_mul, Nat.zero_add]
  have later : ∀ c ∈ text.dropWhile (· == '0'), c.isDigit :=
    fun c member => isDigit c ((List.dropWhile_sublist _).mem member)
  rw [value]
  cases shape : text.dropWhile (· == '0') with
  | nil => rfl
  | cons c rest =>
    have notZero : c ≠ '0' := by
      have stop := List.head_dropWhile_not (· == '0') (l := text) (by simp [shape])
      simpa [shape] using stop
    rw [shape] at later
    rw [ofNat_numeral later (.inr (by simpa using notZero)) (List.cons_ne_nil _ _)]

end Text

namespace Decimal

theorem length_significant_le_length (d : Decimal) :
    d.significant.length ≤ (Text.ofNat d.digits).length := by
  obtain ⟨k, split⟩ := significant_append d
  rw [split, List.length_append]
  exact Nat.le_add_right _ _

theorem significant_mul_pow {digits : ℕ} (positive : 0 < digits) (k : ℕ) (e e' : ℤ) :
    significant ⟨digits * 10 ^ k, e⟩ = significant ⟨digits, e'⟩ := by
  rw [significant, significant, Text.ofNat_mul_pow positive, Text.trimEnd_append_replicate]

theorem length_significant_le {d : Decimal} {count : ℕ} (positive : 0 < count)
    (small : d.digits ≤ 10 ^ count) : d.significant.length ≤ count := by
  rcases Nat.lt_or_eq_of_le small with less | round
  next =>
    exact d.length_significant_le_length.trans ((Text.length_ofNat_le_iff positive).mpr less)
  next =>
    have single := significant_mul_pow one_pos count d.exponent 0
    rw [one_mul, ← round] at single
    rw [single]
    exact positive

theorem significant_eq_of_rat_eq {d d' : Decimal} (same : d.rat = d'.rat) :
    d.significant = d'.significant := by
  wlog order : d'.exponent ≤ d.exponent generalizing d d'
  next => exact (this same.symm (le_of_not_ge order)).symm
  obtain ⟨k, shift⟩ := Int.le.dest order
  have power : (10 : ℚ) ^ d'.exponent ≠ 0 := by positivity
  have digits : d'.digits = d.digits * 10 ^ k := by
    rw [rat, rat, ← shift, zpow_add₀ (by norm_num), mul_left_comm, mul_comm (d'.digits : ℚ),
      mul_right_inj' power, zpow_natCast] at same
    exact_mod_cast same.symm
  rcases Nat.eq_zero_or_pos d.digits with zero | positive
  next => rw [significant, significant, digits, zero, Nat.zero_mul]
  next =>
    have shown := significant_mul_pow positive k d'.exponent d.exponent
    rw [← digits] at shown
    exact shown.symm

def Numeral.significant (n : Numeral) : Text :=
  Text.trimEnd '0' ((n.whole ++ n.places).dropWhile (· == '0'))

theorem Numeral.WellFormed.significant_value {n : Numeral} (h : n.WellFormed) :
    n.value.significant = n.significant := by
  have isDigit : ∀ c ∈ n.whole ++ n.places, c.isDigit := by
    intro c member
    rcases List.mem_append.mp member with whole | place
    next => exact h.whole.2 c whole
    next =>
      rcases h.fraction with none' | ⟨places, shape, digits⟩
      next => simp [places, none'] at place
      next =>
        rw [Numeral.places, shape] at place
        exact digits.2 c place
  exact (Text.trimEnd_dropWhile isDigit).symm

section

variable {code count : ℕ} {a b x : ℚ} {d : Decimal}

theorem reads_of_between (nonneg : 0 ≤ a) (low : a ≤ x) (high : x ≤ b) (first : Reads code a)
    (last : Reads code b) : Reads code x := by
  have scale : (0 : ℚ) ≤ (2 ^ unitShift : ℕ) := Nat.cast_nonneg _
  have below := Binary64.codeNear_mono (inUnits_nonneg nonneg)
    (mul_le_mul_of_nonneg_right low scale)
  have above := Binary64.codeNear_mono (inUnits_nonneg (nonneg.trans low))
    (mul_le_mul_of_nonneg_right high scale)
  unfold Reads at first last ⊢
  exact le_antisymm ((min_le_min_left _ above).trans_eq last)
    (first.symm.trans_le (min_le_min_left _ below))

theorem reads_magnitude (bound : code ≤ infinityCode) : Reads code (magnitude code) := by
  rw [Reads, Binary64.inUnits_magnitude, Binary64.codeNear_units, Nat.min_eq_right bound]

theorem not_reads_zero (nonzero : code ≠ 0) : ¬Reads code 0 := by
  intro reads
  have nothing : inUnits 0 = 0 := zero_mul _
  rw [Reads, nothing, Binary64.codeNear_of_lt_half le_rfl (by norm_num), Nat.min_zero] at reads
  exact nonzero reads.symm

theorem floor_div_le (code : ℕ) : (floor code : ℚ) / (10 ^ places : ℕ) ≤ magnitude code := by
  rw [magnitude, div_le_div_iff₀ (by positivity) (by positivity)]
  exact_mod_cast floor_mul_le code

theorem lt_floor_div (code : ℕ) :
    magnitude code < ((floor code + 1 : ℕ) : ℚ) / (10 ^ places : ℕ) := by
  rw [magnitude, div_lt_div_iff₀ (by positivity) (by positivity)]
  exact_mod_cast lt_floor_mul code

theorem floor_lt (code : ℕ) : floor code < 10 ^ width code := by
  have positive : 0 < width code := List.length_pos_iff.mpr (Text.ofNat_ne_nil _)
  exact (Text.length_ofNat_le_iff positive).mp le_rfl

theorem pick_isSome_iff : (pick code count).isSome ↔
    readsAs code (floor code / tenTo (width code - count) * tenTo (width code - count)) ∨
      readsAs code ((floor code / tenTo (width code - count) + 1) *
        tenTo (width code - count)) := by
  simp only [pick]
  generalize tenTo (width code - count) = step
  generalize readsAs code (floor code / step * step) = below
  generalize readsAs code ((floor code / step + 1) * step) = above
  generalize isNearerAbove code step (floor code / step) = nearer
  cases below <;> cases above <;> cases nearer <;> simp

theorem digits_pick_le (h : pick code count = some d) :
    d.digits ≤ floor code / tenTo (width code - count) + 1 := by
  simp only [pick] at h
  split at h
  next =>
    cases h
    exact Nat.le_succ _
  next =>
    split at h <;> cases h
    exact le_rfl

theorem digits_pick_le_pow (nonzero : code ≠ 0) (short : count ≤ 17)
    (h : pick code count = some d) : d.digits ≤ 10 ^ count := by
  have wide := lt_width nonzero
  have leading : floor code / tenTo (width code - count) < 10 ^ count := by
    rw [tenTo_eq, Nat.div_lt_iff_lt_mul (by positivity), ← pow_add,
      Nat.add_sub_of_le (by omega)]
    exact floor_lt code
  exact (digits_pick_le h).trans leading

theorem exists_pick_le (positive : 0 < count) (short : count ≤ 17)
    (found : (pick code count).isSome) :
    ∃ first, 0 < first ∧ first ≤ count ∧ pick code first = some (shortest code) := by
  obtain ⟨more, total⟩ := Nat.exists_eq_add_of_le short
  have some' : ((List.range count).findSome? fun i => pick code (i + 1)).isSome := by
    rw [List.findSome?_isSome_iff]
    refine ⟨count - 1, List.mem_range.mpr (by omega), ?_⟩
    rwa [Nat.sub_add_cancel positive]
  obtain ⟨d, first⟩ := Option.isSome_iff_exists.mp some'
  have same : shortest code = d := by
    rw [shortest, total, List.range_add, List.findSome?_append, first]
    rfl
  obtain ⟨i, member, picked⟩ := List.exists_of_findSome?_eq_some first
  exact ⟨i + 1, Nat.succ_pos i, List.mem_range.mp member, same ▸ picked⟩

theorem digits_ne_zero_of_reads (nonzero : code ≠ 0) (reads : Reads code d.rat) :
    d.digits ≠ 0 := by
  intro zero
  rw [rat, zero, Nat.cast_zero, zero_mul] at reads
  exact not_reads_zero nonzero reads

-- A number with few digits that has as many places before the point as the double, or more, is
-- among the multiples that are looked at.
theorem exists_multiple (short : count ≤ width code) (length : d.significant.length ≤ count)
    (large : (10 ^ (width code - 1) : ℕ) ≤ d.rat * (10 ^ places : ℕ)) :
    ∃ m : ℕ, d.rat * (10 ^ places : ℕ) = m * (10 ^ (width code - count) : ℕ) := by
  have ten : (10 : ℚ) ≠ 0 := by norm_num
  have digits := Text.numeral_lt d.isDigit_significant
  have value := rat_eq_significant d
  have split : (10 : ℚ) ^ d.point =
      10 ^ d.significant.length * 10 ^ (d.point - d.significant.length) := by
    rw [← zpow_natCast, ← zpow_add₀ ten]
    congr 1
    ring
  have bound : d.rat < 10 ^ d.point := by
    rw [value, split]
    exact mul_lt_mul_of_pos_right (by exact_mod_cast digits) (by positivity)
  have order : ((width code - 1 : ℕ) : ℤ) < d.point + places := by
    have below : (10 : ℚ) ^ ((width code - 1 : ℕ) : ℤ) < 10 ^ (d.point + (places : ℤ)) := by
      rw [zpow_add₀ ten, zpow_natCast, zpow_natCast]
      calc (10 : ℚ) ^ (width code - 1) = (10 ^ (width code - 1) : ℕ) := by push_cast; rfl
        _ ≤ d.rat * (10 ^ places : ℕ) := large
        _ < 10 ^ d.point * 10 ^ places := by
          rw [Nat.cast_pow, Nat.cast_ofNat]
          exact mul_lt_mul_of_pos_right bound (by positivity)
    exact (zpow_lt_zpow_iff_right₀ (by norm_num)).mp below
  obtain ⟨more, shift⟩ := Int.le.dest (show ((width code - count : ℕ) : ℤ) ≤
    d.point - d.significant.length + places by omega)
  refine ⟨Text.numeral 10 d.significant * 10 ^ more, ?_⟩
  rw [value, Nat.cast_pow, Nat.cast_pow, Nat.cast_ofNat, mul_assoc, ← zpow_natCast 10 places,
    ← zpow_add₀ ten, ← shift, zpow_add₀ ten, zpow_natCast, zpow_natCast]
  push_cast
  ring

theorem leading_bounds (nonzero : code ≠ 0) (positive : 0 < count) (short : count ≤ 17) :
    10 ^ (width code - 1) ≤
        floor code / tenTo (width code - count) * tenTo (width code - count) ∧
      floor code / tenTo (width code - count) * tenTo (width code - count) ≤ floor code ∧
      floor code < (floor code / tenTo (width code - count) + 1) * tenTo (width code - count) := by
  have wide := lt_width nonzero
  have leading : 10 ^ (count - 1) ≤ floor code / tenTo (width code - count) := by
    rw [tenTo_eq, Nat.le_div_iff_mul_le (by positivity), ← pow_add]
    exact pow_le_of_lt_width nonzero (by omega)
  refine ⟨?_, Nat.div_mul_le_self _ _, ?_⟩
  next =>
    have split : width code - 1 = count - 1 + (width code - count) := by omega
    rw [split, pow_add]
    exact Nat.mul_le_mul_right _ leading
  next =>
    rw [Nat.add_one_mul]
    exact Nat.lt_div_mul_add (tenTo_pos _)

theorem pick_isSome_of_reads (nonzero : code ≠ 0) (finite : code ≤ infinityCode)
    (positive : 0 < count) (short : count ≤ 17) (reads : Reads code d.rat)
    (length : d.significant.length ≤ count) : (pick code count).isSome := by
  have wide := lt_width nonzero
  have scale : (0 : ℚ) < (10 ^ places : ℕ) := by positivity
  obtain ⟨large, low, high⟩ := leading_bounds nonzero positive short
  have cut := floor_div_le code
  have cut' := lt_floor_div code
  have multiple := exists_multiple (short.trans wide.le) length
  rw [tenTo_eq] at large low high
  rw [pick_isSome_iff, tenTo_eq, readsAs_iff, readsAs_iff]
  generalize ((10 ^ places : ℕ) : ℚ) = unit at *
  generalize floor code / 10 ^ (width code - count) = below at *
  generalize width code - count = k at *
  have outside : d.rat * unit ≤ (below * 10 ^ k : ℕ) ∨
      ((below + 1) * 10 ^ k : ℕ) ≤ d.rat * unit := by
    by_contra inside
    rw [not_or, not_le, not_le] at inside
    obtain ⟨m, same⟩ := multiple ((Nat.cast_le.mpr large).trans inside.1.le)
    rw [same] at inside
    have after : below * 10 ^ k < m * 10 ^ k := by exact_mod_cast inside.1
    have before : m * 10 ^ k < (below + 1) * 10 ^ k := by exact_mod_cast inside.2
    have after' := Nat.lt_of_mul_lt_mul_right after
    have before' := Nat.lt_of_mul_lt_mul_right before
    omega
  rcases outside with under | above
  next =>
    left
    apply reads_of_between d.rat_nonneg ((le_div_iff₀ scale).mpr under) _ reads
      (reads_magnitude finite)
    exact (div_le_div_of_nonneg_right (Nat.cast_le.mpr low) scale.le).trans cut
  next =>
    right
    apply reads_of_between (Binary64.magnitude_nonneg code) _ ((div_le_iff₀ scale).mpr above)
      (reads_magnitude finite) reads
    exact cut'.le.trans (div_le_div_of_nonneg_right (Nat.cast_le.mpr high) scale.le)

theorem reads_of_close (finite : code ≤ infinityCode) (nonneg : 0 ≤ x)
    (close : |x - magnitude code| ≤ 4504 / Binary64.parts * magnitude code) : Reads code x := by
  have within := Binary64.within_of_abs_sub_le close (by norm_num) (by norm_num)
    (Binary64.magnitude_nonneg code)
  have near := within.inUnits.position_sub_le (inUnits_nonneg nonneg)
    (inUnits_nonneg (Binary64.magnitude_nonneg code)) (by norm_num)
  rw [Binary64.inUnits_magnitude, Binary64.position_units] at near
  have found : codeNear (inUnits x) = code :=
    Binary64.codeNear_eq_of_lt (inUnits_nonneg nonneg) (near.trans_lt (by norm_num))
  rw [Reads, found, Nat.min_eq_right finite]

theorem reads_of_half {n k : ℕ} (finite : code ≤ infinityCode)
    (fine : ((10 ^ 16 * 10 ^ k : ℕ) : ℚ) ≤ magnitude code * (10 ^ places : ℕ))
    (half : |n - magnitude code * (10 ^ places : ℕ)| ≤ ((10 ^ k : ℕ) : ℚ) / 2) :
    Reads code (n / (10 ^ places : ℕ)) := by
  have scale : (0 : ℚ) < (10 ^ places : ℕ) := by positivity
  apply reads_of_close finite (by positivity)
  generalize ((10 ^ places : ℕ) : ℚ) = unit at *
  have part : 1 / (2 * 10 ^ 16) ≤ 4504 / Binary64.parts := by
    rw [Binary64.parts]
    norm_num
  have scaled : n / unit - magnitude code = (n - magnitude code * unit) / unit := by
    rw [sub_div, mul_div_cancel_right₀ _ scale.ne']
  push_cast at fine half
  rw [scaled, abs_div, abs_of_pos scale, div_le_iff₀ scale]
  calc |n - magnitude code * unit| ≤ (10 ^ k : ℚ) / 2 := half
    _ ≤ 1 / (2 * 10 ^ 16) * (magnitude code * unit) := by linarith
    _ ≤ 4504 / Binary64.parts * (magnitude code * unit) :=
      mul_le_mul_of_nonneg_right part (mul_nonneg (Binary64.magnitude_nonneg code) scale.le)
    _ = 4504 / Binary64.parts * magnitude code * unit := (mul_assoc _ _ _).symm

theorem pick_seventeen (nonzero : code ≠ 0) (finite : code ≤ infinityCode) :
    (pick code 17).isSome := by
  have wide := lt_width nonzero
  have scale : (0 : ℚ) < (10 ^ places : ℕ) := by positivity
  obtain ⟨large, low, high⟩ := leading_bounds nonzero (by decide : 0 < 17) le_rfl
  have cut := (div_le_iff₀ scale).mp (floor_div_le code)
  have cut' := (lt_div_iff₀ scale).mp (lt_floor_div code)
  have split : width code - 1 = 16 + (width code - 17) := by omega
  rw [tenTo_eq] at large low high
  rw [split, pow_add] at large
  rw [pick_isSome_iff, tenTo_eq, readsAs_iff, readsAs_iff]
  generalize floor code / 10 ^ (width code - 17) = below at *
  generalize width code - 17 = k at *
  have under : ((below * 10 ^ k : ℕ) : ℚ) ≤ magnitude code * (10 ^ places : ℕ) :=
    (Nat.cast_le.mpr low).trans cut
  have above : magnitude code * (10 ^ places : ℕ) ≤ ((below + 1) * 10 ^ k : ℕ) :=
    cut'.le.trans (Nat.cast_le.mpr high)
  have reads {n : ℕ} := reads_of_half (n := n) finite ((Nat.cast_le.mpr large).trans under)
  generalize ((10 ^ places : ℕ) : ℚ) = unit at *
  have step : (((below + 1) * 10 ^ k : ℕ) : ℚ) = (below * 10 ^ k : ℕ) + (10 ^ k : ℕ) := by
    rw [← Nat.cast_add, Nat.add_one_mul]
  rw [step] at above
  by_cases lower : magnitude code * unit - (below * 10 ^ k : ℕ) ≤ ((10 ^ k : ℕ) : ℚ) / 2
  next =>
    left
    apply reads
    rwa [abs_sub_comm, abs_of_nonneg (sub_nonneg.mpr under)]
  next =>
    right
    apply reads
    rw [step, abs_of_nonneg (sub_nonneg.mpr above)]
    linarith

theorem length_shortest_le (nonzero : code ≠ 0) (finite : code ≤ infinityCode)
    (reads : Reads code d.rat) :
    (shortest code).significant.length ≤ d.significant.length := by
  have positive : 0 < d.significant.length := by
    obtain ⟨c, rest, shape, _⟩ := head_significant (digits_ne_zero_of_reads nonzero reads)
    rw [shape]
    exact Nat.succ_pos _
  have bounded {count : ℕ} (some' : 0 < count) (short : count ≤ 17)
      (found : (pick code count).isSome) : (shortest code).significant.length ≤ count := by
    obtain ⟨first, least, most, picked⟩ := exists_pick_le some' short found
    have digits := digits_pick_le_pow nonzero (most.trans short) picked
    exact (length_significant_le least digits).trans most
  by_cases short : d.significant.length ≤ 17
  next =>
    apply bounded positive short
    exact pick_isSome_of_reads nonzero finite positive short reads le_rfl
  next => exact (bounded (by decide) le_rfl (pick_seventeen nonzero finite)).trans (by omega)

end

end Decimal

end DataLiteral

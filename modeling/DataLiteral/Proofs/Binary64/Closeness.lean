import DataLiteral.Proofs.Binary64.Rounding

set_option autoImplicit false

namespace DataLiteral.Binary64

-- Relative distances are counted in parts of which a rounding error has ten thousand at most.
def parts : ℚ :=
  2 ^ 53 * 10000

def Within (c a b : ℚ) : Prop :=
  a ≤ (1 + c / parts) * b ∧ b ≤ (1 + c / parts) * a

theorem parts_pos : 0 < parts := by
  unfold parts
  positivity

section

variable {c d e a b a' b' : ℚ}

theorem factor_pos (h : 0 ≤ c) : 0 < 1 + c / parts := by
  have positive := parts_pos
  positivity

theorem Within.symm (h : Within c a b) : Within c b a :=
  ⟨h.2, h.1⟩

theorem Within.refl (nonneg : 0 ≤ a) (h : 0 ≤ c) : Within c a a := by
  have part : 0 ≤ c / parts := div_nonneg h parts_pos.le
  have grown : a ≤ (1 + c / parts) * a := le_mul_of_one_le_left nonneg (by linarith)
  exact ⟨grown, grown⟩

theorem factor_mul_le (h : c + d + c * d / parts ≤ e) :
    (1 + c / parts) * (1 + d / parts) ≤ 1 + e / parts := by
  have positive := parts_pos
  have expand : (1 + c / parts) * (1 + d / parts) = 1 + (c + d + c * d / parts) / parts := by
    field_simp
    ring
  rw [expand]
  gcongr

theorem Within.trans (ab : Within c a b) (bd : Within d b b') (hc : 0 ≤ c) (hd : 0 ≤ d)
    (positive : 0 ≤ a) (positive' : 0 ≤ b') (h : c + d + c * d / parts ≤ e) : Within e a b' := by
  have total := factor_mul_le h
  have first := factor_pos hc
  have second := factor_pos hd
  constructor
  · calc a ≤ (1 + c / parts) * b := ab.1
      _ ≤ (1 + c / parts) * ((1 + d / parts) * b') := mul_le_mul_of_nonneg_left bd.1 first.le
      _ = (1 + c / parts) * (1 + d / parts) * b' := (mul_assoc _ _ _).symm
      _ ≤ (1 + e / parts) * b' := mul_le_mul_of_nonneg_right total positive'
  · calc b' ≤ (1 + d / parts) * b := bd.2
      _ ≤ (1 + d / parts) * ((1 + c / parts) * a) := mul_le_mul_of_nonneg_left ab.2 second.le
      _ = (1 + c / parts) * (1 + d / parts) * a := by ring
      _ ≤ (1 + e / parts) * a := mul_le_mul_of_nonneg_right total positive

theorem Within.mul (ab : Within c a b) (ab' : Within d a' b') (hc : 0 ≤ c) (hd : 0 ≤ d)
    (ha : 0 ≤ a) (hb : 0 ≤ b) (ha' : 0 ≤ a') (hb' : 0 ≤ b') (h : c + d + c * d / parts ≤ e) :
    Within e (a * a') (b * b') := by
  have total := factor_mul_le h
  have first := factor_pos hc
  have second := factor_pos hd
  constructor
  · calc a * a' ≤ (1 + c / parts) * b * ((1 + d / parts) * b') :=
          mul_le_mul ab.1 ab'.1 ha' (by positivity)
      _ = (1 + c / parts) * (1 + d / parts) * (b * b') := by ring
      _ ≤ (1 + e / parts) * (b * b') := mul_le_mul_of_nonneg_right total (by positivity)
  · calc b * b' ≤ (1 + c / parts) * a * ((1 + d / parts) * a') :=
          mul_le_mul ab.2 ab'.2 hb' (by positivity)
      _ = (1 + c / parts) * (1 + d / parts) * (a * a') := by ring
      _ ≤ (1 + e / parts) * (a * a') := mul_le_mul_of_nonneg_right total (by positivity)

theorem Within.inv (ab : Within c a b) (ha : 0 < a) (hb : 0 < b) :
    Within c a⁻¹ b⁻¹ := by
  constructor
  · rw [← div_eq_mul_inv, inv_eq_one_div, div_le_div_iff₀ ha hb, one_mul]
    exact ab.2
  · rw [← div_eq_mul_inv, inv_eq_one_div, div_le_div_iff₀ hb ha, one_mul]
    exact ab.1

theorem Within.scale (ab : Within c a b) {k : ℚ} (hk : 0 ≤ k) : Within c (a * k) (b * k) := by
  constructor
  · rw [← mul_assoc]
    exact mul_le_mul_of_nonneg_right ab.1 hk
  · rw [← mul_assoc]
    exact mul_le_mul_of_nonneg_right ab.2 hk

theorem Within.abs_sub_le (ab : Within c a b) : |a - b| ≤ c / parts * min a b := by
  rcases le_total a b with order | order
  · rw [min_eq_left order, abs_sub_comm, abs_of_nonneg (sub_nonneg.mpr order)]
    linarith [ab.2]
  · rw [min_eq_right order, abs_of_nonneg (sub_nonneg.mpr order)]
    linarith [ab.1]

theorem abs_position_sub_le (ha : 0 ≤ a) (hb : 0 ≤ b) :
    |position a - position b| ≤ |a - b| / gap (min a b) := by
  rcases le_total a b with order | order
  · obtain ⟨grows, bound⟩ := position_sub ha order
    rw [min_eq_left order, abs_sub_comm, abs_of_nonneg (sub_nonneg.mpr grows), abs_sub_comm,
      abs_of_nonneg (sub_nonneg.mpr order)]
    exact bound
  · obtain ⟨grows, bound⟩ := position_sub hb order
    rw [min_eq_right order, abs_of_nonneg (sub_nonneg.mpr grows),
      abs_of_nonneg (sub_nonneg.mpr order)]
    exact bound

theorem Within.position_sub_le (ab : Within c a b) (ha : 0 ≤ a) (hb : 0 ≤ b) (hc : 0 ≤ c) :
    |position a - position b| ≤ c / 10000 := by
  have room : min a b < 2 ^ 53 * gap (min a b) := lt_gap
  have positive := gap_pos (min a b)
  have part : 0 ≤ c / parts := div_nonneg hc parts_pos.le
  calc |position a - position b| ≤ |a - b| / gap (min a b) := abs_position_sub_le ha hb
    _ ≤ c / parts * min a b / gap (min a b) := by
      gcongr
      exact ab.abs_sub_le
    _ ≤ c / parts * (2 ^ 53 * gap (min a b)) / gap (min a b) := by
      gcongr
    _ = c / 10000 := by
      rw [parts]
      field_simp

theorem abs_sub_le_of_near {m n k : ℕ} {p q : ℚ} (first : |(m : ℚ) - p| ≤ 1 / 2)
    (second : |(n : ℚ) - q| ≤ 1 / 2) (close : |p - q| < k) : |(m : ℤ) - n| ≤ k := by
  rw [abs_le] at first second
  rw [abs_lt] at close
  have apart : |(m : ℚ) - n| < k + 1 := by
    rw [abs_lt]
    constructor <;> linarith
  have whole : |(m : ℤ) - n| < k + 1 := by exact_mod_cast apart
  exact Int.lt_add_one_iff.mp whole

theorem codeNear_sub_le {k : ℕ} (ha : 0 ≤ a) (hb : 0 ≤ b) (close : |position a - position b| < k) :
    |(codeNear a : ℤ) - codeNear b| ≤ k :=
  abs_sub_le_of_near (codeNear_sub ha) (codeNear_sub hb) close

theorem within_of_abs_sub_le (h : |a - b| ≤ c / parts * b) (hc : 0 ≤ c) (small : c ≤ 10000)
    (hb : 0 ≤ b) : Within (c + 1) a b := by
  have positive := parts_pos
  have more : c / parts ≤ (c + 1) / parts := by gcongr; linarith
  have wide : (c + 1) * c ≤ parts := by
    calc (c + 1) * c ≤ (10000 + 1) * 10000 := by gcongr
      _ ≤ parts := by rw [parts]; norm_num
  have back : 1 ≤ (1 + (c + 1) / parts) * (1 - c / parts) := by
    have expand : (1 + (c + 1) / parts) * (1 - c / parts) =
        1 + (1 - (c + 1) * c / parts) / parts := by
      field_simp
      ring
    have small' : (c + 1) * c / parts ≤ 1 := (div_le_one positive).mpr wide
    have rest : 0 ≤ (1 - (c + 1) * c / parts) / parts := div_nonneg (by linarith) positive.le
    linarith
  have factor : 0 ≤ 1 + (c + 1) / parts := (factor_pos (by linarith)).le
  obtain ⟨below, above⟩ := abs_le.mp h
  constructor
  · calc a ≤ (1 + c / parts) * b := by linarith
      _ ≤ (1 + (c + 1) / parts) * b := by gcongr
  · calc b ≤ (1 + (c + 1) / parts) * (1 - c / parts) * b := le_mul_of_one_le_left hb back
      _ = (1 + (c + 1) / parts) * ((1 - c / parts) * b) := mul_assoc _ _ _
      _ ≤ (1 + (c + 1) / parts) * a := mul_le_mul_of_nonneg_left (by linarith) factor

end

theorem units_codeNear_within {r : ℚ} (normal : 2 ^ 52 ≤ r) :
    Within 10001 (units (codeNear r)) r := by
  have nonneg : 0 ≤ r := le_trans (by positivity) normal
  have half : gap r / 2 ≤ 10000 / parts * r := by
    have least : 2 ^ 52 * gap r ≤ r := by
      by_cases zero : binade r = 0
      · rw [gap, zero, pow_zero, mul_one]
        exact normal
      · exact gap_le zero
    rw [parts]
    linarith
  have near := within_of_abs_sub_le ((units_codeNear_sub nonneg).trans half) (by norm_num) le_rfl
    nonneg
  norm_num at near
  exact near

end DataLiteral.Binary64

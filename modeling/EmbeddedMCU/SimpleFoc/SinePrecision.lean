import EmbeddedMCU.SimpleFoc.SineTable
import Mathlib.Analysis.Real.Pi.Bounds

/-!
# SimpleFoc/SinePrecision — `_sin` and `_cos` on their whole domain

    a in the quadrant      1st        2nd          3rd          4th
    table index            cell a     398-cell a   cell a-398   796-cell a
    near the point         a          π-a          a-π          2π-a

A quadrant is 199 cells, so every reflection lands in the table (`sinIndex_mem`), half a cell from
the reflected argument (`exists_folded`).
-/

namespace EmbeddedMCU

namespace FocUtils

/-! ## The sine -/

/-- A reflection moves the point and the argument by the same, to a hundred-thousandth. -/
theorem reflect_error {a : ℚ} (h0 : 0 ≤ a) {k : ℤ} {c : ℝ} (hk : |(k : ℝ) / 126.6873 - c| ≤ 1e-5) :
    |((k - cell a : ℤ) : ℝ) / 126.6873 - (c - a)| ≤ 0.00396
      ∧ |((k + cell a : ℤ) : ℝ) / 126.6873 - (c + a)| ≤ 0.00396 := by
  have hcell := cell_error h0
  push_cast
  rw [sub_div, add_div]
  have hsum : (0.5 : ℝ) / 126.6873 + 1e-5 ≤ 0.00396 := by norm_num
  rw [abs_le] at hk hcell
  constructor <;> rw [abs_le] <;> constructor <;> linarith

/-- **The index is half a cell from an argument of the first quadrant** with the same sine, up to
the sign `_sin` gives it. -/
theorem exists_folded {a : ℚ} (h0 : 0 ≤ a) :
    ∃ y : ℝ, |(sinIndex a : ℝ) / 126.6873 - y| ≤ 0.00396
      ∧ Real.sin a = (if a < pi then 1 else -1) * Real.sin y := by
  have hcell : round (126.6873 * a) = cell a := rfl
  have hpi : pi_2 < pi := by norm_num [pi_2, pi]
  have hlo := Real.pi_gt_d6
  have hhi := Real.pi_lt_d6
  have half : |((398 : ℤ) : ℝ) / 126.6873 - Real.pi| ≤ 1e-5 := by
    rw [abs_le]
    norm_num
    constructor <;> linarith
  have half' : |((-398 : ℤ) : ℝ) / 126.6873 - -Real.pi| ≤ 1e-5 := by
    rw [abs_le]
    norm_num
    constructor <;> linarith
  have whole : |((796 : ℤ) : ℝ) / 126.6873 - 2 * Real.pi| ≤ 1e-5 := by
    rw [abs_le]
    norm_num
    constructor <;> linarith
  rw [sinIndex, hcell]
  obtain q1 | q1 := lt_or_ge a pi_2
  · rw [if_pos q1, if_pos (q1.trans hpi)]
    exact ⟨a, (cell_error h0).trans (by norm_num), (one_mul _).symm⟩
  rw [if_neg q1.not_gt]
  obtain q2 | q2 := lt_or_ge a pi
  · rw [if_pos q2, if_pos q2]
    refine ⟨Real.pi - a, (reflect_error h0 half).1, ?_⟩
    rw [Real.sin_pi_sub, one_mul]
  rw [if_neg q2.not_gt, if_neg q2.not_gt]
  obtain q3 | q3 := lt_or_ge a threePi_2
  · rw [if_pos q3]
    refine ⟨-Real.pi + a, (reflect_error h0 half').2, ?_⟩
    rw [neg_add_eq_sub, Real.sin_sub_pi, neg_one_mul, neg_neg]
  · rw [if_neg q3.not_gt]
    refine ⟨2 * Real.pi - a, (reflect_error h0 whole).1, ?_⟩
    rw [Real.sin_two_pi_sub, neg_one_mul, neg_neg]

variable (atan2 : ℚ → ℚ → ℚ) (sqrt : ℚ → ℚ)

/-- **The table sine is the sine**, to a little over half a cell. -/
theorem sin_error {a : ℚ} (ha : a ∈ Set.Icc 0 twoPi) :
    |((sin (.exact atan2 sqrt) a : ℚ) : ℝ) - Real.sin a| ≤ 0.0045 := by
  obtain ⟨y, hy, hsin⟩ := exists_folded ha.1
  have hentry := (entry_error (sinIndex_mem ha) hy).trans (by norm_num : _ ≤ (0.0045 : ℝ))
  have hread : sin (.exact atan2 sqrt) a
      = (if a < pi then 0.0001 else -0.0001) * sineAt (sinIndex a) := sin_eq _ a
  rw [hread, hsin]
  split_ifs
  · rw [one_mul]
    exact hentry
  · rw [neg_mul, Rat.cast_neg, neg_one_mul, ← neg_sub', abs_neg]
    exact hentry

/-! ## The cosine -/

theorem cosArg_exact (a : ℚ) : cosArg (.exact atan2 sqrt) a
    = if a + pi_2 > twoPi then a + pi_2 - twoPi else a + pi_2 := rfl

/-- The argument `_cos` passes is one of `_sin`'s, -/
theorem cosArg_mem {a : ℚ} (ha : a ∈ Set.Icc 0 twoPi) :
    cosArg (.exact atan2 sqrt) a ∈ Set.Icc 0 twoPi := by
  obtain ⟨h0, h1⟩ := ha
  have hpi_2 : 0 < pi_2 := by norm_num [pi_2]
  have hturn : pi_2 < twoPi := by norm_num [pi_2, twoPi]
  rw [cosArg_exact]
  split_ifs with h
  · constructor <;> linarith
  · constructor <;> linarith

/-- …and its sine the cosine, but for the digits of the constants. -/
theorem sin_cosArg (a : ℚ) :
    |Real.sin (cosArg (.exact atan2 sqrt) a) - Real.cos a| ≤ 1e-5 := by
  have hlo := Real.pi_gt_d6
  have hhi := Real.pi_lt_d6
  have hpi_2 : ((pi_2 : ℚ) : ℝ) = 1.57079632679 := by norm_num [pi_2]
  have htwoPi : ((twoPi : ℚ) : ℝ) = 6.28318530718 := by norm_num [twoPi]
  rw [cosArg_exact]
  split_ifs with h
  · have hcos : Real.cos a = Real.sin (a + Real.pi / 2 - 2 * Real.pi) := by
      rw [Real.sin_sub_two_pi, Real.sin_add_pi_div_two]
    rw [hcos]
    refine (Real.abs_sin_sub_sin_le _ _).trans ?_
    push_cast
    rw [hpi_2, htwoPi, abs_le]
    constructor <;> linarith
  · rw [← Real.sin_add_pi_div_two]
    refine (Real.abs_sin_sub_sin_le _ _).trans ?_
    push_cast
    rw [hpi_2, abs_le]
    constructor <;> linarith

/-! ## The stated precision -/

/-- **Precision `±0.005`, between `0` and `2PI`**, and no index outside the table. -/
theorem sin_cos_precision {a : ℚ} (ha : a ∈ Set.Icc 0 twoPi) :
    InTable (sinIndex a) ∧ InTable (sinIndex (cosArg (.exact atan2 sqrt) a))
      ∧ |((sin (.exact atan2 sqrt) a : ℚ) : ℝ) - Real.sin a| ≤ 0.005
      ∧ |((cos (.exact atan2 sqrt) a : ℚ) : ℝ) - Real.cos a| ≤ 0.005 := by
  have hshift := cosArg_mem atan2 sqrt ha
  refine ⟨sinIndex_mem ha, sinIndex_mem hshift, (sin_error atan2 sqrt ha).trans (by norm_num), ?_⟩
  calc |((cos (.exact atan2 sqrt) a : ℚ) : ℝ) - Real.cos a|
      ≤ |((cos (.exact atan2 sqrt) a : ℚ) : ℝ) - Real.sin (cosArg (.exact atan2 sqrt) a)|
          + |Real.sin (cosArg (.exact atan2 sqrt) a) - Real.cos a| := abs_sub_le _ _ _
    _ ≤ 0.0045 + 1e-5 := add_le_add (sin_error atan2 sqrt hshift) (sin_cosArg atan2 sqrt a)
    _ ≤ 0.005 := by norm_num

/-- At the seam between the second quadrant and the third. -/
theorem sin_cos_precision_pi :
    InTable (sinIndex pi) ∧ InTable (sinIndex (cosArg (.exact (fun _ _ => 0) id) pi))
      ∧ |((sin (.exact (fun _ _ => 0) id) pi : ℚ) : ℝ) - Real.sin pi| ≤ 0.005
      ∧ |((cos (.exact (fun _ _ => 0) id) pi : ℚ) : ℝ) - Real.cos pi| ≤ 0.005 :=
  sin_cos_precision (fun _ _ => 0) id ⟨by norm_num [pi], by norm_num [pi, twoPi]⟩

end FocUtils

end EmbeddedMCU

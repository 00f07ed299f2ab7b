import EmbeddedMCU.Machinery.SinTaylor
import EmbeddedMCU.SimpleFoc.Utils
import Mathlib.Analysis.SpecialFunctions.Trigonometric.Bounds

/-!
# SimpleFoc/SineTable — the table against the real sine

The 200 entries are compared with a Taylor sum of the sine at the point they stand for, by
evaluation; everywhere in between the sine is at most half a cell away.
-/

namespace EmbeddedMCU

namespace FocUtils

/-- Every entry is the Taylor sum at its point, to half a unit in the last place. -/
theorem sineAt_sinSum : ∀ i : Fin 200,
    |(sineAt i.val : ℚ) / 10000 - sinSum 7 (i.val / 126.6873 : ℚ)| ≤ 5e-5 := by
  decide +kernel

/-- Over a quarter turn seven terms of the Taylor sum are enough. -/
theorem sin_sub_sinSum_le {x : ℝ} (h0 : 0 ≤ x) (h1 : x ≤ 1.6) :
    |Real.sin x - sinSum 7 x| ≤ 1e-6 := by
  refine (abs_sin_sub_sinSum_le 7 x ?_).trans ?_
  · rw [abs_of_nonneg h0]
    push_cast
    linarith
  · rw [abs_of_nonneg h0]
    calc x ^ (2 * 7) / (2 * 7).factorial * 2
        ≤ 1.6 ^ (2 * 7) / (2 * 7).factorial * 2 := by gcongr
      _ ≤ 1e-6 := by norm_num [Nat.factorial]

/-- **Every entry is the sine at its point**, to half a unit in the last place. -/
theorem sineAt_error {i : ℤ} (h : InTable i) :
    |(sineAt i : ℝ) / 10000 - Real.sin (i / 126.6873)| ≤ 5.1e-5 := by
  obtain ⟨n, rfl⟩ := Int.eq_ofNat_of_zero_le h.1
  have hn : n < 200 := by
    have := h.2
    omega
  have htable : |(sineAt n : ℝ) / 10000 - sinSum 7 (n / 126.6873 : ℝ)| ≤ 5e-5 := by
    have hcast : ((sinSum 7 (n / 126.6873 : ℚ) : ℚ) : ℝ) = sinSum 7 (n / 126.6873 : ℝ) := by
      have h := map_sinSum (Rat.castHom ℝ) 7 (n / 126.6873 : ℚ)
      rw [eq_ratCast, eq_ratCast] at h
      push_cast at h
      exact h
    have h := Rat.cast_le (K := ℝ).mpr (sineAt_sinSum ⟨n, hn⟩)
    rw [Rat.cast_abs, Rat.cast_sub, hcast] at h
    push_cast at h
    exact h
  have hx0 : (0 : ℝ) ≤ n / 126.6873 := by positivity
  have hx1 : (n : ℝ) / 126.6873 ≤ 1.6 := by
    have : (n : ℝ) ≤ 199 := by exact_mod_cast Nat.le_of_lt_succ hn
    rw [div_le_iff₀ (by norm_num)]
    linarith
  have htaylor := sin_sub_sinSum_le hx0 hx1
  rw [Int.cast_natCast]
  rw [abs_le] at htable htaylor ⊢
  constructor <;> linarith [htable.1, htable.2, htaylor.1, htaylor.2]

/-- **A table entry is the sine of what lies near its point.** -/
theorem entry_error {i : ℤ} (h : InTable i) {y δ : ℝ} (hy : |(i : ℝ) / 126.6873 - y| ≤ δ) :
    |((0.0001 * sineAt i : ℚ) : ℝ) - Real.sin y| ≤ 5.1e-5 + δ := by
  have htable := sineAt_error h
  have hsin := (Real.abs_sin_sub_sin_le (i / 126.6873) y).trans hy
  have hcast : ((0.0001 * sineAt i : ℚ) : ℝ) = (sineAt i : ℝ) / 10000 := by
    push_cast
    ring
  rw [hcast]
  calc |(sineAt i : ℝ) / 10000 - Real.sin y|
      ≤ |(sineAt i : ℝ) / 10000 - Real.sin (i / 126.6873)|
          + |Real.sin (i / 126.6873) - Real.sin y| := abs_sub_le _ _ _
    _ ≤ 5.1e-5 + δ := add_le_add htable hsin

/-- An argument is at most half a cell away from the point it is looked up at. -/
theorem cell_error {a : ℚ} (h0 : 0 ≤ a) : |(cell a : ℝ) / 126.6873 - a| ≤ 0.5 / 126.6873 := by
  obtain ⟨hlo, hhi⟩ := round_bounds (mul_nonneg (by norm_num) h0 : 0 ≤ 126.6873 * a)
  have hlo' := Rat.cast_le (K := ℝ).mpr hlo
  have hhi' := Rat.cast_lt (K := ℝ).mpr hhi
  push_cast at hlo' hhi'
  rw [cell]
  norm_num [abs_le] at hlo' hhi' ⊢
  constructor <;> linarith

/-- **The looked-up sine is the sine**, to half a cell of the table. -/
theorem lookup_error {a : ℚ} (h0 : 0 ≤ a) (h : cell a ≤ 199) :
    |((0.0001 * sineAt (cell a) : ℚ) : ℝ) - Real.sin a| ≤ 0.004 := by
  have hcell : InTable (cell a) := ⟨round_nonneg (mul_nonneg (by norm_num) h0), h⟩
  exact (entry_error hcell (cell_error h0)).trans (by norm_num)

end FocUtils

end EmbeddedMCU

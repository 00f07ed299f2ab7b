import Mathlib.Analysis.Complex.Trigonometric
import Mathlib.Tactic.Linarith
import Mathlib.Tactic.FieldSimp

/-!
# Machinery/SinTaylor — a rational value of the sine, with its error

The Taylor sums of sine and cosine are the two parts of the exponential sum at `x·i`, so one bound
on the exponential (`Complex.exp_bound'`) bounds the sine sum for every number of terms.  At a
rational argument the sum is rational and can be evaluated.
-/

namespace EmbeddedMCU

open Finset

variable {K L : Type*} [Field K] [Field L]

/-- The first `n` terms of the Taylor series of the sine. -/
def sinSum (n : ℕ) (x : K) : K :=
  ∑ k ∈ range n, (-1) ^ k * x ^ (2 * k + 1) / (2 * k + 1).factorial

/-- The first `n` terms of the Taylor series of the cosine. -/
def cosSum (n : ℕ) (x : K) : K :=
  ∑ k ∈ range n, (-1) ^ k * x ^ (2 * k) / (2 * k).factorial

/-- The sum is evaluated in any field the argument is mapped into. -/
theorem map_sinSum (f : K →+* L) (n : ℕ) (x : K) : f (sinSum n x) = sinSum n (f x) := by
  simp [sinSum]

theorem map_cosSum (f : K →+* L) (n : ℕ) (x : K) : f (cosSum n x) = cosSum n (f x) := by
  simp [cosSum]

/-- **The exponential sum at `x·i` splits into the cosine sum and the sine sum.** -/
theorem expSum_mul_I (n : ℕ) (x : ℂ) :
    ∑ m ∈ range (2 * n), (x * Complex.I) ^ m / m.factorial
      = cosSum n x + sinSum n x * Complex.I := by
  induction n with
  | zero => simp [cosSum, sinSum]
  | succ n ih =>
    have heven : Complex.I ^ (2 * n) = (-1) ^ n := by rw [pow_mul, Complex.I_sq]
    rw [show 2 * (n + 1) = 2 * n + 1 + 1 by ring, sum_range_succ, sum_range_succ, ih, cosSum,
      sinSum, cosSum, sinSum, sum_range_succ, sum_range_succ, mul_pow, mul_pow, pow_succ Complex.I,
      heven]
    ring

/-- **The sine sum approximates the sine**, whatever the number of terms. -/
theorem abs_sin_sub_sinSum_le (n : ℕ) (x : ℝ) (hx : |x| ≤ n + 1 / 2) :
    |Real.sin x - sinSum n x| ≤ |x| ^ (2 * n) / (2 * n).factorial * 2 := by
  have hnorm : ‖(x : ℂ) * Complex.I‖ = |x| := by
    rw [Complex.norm_mul, Complex.norm_I, mul_one, Complex.norm_real, Real.norm_eq_abs]
  have hbound := Complex.exp_bound' (x := (x : ℂ) * Complex.I) (n := 2 * n) (by
    rw [hnorm, div_le_iff₀ (by positivity)]
    push_cast
    linarith)
  rw [expSum_mul_I, hnorm] at hbound
  have him : (Complex.exp (x * Complex.I)
      - (cosSum n (x : ℂ) + sinSum n (x : ℂ) * Complex.I)).im = Real.sin x - sinSum n x := by
    have hc : cosSum n (x : ℂ) = ((cosSum n x : ℝ) : ℂ) := (map_cosSum Complex.ofRealHom n x).symm
    have hs : sinSum n (x : ℂ) = ((sinSum n x : ℝ) : ℂ) := (map_sinSum Complex.ofRealHom n x).symm
    rw [hc, hs, Complex.sub_im, Complex.exp_ofReal_mul_I_im]
    simp
  rw [← him]
  exact (Complex.abs_im_le_norm _).trans hbound

end EmbeddedMCU

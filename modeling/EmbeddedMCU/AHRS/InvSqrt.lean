import EmbeddedMCU.SimpleFoc.SqrtApprox

/-!
# AHRS/InvSqrt — the inverse square root of the attitude filter

    x ──bits──▸ y, x·y² ≈ 1 ──Newton──▸ y·(3 - x·y²)/2

The first guess is the subtraction of `_sqrtApprox` with another constant, so its square error is
found in the same three pieces (`sq_guess_mem`).  The step of Newton's method turns an error of
three and a half percent, on either side, into one of less than two tenths of a percent below.  In
exact arithmetic what is returned is never more than the inverse root; the stores of a `float` can
put it a millionth above (`invSqrt_error`).
-/

namespace EmbeddedMCU

namespace AHRS

open FocUtils Binary32

/-- The first guess of `AHRS_invSqrt`, on the bits. -/
def guessBits (i : Int32) : Int32 := (0x5f3759df : Int32) - (i >>> 1)

/-- `AHRS_invSqrt` -/
def invSqrt (A : FloatModel) (num : ℚ) : ℚ :=
  let num := A.store num
  let halfnum := A.store (0.5 * num)
  let y := Binary32.ofBits (guessBits (Binary32.toBits num))
  A.store (y * (1.5 - halfnum * y * y))

/-! ## The first guess -/

/-- **In each of the three pieces the square of the guess is near the inverse.** -/
theorem guess_pieces {m e n f : ℤ} (hm : NormalParts m e) (hn : NormalParts n f)
    (hs : 2 * 0x5f3759df ≤ m + 2 * n + (e + 2 * f + 447) * 2 ^ 23)
    (hs' : m + 2 * n + (e + 2 * f + 447) * 2 ^ 23 ≤ 2 * 0x5f3759df + 1) :
    0.9324 ≤ (m : ℚ) * n ^ 2 * 2 ^ (e + 2 * f) ∧ (m : ℚ) * n ^ 2 * 2 ^ (e + 2 * f) ≤ 1.0691 := by
  obtain ⟨hm1, hm2, -, -⟩ := hm
  obtain ⟨hn1, hn2, -, -⟩ := hn
  have hexp : e + 2 * f = -72 ∨ e + 2 * f = -71 ∨ e + 2 * f = -70 := by omega
  obtain hexp | hexp | hexp := hexp <;> rw [hexp] at hs hs' ⊢
  · exact rootBits_piece 49198014 16210400 16777215 72 (by omega) (by omega) (by omega) (by omega)
      (by omega) (by omega) (by norm_num) (by norm_num) (by norm_num)
  · exact rootBits_piece 40809406 12016096 16210399 71 (by omega) (by omega) (by omega) (by omega)
      (by omega) (by omega) (by norm_num) (by norm_num) (by norm_num)
  · exact rootBits_piece 32420798 8388608 12016095 70 (by omega) (by omega) (by omega) (by omega)
      (by omega) (by omega) (by norm_num) (by norm_num) (by norm_num)

/-- **The first guess** is a positive normal number, and its square the inverse of the number, to
seven percent. -/
theorem sq_guess_mem {x : ℚ} (hx : PosNormal x) :
    PosNormal (ofBits (guessBits (toBits x)))
      ∧ 0.9324 ≤ x * ofBits (guessBits (toBits x)) ^ 2
      ∧ x * ofBits (guessBits (toBits x)) ^ 2 ≤ 1.0691 := by
  obtain ⟨m, e, h, rfl⟩ := hx.exists_parts
  obtain ⟨n, f, hparts, hy, hs, hs'⟩ :=
    exists_subParts (K := 0x5f3759df) (by decide) (by decide) h
  have hsq : (m : ℚ) * 2 ^ e * (n * 2 ^ f) ^ 2 = m * n ^ 2 * 2 ^ (e + 2 * f) := by
    rw [zpow_add₀ two_ne_zero, two_mul, zpow_add₀ two_ne_zero]
    ring
  rw [guessBits, hy, hsq]
  exact ⟨hparts.posNormal, guess_pieces h hparts hs hs'⟩

/-! ## Newton's method -/

/-- The step, on the square error. -/
theorem mul_sq_newton (x y : ℚ) :
    x * (y * (1.5 - 0.5 * x * y * y)) ^ 2 = x * y ^ 2 * (3 - x * y ^ 2) ^ 2 / 4 := by ring

/-- **The step does not overshoot**: `w·(3-w)²/4` has its maximum, one, at one. -/
theorem newton_le_one {w : ℚ} (h : w ≤ 4) : w * (3 - w) ^ 2 / 4 ≤ 1 := by
  have hdiff : 1 - w * (3 - w) ^ 2 / 4 = (1 - w) ^ 2 * (4 - w) / 4 := by ring
  have : 0 ≤ (1 - w) ^ 2 * (4 - w) / 4 := by
    have := sub_nonneg.mpr h
    positivity
  linarith

/-- …and squares the error. -/
theorem le_newton {w : ℚ} (h0 : 0.9324 ≤ w) (h1 : w ≤ 1.0691) :
    0.9982 ^ 2 ≤ w * (3 - w) ^ 2 / 4 := by
  have hdiff : 1 - w * (3 - w) ^ 2 / 4 = (1 - w) ^ 2 * (4 - w) / 4 := by ring
  obtain h | h := le_total w 1
  · have hsq : (1 - w) ^ 2 ≤ 0.0676 ^ 2 := pow_le_pow_left₀ (by linarith) (by linarith) 2
    have := mul_le_mul hsq (by linarith : 4 - w ≤ 3.0676) (by linarith) (by norm_num)
    linarith
  · have hsq : (w - 1) ^ 2 ≤ 0.0691 ^ 2 := pow_le_pow_left₀ (by linarith) (by linarith) 2
    have := mul_le_mul hsq (by linarith : 4 - w ≤ 3) (by linarith) (by norm_num)
    linarith

/-- **After the step**, in exact arithmetic. -/
theorem newton_mem {x : ℚ} (hx : PosNormal x) :
    let y := ofBits (guessBits (toBits x))
    let z := y * (1.5 - 0.5 * x * y * y)
    0 ≤ z ∧ 0.9982 ^ 2 ≤ x * z ^ 2 ∧ x * z ^ 2 ≤ 1 := by
  intro y z
  obtain ⟨hnormal, hlo, hhi⟩ := sq_guess_mem hx
  have hy0 : 0 ≤ y := (two_zpow_pos _).le.trans hnormal.le
  have hz : x * z ^ 2 = x * y ^ 2 * (3 - x * y ^ 2) ^ 2 / 4 := mul_sq_newton x y
  refine ⟨mul_nonneg hy0 ?_, ?_, ?_⟩
  · have hhalf : 0.5 * x * y * y = x * y ^ 2 / 2 := by ring
    rw [hhalf]
    linarith
  · exact (le_newton hlo hhi).trans_eq hz.symm
  · exact hz.trans_le (newton_le_one (by linarith))

/-! ## The stores of a `float` -/

/-- **The step, from the stored half**, is off by a ten-millionth. -/
theorem newton_half_mem {x : ℚ} (hx : PosNormal x) :
    let y := ofBits (guessBits (toBits x))
    let z := y * (1.5 - 0.5 * x * y * y)
    let z' := y * (1.5 - Binary32.round (0.5 * x) * y * y)
    2 ^ (-126 : ℤ) ≤ z' ∧ (1 - 1e-7) * z ≤ z' ∧ z' ≤ (1 + 1e-7) * z := by
  intro y z z'
  obtain ⟨hnormal, hlo, hhi⟩ := sq_guess_mem hx
  have hy0 : 0 ≤ y := (two_zpow_pos _).le.trans hnormal.le
  have hx0 : 0 < x := (two_zpow_pos _).trans_le hx.le
  have hhalf := abs_round_sub_le_mul_of_le (y := 0.5 * x) (by linarith) (by linarith) hx.le
  have hsplit : z' = z - y * ((Binary32.round (0.5 * x) - 0.5 * x) * y ^ 2) := by
    simp only [z, z']
    ring
  have hz : z = y * (1.5 - x * y ^ 2 / 2) := by
    simp only [z]
    ring
  have herr : |(Binary32.round (0.5 * x) - 0.5 * x) * y ^ 2| ≤ 0.7e-7 := by
    rw [abs_mul, abs_of_nonneg (sq_nonneg y)]
    calc |Binary32.round (0.5 * x) - 0.5 * x| * y ^ 2 ≤ 2 ^ (-24 : ℤ) * x * y ^ 2 :=
          mul_le_mul_of_nonneg_right hhalf (sq_nonneg y)
      _ = 2 ^ (-24 : ℤ) * (x * y ^ 2) := mul_assoc _ _ _
      _ ≤ 2 ^ (-24 : ℤ) * 1.0691 := mul_le_mul_of_nonneg_left hhi (two_zpow_pos _).le
      _ ≤ 0.7e-7 := by norm_num
  obtain ⟨herr0, herr1⟩ := abs_le.mp herr
  have hscale : 0.7e-7 * y ≤ 1e-7 * z := by
    rw [hz, ← mul_assoc, mul_comm _ y, mul_comm _ y, mul_assoc]
    exact mul_le_mul_of_nonneg_left (by linarith) hy0
  have hdown := mul_le_mul_of_nonneg_left herr0 hy0
  have hup := mul_le_mul_of_nonneg_left herr1 hy0
  have hlow : (1 - 1e-7) * z ≤ z' := by linarith
  refine ⟨?_, hlow, by linarith⟩
  have hy : 2 ^ (-65 : ℤ) ≤ y := by
    rw [← sq_le_sq₀ (two_zpow_pos _).le hy0]
    have hx128 : x * y ^ 2 ≤ 2 ^ (128 : ℤ) * y ^ 2 :=
      mul_le_mul_of_nonneg_right hx.lt.le (sq_nonneg y)
    have h : (0.9324 : ℚ) ≤ 2 ^ (128 : ℤ) * y ^ 2 := hlo.trans hx128
    norm_num at h ⊢
    linarith
  have hyz : 0.9 * y ≤ z := by
    rw [hz, mul_comm]
    exact mul_le_mul_of_nonneg_left (by linarith) hy0
  refine le_trans ?_ hlow
  norm_num at hy ⊢
  linarith

/-! ## The error -/

/-- From the square to the root. -/
theorem mul_sqrt_mem {x z : ℚ} (lo hi : ℚ) (hx : 0 ≤ x) (hz : 0 ≤ z) (hlo : 0 ≤ lo)
    (hhi : 0 ≤ hi) (h : lo ^ 2 ≤ x * z ^ 2) (h' : x * z ^ 2 ≤ hi ^ 2) :
    (lo : ℝ) ≤ (z : ℝ) * √x ∧ (z : ℝ) * √x ≤ hi := by
  have hroot : (0 : ℝ) ≤ (z : ℝ) * √x := mul_nonneg (Rat.cast_nonneg.mpr hz) (Real.sqrt_nonneg _)
  have hsq : ((z : ℝ) * √x) ^ 2 = ((x * z ^ 2 : ℚ) : ℝ) := by
    rw [mul_pow, Real.sq_sqrt (Rat.cast_nonneg.mpr hx)]
    push_cast
    ring
  constructor
  · rw [← sq_le_sq₀ (Rat.cast_nonneg.mpr hlo) hroot, hsq, ← Rat.cast_pow]
    exact Rat.cast_le.mpr h
  · rw [← sq_le_sq₀ hroot (Rat.cast_nonneg.mpr hhi), hsq, ← Rat.cast_pow]
    exact Rat.cast_le.mpr h'

variable (atan2 : ℚ → ℚ → ℚ) (sqrt : ℚ → ℚ)

/-- **Within two tenths of a percent of the inverse root**, for every positive normal number: never
above it when the arithmetic behind the bits is exact, and not by more than a millionth when the
stores are rounded. -/
theorem invSqrt_error {x : ℚ} (hx : PosNormal x) :
    (0.9982 ≤ ((invSqrt (.exact atan2 sqrt) x : ℚ) : ℝ) * √x
        ∧ ((invSqrt (.exact atan2 sqrt) x : ℚ) : ℝ) * √x ≤ 1)
      ∧ 0.9981 ≤ ((invSqrt (.binary32 atan2 sqrt) x : ℚ) : ℝ) * √x
        ∧ ((invSqrt (.binary32 atan2 sqrt) x : ℚ) : ℝ) * √x ≤ 1.000001 := by
  have hx0 : 0 ≤ x := (two_zpow_pos _).le.trans hx.le
  obtain ⟨hz0, hzlo, hzhi⟩ := newton_mem hx
  obtain ⟨hnormal, hlo, hhi⟩ := newton_half_mem hx
  obtain ⟨hstored, hstored'⟩ := round_mem_relative hnormal
  simp only [invSqrt, FloatModel.exact_store, FloatModel.binary32_store,
    round_eq_self hx.representable]
  generalize ofBits (guessBits (toBits x)) = y at *
  generalize Binary32.round (y * (1.5 - Binary32.round (0.5 * x) * y * y)) = r at *
  generalize y * (1.5 - 0.5 * x * y * y) = z at *
  have hrz : 0.9999998 * z ≤ r ∧ r ≤ 1.0000003 * z := ⟨by linarith, by linarith⟩
  have hr0 : 0 ≤ r := le_trans (by linarith) hrz.1
  have hrlo : 0.9981 ^ 2 ≤ x * r ^ 2 := by
    calc (0.9981 : ℚ) ^ 2 ≤ 0.9999998 ^ 2 * 0.9982 ^ 2 := by norm_num
      _ ≤ 0.9999998 ^ 2 * (x * z ^ 2) := by gcongr
      _ = x * (0.9999998 * z) ^ 2 := by ring
      _ ≤ x * r ^ 2 :=
          mul_le_mul_of_nonneg_left (pow_le_pow_left₀ (by linarith) hrz.1 2) hx0
  have hrhi : x * r ^ 2 ≤ 1.000001 ^ 2 := by
    calc x * r ^ 2 ≤ x * (1.0000003 * z) ^ 2 :=
          mul_le_mul_of_nonneg_left (pow_le_pow_left₀ hr0 hrz.2 2) hx0
      _ = 1.0000003 ^ 2 * (x * z ^ 2) := by ring
      _ ≤ 1.0000003 ^ 2 * 1 := by gcongr
      _ ≤ 1.000001 ^ 2 := by norm_num
  have hz := mul_sqrt_mem 0.9982 1 hx0 hz0 (by norm_num) zero_le_one hzlo (by rwa [one_pow])
  have hr := mul_sqrt_mem 0.9981 1.000001 hx0 hr0 (by norm_num) (by norm_num) hrlo hrhi
  push_cast at hz hr
  exact ⟨hz, hr⟩

/-- The inverse root of two. -/
theorem invSqrt_error_two :
    (0.9982 ≤ ((invSqrt (.exact (fun _ _ => 0) id) 2 : ℚ) : ℝ) * √((2 : ℚ) : ℝ)
        ∧ ((invSqrt (.exact (fun _ _ => 0) id) 2 : ℚ) : ℝ) * √((2 : ℚ) : ℝ) ≤ 1)
      ∧ 0.9981 ≤ ((invSqrt (.binary32 (fun _ _ => 0) id) 2 : ℚ) : ℝ) * √((2 : ℚ) : ℝ)
        ∧ ((invSqrt (.binary32 (fun _ _ => 0) id) 2 : ℚ) : ℝ) * √((2 : ℚ) : ℝ) ≤ 1.000001 :=
  invSqrt_error (fun _ _ => 0) id ⟨⟨2, 0, by norm_num, by norm_num, by norm_num⟩, by norm_num,
    by norm_num⟩

end AHRS

end EmbeddedMCU

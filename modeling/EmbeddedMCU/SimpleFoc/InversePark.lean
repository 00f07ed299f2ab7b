import EmbeddedMCU.SimpleFoc.SqrtApprox
import EmbeddedMCU.SimpleFoc.VectorRealised
import Mathlib.Analysis.SpecialFunctions.Complex.Arg
import Mathlib.Analysis.SpecialFunctions.Trigonometric.Bounds

/-!
# SimpleFoc/InversePark — a voltage command with both components

    (Ud, Uq) ──_sqrtApprox, atan2──▸ length, angle ──▸ modulator      against the inverse transform

With a direct component the modulator takes the length of the vector from the bit-trick square root
and its direction from `atan2`.  The duties then differ phase from phase as the inverse Park
transform of the command does (`vector_realised_dq`): the root costs four percent of the length, the
table one percent of the period, and the digits of `_2PI` next to nothing a turn.
-/

namespace EmbeddedMCU

open FocUtils

/-! ## The transform -/

/-- **In polar coordinates the transform is a vector**: its length, and its angle in the frame. -/
theorem inversePark_eq_idealPhase (d q t : ℝ) :
    inversePark d q t = idealPhase ‖(⟨d, q⟩ : ℂ)‖ (t + Complex.arg ⟨d, q⟩) := by
  have hd := Complex.norm_mul_cos_arg ⟨d, q⟩
  have hq := Complex.norm_mul_sin_arg ⟨d, q⟩
  have hphase : ∀ s, d * Real.cos s - q * Real.sin s
      = ‖(⟨d, q⟩ : ℂ)‖ * Real.cos (s + Complex.arg ⟨d, q⟩) := by
    intro s
    rw [Real.cos_add]
    linear_combination -Real.cos s * hd + Real.sin s * hq
  rw [inversePark, idealPhase, hphase, hphase, hphase, sub_add_eq_add_sub, add_right_comm]

/-- …on a supply of `V`, a fraction of it. -/
theorem inversePark_div_eq (d q t : ℝ) {V : ℝ} (hV : 0 < V) :
    inversePark (d / V) (q / V) t
      = idealPhase (√(d * d + q * q) / V) (t + Complex.arg ⟨d, q⟩) := by
  have hscale : (⟨d / V, q / V⟩ : ℂ) = ((1 / V : ℝ) : ℂ) * ⟨d, q⟩ := by
    refine Complex.ext ?_ ?_
    · rw [Complex.re_ofReal_mul, one_div_mul_eq_div]
    · rw [Complex.im_ofReal_mul, one_div_mul_eq_div]
  have hnorm : ‖(⟨d, q⟩ : ℂ)‖ = √(d * d + q * q) := by
    rw [Complex.norm_def, Complex.normSq_mk]
  rw [inversePark_eq_idealPhase, hscale, Complex.arg_real_mul _ (one_div_pos.mpr hV), norm_mul,
    hnorm, Complex.norm_real, Real.norm_of_nonneg (one_div_pos.mpr hV).le, one_div_mul_eq_div]

/-- The line voltages of a vector are three sine waves a third of a turn apart. -/
theorem idealPhase_wave (u t : ℝ) :
    let v := idealPhase u t
    v.a - v.b = u * √3 * Real.sin (t + 2 * (Real.pi / 3))
      ∧ v.b - v.c = u * √3 * Real.sin (t + 0)
      ∧ v.c - v.a = u * √3 * Real.sin (t + 4 * (Real.pi / 3)) := by
  intro v
  have hc : v.c = u * Real.cos (t - 2 * Real.pi / 3 - 2 * Real.pi / 3) := by
    have harg : t - 2 * Real.pi / 3 - 2 * Real.pi / 3 = t + 2 * Real.pi / 3 - 2 * Real.pi := by ring
    rw [harg, Real.cos_sub_two_pi]
    rfl
  have ha : v.a = u * Real.cos (t + 2 * Real.pi / 3 - 2 * Real.pi / 3) := by
    rw [add_sub_cancel_right]
    rfl
  refine ⟨cos_sub_cos_third u t, ?_, ?_⟩
  · rw [hc]
    refine (cos_sub_cos_third u _).trans ?_
    congr 2
    ring
  · rw [ha]
    refine (cos_sub_cos_third u _).trans ?_
    congr 2
    ring

/-- Nearby lengths and angles make nearby waves. -/
theorem abs_wave_sub_le (u u' t t' c : ℝ) :
    |u * √3 * Real.sin (t + c) - u' * √3 * Real.sin (t' + c)|
      ≤ √3 * (|u - u'| + |u'| * |t - t'|) := by
  have hsplit : u * √3 * Real.sin (t + c) - u' * √3 * Real.sin (t' + c)
      = √3 * ((u - u') * Real.sin (t + c) + u' * (Real.sin (t + c) - Real.sin (t' + c))) := by ring
  have hsin : |Real.sin (t + c) - Real.sin (t' + c)| ≤ |t - t'| := by
    refine (Real.abs_sin_sub_sin_le _ _).trans_eq ?_
    rw [add_sub_add_right_eq_sub]
  rw [hsplit, abs_mul, abs_of_nonneg (Real.sqrt_nonneg 3)]
  refine mul_le_mul_of_nonneg_left ?_ (Real.sqrt_nonneg 3)
  calc |(u - u') * Real.sin (t + c) + u' * (Real.sin (t + c) - Real.sin (t' + c))|
      ≤ |u - u'| * |Real.sin (t + c)| + |u'| * |Real.sin (t + c) - Real.sin (t' + c)| := by
        rw [← abs_mul, ← abs_mul]
        exact abs_add_le _ _
    _ ≤ |u - u'| * 1 + |u'| * |t - t'| := by
        gcongr
        exact Real.abs_sin_le_one _
    _ = |u - u'| + |u'| * |t - t'| := by rw [mul_one]

/-- **Nearby vectors have nearby line voltages.** -/
theorem abs_line_sub_le (u u' t t' : ℝ) :
    let v := idealPhase u t
    let v' := idealPhase u' t'
    let δ := √3 * (|u - u'| + |u'| * |t - t'|)
    |(v.a - v.b) - (v'.a - v'.b)| ≤ δ ∧ |(v.b - v.c) - (v'.b - v'.c)| ≤ δ
      ∧ |(v.c - v.a) - (v'.c - v'.a)| ≤ δ := by
  intro v v' δ
  obtain ⟨hab, hbc, hca⟩ := idealPhase_wave u t
  obtain ⟨hab', hbc', hca'⟩ := idealPhase_wave u' t'
  rw [hab, hbc, hca, hab', hbc', hca']
  exact ⟨abs_wave_sub_le _ _ _ _ _, abs_wave_sub_le _ _ _ _ _, abs_wave_sub_le _ _ _ _ _⟩

/-- Whole turns make no difference. -/
theorem idealPhase_sub_turns (u t : ℝ) (k : ℤ) :
    idealPhase u (t - k * (2 * Real.pi)) = idealPhase u t := by
  have hcos : ∀ c, Real.cos (t - k * (2 * Real.pi) + c) = Real.cos (t + c) := by
    intro c
    rw [sub_add_eq_add_sub, Real.cos_sub_int_mul_two_pi]
  have h0 := hcos 0
  rw [add_zero, add_zero] at h0
  rw [idealPhase, idealPhase, h0, sub_eq_add_neg _ (2 * Real.pi / 3), hcos, hcos,
    ← sub_eq_add_neg]

/-! ## The bit-trick root of a rounded value -/

/-- A square between two bounds, relative to a number, is a root between the bounds of the root. -/
theorem mul_sqrt_le_of_sq {c x r : ℝ} (hc : 0 ≤ c) (hx : 0 ≤ x) (hr : 0 ≤ r) :
    (c ^ 2 * x ≤ r ^ 2 → c * √x ≤ r) ∧ (r ^ 2 ≤ c ^ 2 * x → r ≤ c * √x) := by
  have hroot : 0 ≤ c * √x := mul_nonneg hc (Real.sqrt_nonneg x)
  have hsq : (c * √x) ^ 2 = c ^ 2 * x := by rw [mul_pow, Real.sq_sqrt hx]
  constructor
  · intro h
    exact (sq_le_sq₀ hroot hr).mp (hsq.trans_le h)
  · intro h
    exact (sq_le_sq₀ hr hroot).mp (h.trans_eq hsq.symm)

/-- **With its parameter and its result rounded, the root is still within 4%**, and a little. -/
theorem sqrtApprox_binary32 (atan2 : ℚ → ℚ → ℚ) (sqrt : ℚ → ℚ) {s : ℚ} (hlo : 2 ^ (-126 : ℤ) ≤ s)
    (hhi : s ≤ 2 ^ (127 : ℤ)) :
    let r := sqrtApprox (.binary32 atan2 sqrt) s
    0 ≤ r ∧ 0.9599 * √s ≤ (r : ℝ) ∧ (r : ℝ) ≤ 1.0401 * √s := by
  intro r
  have hs : 0 < s := (Binary32.two_zpow_pos _).trans_le hlo
  have hrepr : ∀ e : ℤ, -149 ≤ e → Binary32.Representable (2 ^ e) := fun e he =>
    ⟨1, e, by norm_num, he, by rw [Int.cast_one, one_mul]⟩
  have hx : Binary32.PosNormal (Binary32.round s) :=
    ⟨Binary32.representable_round s, Binary32.le_round_of_le (hrepr _ (by norm_num)) hlo,
      (Binary32.round_le_of_le (hrepr _ (by norm_num)) hhi).trans_lt (by norm_num)⟩
  obtain ⟨hxlo, hxhi⟩ := Binary32.round_mem_relative hlo
  obtain ⟨hnormal, hsqlo, hsqhi⟩ := mul_rootBits hx
  have hy : 0 < Binary32.ofBits (rootBits (Binary32.toBits (Binary32.round s))) :=
    (Binary32.two_zpow_pos _).trans_le hnormal.le
  have hr : r = Binary32.round (Binary32.round s
      * Binary32.ofBits (rootBits (Binary32.toBits (Binary32.round s)))) := rfl
  have hx0 : 0 < Binary32.round s := (Binary32.two_zpow_pos _).trans_le hx.le
  have hxle := hx.le
  generalize Binary32.round s = x at *
  generalize Binary32.ofBits (rootBits (Binary32.toBits x)) = y at *
  have hp0 : 0 < x * y := mul_pos hx0 hy
  have hp : 2 ^ (-126 : ℤ) ≤ x * y := by
    have h126 := Binary32.two_zpow_pos (-126)
    rw [← sq_le_sq₀ h126.le hp0.le]
    refine le_trans ?_ ((mul_le_mul_of_nonneg_left hxle (by norm_num)).trans hsqlo)
    norm_num
  obtain ⟨hr0, hr1⟩ := Binary32.round_mem_relative hp
  rw [← hr] at hr0 hr1
  have hnonneg : 0 ≤ r := le_trans (by positivity) hr0
  have hlow : 0.9599 ^ 2 * s ≤ r ^ 2 := by
    calc 0.9599 ^ 2 * s ≤ (1 - 1e-7) ^ 2 * (0.96 ^ 2 * ((1 - 1e-7) * s)) := by
          rw [← mul_assoc, ← mul_assoc]
          exact mul_le_mul_of_nonneg_right (by norm_num) hs.le
      _ ≤ (1 - 1e-7) ^ 2 * (0.96 ^ 2 * x) := by
          gcongr
      _ ≤ (1 - 1e-7) ^ 2 * (x * y) ^ 2 := by gcongr
      _ = ((1 - 1e-7) * (x * y)) ^ 2 := (mul_pow _ _ 2).symm
      _ ≤ r ^ 2 := by gcongr
  have hhigh : r ^ 2 ≤ 1.0401 ^ 2 * s := by
    calc r ^ 2 ≤ ((1 + 1e-7) * (x * y)) ^ 2 := by gcongr
      _ = (1 + 1e-7) ^ 2 * (x * y) ^ 2 := mul_pow _ _ 2
      _ ≤ (1 + 1e-7) ^ 2 * (1.04 ^ 2 * x) := by gcongr
      _ ≤ (1 + 1e-7) ^ 2 * (1.04 ^ 2 * ((1 + 1e-7) * s)) := by
          gcongr
      _ ≤ 1.0401 ^ 2 * s := by
          rw [← mul_assoc, ← mul_assoc]
          exact mul_le_mul_of_nonneg_right (by norm_num) hs.le
  have hlow' := Rat.cast_le (K := ℝ).mpr hlow
  have hhigh' := Rat.cast_le (K := ℝ).mpr hhigh
  push_cast at hlow' hhigh'
  have hs' : (0 : ℝ) ≤ s := by exact_mod_cast hs.le
  have hr' : (0 : ℝ) ≤ r := by exact_mod_cast hnonneg
  exact ⟨hnonneg, (mul_sqrt_le_of_sq (by norm_num) hs' hr').1 hlow',
    (mul_sqrt_le_of_sq (by norm_num) hs' hr').2 hhigh'⟩

/-! ## The direction -/

theorem abs_twoPi_sub_le : |(twoPi : ℝ) - 2 * Real.pi| ≤ 1e-12 := by
  have hlo := Real.pi_gt_d20
  have hhi := Real.pi_lt_d20
  have h : (twoPi : ℝ) = 6.28318530718 := by
    rw [twoPi]
    push_cast
    rfl
  rw [h, abs_le]
  constructor <;> linarith

/-- **The reduced angle is the true direction, up to whole turns**: each turn that was taken off
costs the missing digits of `_2PI`. -/
theorem exists_turns {φ : ℚ} {t : ℝ} (hφ : |(φ : ℝ) - t| ≤ 1e-6) :
    ∃ k : ℤ, |((toIcoMod twoPi_pos 0 φ : ℚ) : ℝ) - (t - k * (2 * Real.pi))|
      ≤ 2e-6 + 1e-12 * |t| := by
  obtain ⟨h0, h1⟩ := toIcoMod_mem_Ico' twoPi_pos φ
  have hmod : toIcoMod twoPi_pos 0 φ = φ - toIcoDiv twoPi_pos 0 φ * twoPi := by
    rw [toIcoMod, zsmul_eq_mul]
  generalize toIcoDiv twoPi_pos 0 φ = k at hmod
  refine ⟨k, ?_⟩
  have hturns : |(k : ℝ)| ≤ |t| + 2 := by
    have hk : |(k : ℚ)| * 6 ≤ |φ| + 6.3 := by
      have hkφ : (k : ℚ) * twoPi = φ - toIcoMod twoPi_pos 0 φ := by rw [hmod]; ring
      have habs : |(k : ℚ)| * twoPi ≤ |φ| + twoPi := by
        rw [← abs_of_pos twoPi_pos, ← abs_mul, hkφ, abs_of_pos twoPi_pos]
        exact (abs_sub _ _).trans (add_le_add_right ((abs_of_nonneg h0).trans_le h1.le) _)
      have htwoPi : (6 : ℚ) ≤ twoPi := by norm_num [twoPi]
      have htwoPi' : twoPi ≤ (6.3 : ℚ) := by norm_num [twoPi]
      exact (mul_le_mul_of_nonneg_left htwoPi (abs_nonneg _)).trans (habs.trans (by linarith))
    have hk' := Rat.cast_le (K := ℝ).mpr hk
    push_cast at hk'
    have hφt := abs_sub_abs_le_abs_sub (φ : ℝ) t
    have := abs_nonneg t
    linarith
  have hsplit : ((toIcoMod twoPi_pos 0 φ : ℚ) : ℝ) - (t - k * (2 * Real.pi))
      = (φ - t) - k * (twoPi - 2 * Real.pi) := by
    rw [hmod]
    push_cast
    ring
  calc |((toIcoMod twoPi_pos 0 φ : ℚ) : ℝ) - (t - k * (2 * Real.pi))|
      ≤ |(φ : ℝ) - t| + |(k : ℝ)| * |(twoPi : ℝ) - 2 * Real.pi| := by
        rw [hsplit, ← abs_mul]
        exact abs_sub _ _
    _ ≤ 1e-6 + (|t| + 2) * 1e-12 := by
        gcongr
        exact abs_twoPi_sub_le
    _ ≤ 2e-6 + 1e-12 * |t| := by linarith [abs_nonneg t]

/-! ## The command -/

/-- The errors of the root and of the direction, in a line voltage. -/
theorem dq_error_le {u ρ θ t x : ℝ} (h0 : 0 ≤ ρ) (hρ : ρ ≤ 0.55) (hu : |u - ρ| ≤ 0.0401 * ρ)
    (hx : 0 ≤ x) (hθ : |θ - t| ≤ 2e-6 + 1e-12 * (x + 4)) :
    √3 * (|u - ρ| + |ρ| * |θ - t|) ≤ 0.04 + 1e-12 * x := by
  have h3 : √3 ≤ 1.7321 := Real.sqrt_le_iff.mpr (by norm_num)
  rw [abs_of_nonneg h0]
  calc √3 * (|u - ρ| + ρ * |θ - t|)
      ≤ 1.7321 * (0.0401 * 0.55 + 0.55 * (2e-6 + 1e-12 * (x + 4))) := by
        gcongr
        exact hu.trans (mul_le_mul_of_nonneg_left hρ (by norm_num))
    _ ≤ 0.04 + 1e-12 * x := by linarith

/-- **The modulator realises a command of both components**: as long as the length of the vector
leaves the modulation limit alone, the duties differ phase from phase as the inverse Park transform
of the command does, to five percent of the supply, and the zero vector is split evenly. -/
theorem vector_realised_dq (atan2 : ℚ → ℚ → ℚ) (cfg : Foc.FOCConfig)
    (hV : 0 < cfg.voltagePowerSupply) (Uq Ud angle : ℚ) (hUd : Ud ≠ 0)
    (hatan2 : |(atan2 Uq Ud : ℝ) - Complex.arg ⟨Ud, Uq⟩| ≤ 1e-6)
    (hlo : 2 ^ (-126 : ℤ) ≤ Ud * Ud + Uq * Uq) (hhi : Ud * Ud + Uq * Uq ≤ 2 ^ (127 : ℤ))
    (hU : Ud * Ud + Uq * Uq ≤ (0.55 * cfg.voltagePowerSupply) ^ 2) :
    let d := Foc.setPhaseVoltage (.exact atan2 (sqrtApprox (.binary32 atan2 id))) cfg Uq Ud angle
    let v := inversePark (Ud / cfg.voltagePowerSupply) (Uq / cfg.voltagePowerSupply) angle
    let ε : ℝ := 0.05 + 1e-12 * |(angle : ℝ)|
    |((d.Ta - d.Tb : ℚ) : ℝ) - (v.a - v.b)| ≤ ε
      ∧ |((d.Tb - d.Tc : ℚ) : ℝ) - (v.b - v.c)| ≤ ε
      ∧ |((d.Tc - d.Ta : ℚ) : ℝ) - (v.c - v.a)| ≤ ε
      ∧ d.largest + d.smallest = 1 := by
  intro d v ε
  have hV' : (0 : ℝ) < cfg.voltagePowerSupply := by exact_mod_cast hV
  obtain ⟨hr0, hrlo, hrhi⟩ := sqrtApprox_binary32 atan2 id hlo hhi
  generalize hr : sqrtApprox (.binary32 atan2 id) (Ud * Ud + Uq * Uq) = r at hr0 hrlo hrhi
  have hlength : √((Ud * Ud + Uq * Uq : ℚ) : ℝ) ≤ 0.55 * cfg.voltagePowerSupply := by
    refine Real.sqrt_le_iff.mpr ⟨by positivity, ?_⟩
    have hU' := Rat.cast_le (K := ℝ).mpr hU
    push_cast at hU' ⊢
    exact hU'
  have hρ0 := Real.sqrt_nonneg ((Ud * Ud + Uq * Uq : ℚ) : ℝ)
  generalize hρ : √((Ud * Ud + Uq * Uq : ℚ) : ℝ) = ρ at hrlo hrhi hlength hρ0
  have hu : |r / cfg.voltagePowerSupply| ≤ 0.577 := by
    rw [abs_of_nonneg (div_nonneg hr0 hV.le), div_le_iff₀ hV]
    have hle : (r : ℝ) ≤ (0.577 * cfg.voltagePowerSupply : ℚ) := by
      push_cast
      linarith
    exact_mod_cast hle
  have hclamp : Svpwm.clamp (.exact atan2 (sqrtApprox (.binary32 atan2 id)))
      (Svpwm.uout (.exact atan2 (sqrtApprox (.binary32 atan2 id))) cfg.voltagePowerSupply Uq Ud)
      = r / cfg.voltagePowerSupply := by
    have hratio : Svpwm.uout (.exact atan2 (sqrtApprox (.binary32 atan2 id)))
        cfg.voltagePowerSupply Uq Ud = r / cfg.voltagePowerSupply := by
      rw [Svpwm.uout, if_pos hUd, ← hr]
      rfl
    rw [hratio]
    exact Svpwm.clamp_exact_eq_self _ _ hu
  have hangle : Svpwm.angleEl (.exact atan2 (sqrtApprox (.binary32 atan2 id))) Uq Ud angle
      = toIcoMod twoPi_pos 0 (angle + atan2 Uq Ud) := by
    rw [Svpwm.angleEl_exact, if_pos hUd]
  obtain ⟨h0, h1⟩ := toIcoMod_mem_Ico' twoPi_pos (angle + atan2 Uq Ud)
  obtain ⟨k, hk⟩ := exists_turns (φ := angle + atan2 Uq Ud) (t := angle + Complex.arg ⟨Ud, Uq⟩)
    (by push_cast; rwa [add_sub_add_left_eq_sub])
  have hv : v = idealPhase (ρ / cfg.voltagePowerSupply)
      (angle + Complex.arg ⟨Ud, Uq⟩ - k * (2 * Real.pi)) := by
    simp only [v]
    rw [idealPhase_sub_turns, inversePark_div_eq _ _ _ hV', ← hρ]
    push_cast
    rfl
  obtain ⟨hab, hbc, hca, hsplit⟩ := Svpwm.sectorDuty_realises atan2
    (sqrtApprox (.binary32 atan2 id)) hu h0 (h1.trans twoPi_lt_six_pi_3)
  obtain ⟨hab', hbc', hca'⟩ := abs_line_sub_le (r / cfg.voltagePowerSupply : ℚ)
    (ρ / cfg.voltagePowerSupply) (toIcoMod twoPi_pos 0 (angle + atan2 Uq Ud) : ℚ)
    (angle + Complex.arg ⟨Ud, Uq⟩ - k * (2 * Real.pi))
  have hδ := dq_error_le (u := (r / cfg.voltagePowerSupply : ℚ)) (x := |(angle : ℝ)|)
    (div_nonneg hρ0 hV'.le) ((div_le_iff₀ hV').mpr hlength)
    (by
      push_cast
      rw [← sub_div, abs_div, abs_of_pos hV', ← mul_div_assoc]
      refine div_le_div_of_nonneg_right (abs_le.mpr ⟨?_, ?_⟩) hV'.le <;> linarith)
    (abs_nonneg _)
    (hk.trans (by
      have := abs_add_le (angle : ℝ) (Complex.arg ⟨Ud, Uq⟩)
      have := Complex.abs_arg_le_pi ⟨Ud, Uq⟩
      have := Real.pi_le_four
      linarith))
  have hd : d = _ := Svpwm.phaseDuty_exact atan2 (sqrtApprox (.binary32 atan2 id)) _ _ _ _
  dsimp only at hd
  rw [hclamp, hangle] at hd
  rw [hd, hv]
  refine ⟨?_, ?_, ?_, hsplit⟩
  · exact (abs_sub_le _ _ _).trans ((add_le_add hab (hab'.trans hδ)).trans_eq (by ring))
  · exact (abs_sub_le _ _ _).trans ((add_le_add hbc (hbc'.trans hδ)).trans_eq (by ring))
  · exact (abs_sub_le _ _ _).trans ((add_le_add hca (hca'.trans hδ)).trans_eq (by ring))

/-- A direct component alone, against the frame: half of a 12-volt supply. -/
theorem vector_realised_dq_six :
    let d := Foc.setPhaseVoltage
      (.exact (fun _ _ => 3.14159265359) (sqrtApprox (.binary32 (fun _ _ => 3.14159265359) id)))
      ⟨.torque, 12, 6, 2, 7, 0⟩ 0 (-6) 1
    let v := inversePark (((-6 : ℚ) : ℝ) / ((12 : ℚ) : ℝ)) (((0 : ℚ) : ℝ) / ((12 : ℚ) : ℝ))
      ((1 : ℚ) : ℝ)
    let ε : ℝ := 0.05 + 1e-12 * |((1 : ℚ) : ℝ)|
    |((d.Ta - d.Tb : ℚ) : ℝ) - (v.a - v.b)| ≤ ε
      ∧ |((d.Tb - d.Tc : ℚ) : ℝ) - (v.b - v.c)| ≤ ε
      ∧ |((d.Tc - d.Ta : ℚ) : ℝ) - (v.c - v.a)| ≤ ε
      ∧ d.largest + d.smallest = 1 := by
  have harg : Complex.arg ⟨((-6 : ℚ) : ℝ), ((0 : ℚ) : ℝ)⟩ = Real.pi := by
    rw [Complex.arg_eq_pi_iff]
    norm_num
  refine vector_realised_dq (fun _ _ => 3.14159265359) ⟨.torque, 12, 6, 2, 7, 0⟩ (by norm_num) 0
    (-6) 1 (by norm_num) ?_ (by norm_num) (by norm_num) (by norm_num)
  have hlo := Real.pi_gt_d6
  have hhi := Real.pi_lt_d6
  rw [harg]
  push_cast
  rw [abs_le]
  constructor <;> linarith

end EmbeddedMCU

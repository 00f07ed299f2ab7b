import EmbeddedMCU.Machinery.Hexagon
import EmbeddedMCU.SimpleFoc.DutyRange
import EmbeddedMCU.SimpleFoc.SineTable
import Mathlib.Analysis.Real.Pi.Bounds

/-!
# SimpleFoc/VectorRealised — the modulator against the ideal inverter

    Ta-Tb, Tb-Tc, Tc-Ta      hexagon of T1, T2, entered at the sector       (`sectorDuty_line`)
    ideal line voltages      hexagon of u√3·sin(π/3-x), u√3·sin x           (`ideal_line`)

Both go round a hexagon, so six formulas for the duties are one comparison of the two dwells with
the two sines they approximate (`dwell_error`).
-/

namespace EmbeddedMCU

open FocUtils

/-! ## The ideal inverter -/

/-- The phase voltages of a vector of length `u` at the angle `t`. -/
structure PhaseVoltage where
  a : ℝ
  b : ℝ
  c : ℝ

/-- The inverse transform: three cosines a third of a turn apart. -/
noncomputable def idealPhase (u t : ℝ) : PhaseVoltage where
  a := u * Real.cos t
  b := u * Real.cos (t - 2 * Real.pi / 3)
  c := u * Real.cos (t + 2 * Real.pi / 3)

/-- The inverse transform of the components `d`, `q` in a frame at the angle `t`. -/
noncomputable def inversePark (d q t : ℝ) : PhaseVoltage where
  a := d * Real.cos t - q * Real.sin t
  b := d * Real.cos (t - 2 * Real.pi / 3) - q * Real.sin (t - 2 * Real.pi / 3)
  c := d * Real.cos (t + 2 * Real.pi / 3) - q * Real.sin (t + 2 * Real.pi / 3)

/-- Two phases a third of a turn apart differ by a sine of `√3` times their size. -/
theorem cos_sub_cos_third (u y : ℝ) :
    u * Real.cos y - u * Real.cos (y - 2 * Real.pi / 3)
      = u * √3 * Real.sin (y + 2 * (Real.pi / 3)) := by
  have hs : Real.sin (2 * (Real.pi / 3)) = √3 / 2 := by
    rw [Real.sin_two_mul, Real.sin_pi_div_three, Real.cos_pi_div_three]
    ring
  have hc : Real.cos (2 * (Real.pi / 3)) = -1 / 2 := by
    rw [Real.cos_two_mul, Real.cos_pi_div_three]
    ring
  have h3 : √3 * √3 = (3 : ℝ) := Real.mul_self_sqrt (by norm_num)
  rw [mul_div_assoc, Real.cos_sub, Real.sin_add, hs, hc]
  linear_combination (-u * Real.cos y / 2) * h3

/-- **The ideal line voltages go round the hexagon** of the two sines of the position in a
sector. -/
theorem ideal_line (u x : ℝ) (k : ℕ) :
    let v := idealPhase u (x + k * (Real.pi / 3))
    let side := hexagon (u * √3 * Real.sin (Real.pi / 3 - x)) (u * √3 * Real.sin x)
    v.a - v.b = side (k + 2) ∧ v.b - v.c = side (k + 6) ∧ v.c - v.a = side (k + 4) := by
  intro v side
  have hside : ∀ j : ℕ, side j = u * √3 * Real.sin (x + j * (Real.pi / 3)) := fun j =>
    (sin_add_hexagon _ x j).symm
  have hb : v.c = u * Real.cos (x + k * (Real.pi / 3) - 2 * Real.pi / 3 - 2 * Real.pi / 3) := by
    have harg : x + k * (Real.pi / 3) - 2 * Real.pi / 3 - 2 * Real.pi / 3
        = x + k * (Real.pi / 3) + 2 * Real.pi / 3 - 2 * Real.pi := by ring
    rw [harg, Real.cos_sub_two_pi]
    rfl
  have hc : v.a = u * Real.cos (x + k * (Real.pi / 3) + 2 * Real.pi / 3 - 2 * Real.pi / 3) := by
    rw [add_sub_cancel_right]
    rfl
  refine ⟨?_, ?_, ?_⟩
  · rw [hside]
    refine (cos_sub_cos_third u _).trans ?_
    congr 2
    push_cast
    ring
  · rw [hside, hb]
    refine (cos_sub_cos_third u _).trans ?_
    have harg : x + (k + 6 : ℕ) * (Real.pi / 3)
        = x + k * (Real.pi / 3) - 2 * Real.pi / 3 + 2 * (Real.pi / 3) + 2 * Real.pi := by
      push_cast
      ring
    rw [harg, Real.sin_add_two_pi]
  · rw [hside, hc]
    refine (cos_sub_cos_third u _).trans ?_
    congr 2
    push_cast
    ring

namespace Svpwm

variable (atan2 : ℚ → ℚ → ℚ) (sqrt : ℚ → ℚ)

/-! ## The modulator -/

/-- **The differences of the duties go round the hexagon of the two dwells**, whatever `T0`. -/
theorem sectorDuty_line {s : ℕ} (hs : s ∈ Set.Icc 1 6) (T0 T1 T2 : ℚ) :
    let d := sectorDuty (.exact atan2 sqrt) s T0 T1 T2
    d.Ta - d.Tb = hexagon T1 T2 (s + 1) ∧ d.Tb - d.Tc = hexagon T1 T2 (s + 5)
      ∧ d.Tc - d.Ta = hexagon T1 T2 (s + 3) := by
  obtain ⟨h1, h6⟩ := hs
  interval_cases s <;> refine ⟨?_, ?_, ?_⟩ <;>
    simp only [sectorDuty, FloatModel.exact_store, hexagon] <;> ring

/-- **The zero vector is split evenly**: the largest and the smallest duty are the same distance
from one half. -/
theorem largest_add_smallest {s : ℕ} (hs : s ∈ Set.Icc 1 6) {T1 T2 : ℚ} (h : SameSign T1 T2) :
    let d := sectorDuty (.exact atan2 sqrt) s (1 - T1 - T2) T1 T2
    d.largest + d.smallest = 1 := by
  intro d
  have hbetween : ∀ T ∈ d.toList, |T - 1 / 2| ≤ |T1 + T2| / 2 := fun T hT =>
    sectorDuty_between atan2 sqrt hs h hT
  obtain ⟨hup, hdown⟩ := sectorDuty_extremes atan2 sqrt hs T1 T2
  have hmem : 1 / 2 + |T1 + T2| / 2 ∈ d.toList ∧ 1 / 2 - |T1 + T2| / 2 ∈ d.toList := by
    obtain hS | hS := abs_choice (T1 + T2)
    · rw [hS]
      exact ⟨hup, hdown⟩
    · rw [hS, neg_div, sub_neg_eq_add, ← sub_eq_add_neg]
      exact ⟨hdown, hup⟩
  have hle : ∀ T ∈ d.toList, T ≤ 1 / 2 + |T1 + T2| / 2 := fun T hT => by
    linarith [(abs_le.mp (hbetween T hT)).2]
  have hge : ∀ T ∈ d.toList, 1 / 2 - |T1 + T2| / 2 ≤ T := fun T hT => by
    linarith [(abs_le.mp (hbetween T hT)).1]
  rw [Duty.largest_eq hmem.1 hle, Duty.smallest_eq hmem.2 hge]
  ring

/-! ## The error of a dwell -/

theorem abs_pi_3_sub_le : |(pi_3 : ℝ) - Real.pi / 3| ≤ 1e-6 := by
  have h1 := Real.pi_gt_d6
  have h2 := Real.pi_lt_d6
  have h : (pi_3 : ℝ) = 1.0471975512 := by
    rw [pi_3]
    push_cast
    rfl
  rw [h, abs_le]
  constructor <;> linarith

theorem abs_sqrt3_sub_le : |(sqrt3 : ℝ) - √3| ≤ 1e-5 := by
  have h1 : (1.73205 : ℝ) < √3 := Real.lt_sqrt_of_sq_lt (by norm_num)
  have h2 : √3 < (1.73206 : ℝ) := (Real.sqrt_lt' (by norm_num)).mpr (by norm_num)
  have h : (sqrt3 : ℝ) = 1.73205080757 := by
    rw [sqrt3]
    push_cast
    rfl
  rw [h, abs_le]
  constructor <;> linarith

theorem cell_le {a : ℚ} (h0 : 0 ≤ a) (h1 : a ≤ pi_3) : cell a ≤ 199 :=
  (cell_mono h0 (h1.trans pi_3_lt_pi_2.le)).trans cell_quadrants.2.1.le

/-- **A dwell is the sine it stands for**, to half a percent of the period. -/
theorem dwell_error {u : ℚ} (hu : |u| ≤ 0.577) {a : ℚ} (h0 : 0 ≤ a) (h1 : a ≤ pi_3) {y : ℝ}
    (hy : |(a : ℝ) - y| ≤ 1e-5) :
    |((sqrt3 * (0.0001 * sineAt (cell a)) * u : ℚ) : ℝ) - u * √3 * Real.sin y| ≤ 0.005 := by
  have hu' : |(u : ℝ)| ≤ 0.577 := by
    have := Rat.cast_le (K := ℝ).mpr hu
    push_cast at this
    exact this
  have hsine : |((0.0001 * sineAt (cell a) : ℚ) : ℝ) - Real.sin y| ≤ 0.00401 := by
    have := abs_sub_le ((0.0001 * sineAt (cell a) : ℚ) : ℝ) (Real.sin a) (Real.sin y)
    have := lookup_error h0 (cell_le h0 h1)
    have := (Real.abs_sin_sub_sin_le a y).trans hy
    linarith
  have h3 : |(sqrt3 : ℝ)| ≤ 1.7321 := by
    rw [sqrt3]
    push_cast
    norm_num [abs_le]
  have hsplit : ((sqrt3 * (0.0001 * sineAt (cell a)) * u : ℚ) : ℝ) - u * √3 * Real.sin y
      = u * (sqrt3 * (((0.0001 * sineAt (cell a) : ℚ) : ℝ) - Real.sin y)
        + (sqrt3 - √3) * Real.sin y) := by
    rw [Rat.cast_mul, Rat.cast_mul]
    ring
  calc |((sqrt3 * (0.0001 * sineAt (cell a)) * u : ℚ) : ℝ) - u * √3 * Real.sin y|
      ≤ |(u : ℝ)| * (|(sqrt3 : ℝ)| * |((0.0001 * sineAt (cell a) : ℚ) : ℝ) - Real.sin y|
          + |sqrt3 - √3| * |Real.sin y|) := by
        rw [hsplit, abs_mul]
        refine mul_le_mul_of_nonneg_left ((abs_add_le _ _).trans_eq ?_) (abs_nonneg _)
        rw [abs_mul, abs_mul]
    _ ≤ 0.577 * (1.7321 * 0.00401 + 1e-5 * 1) := by
        gcongr
        · exact abs_sqrt3_sub_le
        · exact Real.abs_sin_le_one y
    _ ≤ 0.005 := by norm_num

/-- The line voltage the two dwells make is the ideal one, to one percent. -/
theorem line_error {T1 T2 : ℚ} {r x : ℝ} (h1 : |(T1 : ℝ) - r * Real.sin (Real.pi / 3 - x)| ≤ 0.005)
    (h2 : |(T2 : ℝ) - r * Real.sin x| ≤ 0.005) (k : ℕ) :
    |((hexagon T1 T2 k : ℚ) : ℝ) - hexagon (r * Real.sin (Real.pi / 3 - x)) (r * Real.sin x) k|
      ≤ 0.01 := by
  have hcast : ((hexagon T1 T2 k : ℚ) : ℝ) = hexagon (T1 : ℝ) T2 k :=
    map_hexagon (Rat.castHom ℝ).toAddMonoidHom T1 T2 k
  rw [hcast]
  have := abs_hexagon_sub_le (T1 : ℝ) T2 (r * Real.sin (Real.pi / 3 - x)) (r * Real.sin x) k
  linarith

/-- The position in the sector, with the true `π`. -/
noncomputable def truePosition (θ : ℚ) : ℝ := θ - (sector θ - 1) * (Real.pi / 3)

theorem position_error {θ : ℚ} (h : sector θ ∈ Set.Icc 1 6) :
    |((sector θ * pi_3 - θ : ℚ) : ℝ) - (Real.pi / 3 - truePosition θ)| ≤ 1e-5
      ∧ |((θ - (sector θ - 1.0) * pi_3 : ℚ) : ℝ) - truePosition θ| ≤ 1e-5 := by
  obtain ⟨h1, h6⟩ := h
  have h1' : (1 : ℝ) ≤ sector θ := by exact_mod_cast h1
  have h6' : (sector θ : ℝ) ≤ 6 := by exact_mod_cast h6
  have hpi := abs_pi_3_sub_le
  have hone : (1.0 : ℚ) = 1 := by norm_num
  have harg1 : ((sector θ * pi_3 - θ : ℚ) : ℝ) - (Real.pi / 3 - truePosition θ)
      = sector θ * (pi_3 - Real.pi / 3) := by
    rw [truePosition]
    push_cast
    ring
  have harg2 : ((θ - (sector θ - 1.0) * pi_3 : ℚ) : ℝ) - truePosition θ
      = -((sector θ - 1) * (pi_3 - Real.pi / 3)) := by
    rw [truePosition, hone]
    push_cast
    ring
  have hsix : ∀ n : ℝ, 0 ≤ n → n ≤ 6 → |n * (pi_3 - Real.pi / 3)| ≤ 1e-5 := by
    intro n hn0 hn6
    rw [abs_mul, abs_of_nonneg hn0]
    calc n * |(pi_3 : ℝ) - Real.pi / 3| ≤ 6 * 1e-6 := by gcongr
      _ ≤ 1e-5 := by norm_num
  rw [harg1, harg2, abs_neg]
  exact ⟨hsix _ (by linarith) h6', hsix _ (by linarith) (by linarith)⟩

/-- The duties of a voltage `u` of the supply at the normalised angle `θ`, against the ideal
inverter. -/
theorem sectorDuty_realises {u θ : ℚ} (hu : |u| ≤ 0.577) (h0 : 0 ≤ θ) (h : θ < 6 * pi_3) :
    let T1 := dwell1 (.exact atan2 sqrt) θ u
    let T2 := dwell2 (.exact atan2 sqrt) θ u
    let d := sectorDuty (.exact atan2 sqrt) (sector θ) (1 - T1 - T2) T1 T2
    let v := idealPhase u θ
    |((d.Ta - d.Tb : ℚ) : ℝ) - (v.a - v.b)| ≤ 0.01
      ∧ |((d.Tb - d.Tc : ℚ) : ℝ) - (v.b - v.c)| ≤ 0.01
      ∧ |((d.Tc - d.Ta : ℚ) : ℝ) - (v.c - v.a)| ≤ 0.01
      ∧ d.largest + d.smallest = 1 := by
  intro T1 T2 d v
  have hlow : -pi_3 ≤ θ := by linarith [pi_3_pos]
  have hs : sector θ ∈ Set.Icc 1 6 := (sector_mem_iff hlow).mpr ⟨h0, h⟩
  obtain ⟨k, hk⟩ := Nat.exists_eq_add_of_le' hs.1
  have hθ : (θ : ℝ) = truePosition θ + k * (Real.pi / 3) := by
    rw [truePosition, hk]
    push_cast
    ring
  obtain ⟨harg1, harg2⟩ := position_error hs
  obtain ⟨ha1, ha1'⟩ := arg1_mem hlow
  obtain ⟨ha2, ha2'⟩ := arg2_mem hlow
  have hT1 : |(T1 : ℝ) - u * √3 * Real.sin (Real.pi / 3 - truePosition θ)| ≤ 0.005 := by
    simp only [T1, dwell1_exact atan2 sqrt hlow]
    exact dwell_error hu ha1.le ha1' harg1
  have hT2 : |(T2 : ℝ) - u * √3 * Real.sin (truePosition θ)| ≤ 0.005 := by
    simp only [T2, dwell2_exact atan2 sqrt hlow]
    exact dwell_error hu ha2 ha2'.le harg2
  have hsame : SameSign T1 T2 := by
    simp only [T1, T2, dwell1_exact atan2 sqrt hlow, dwell2_exact atan2 sqrt hlow]
    exact SameSign.mul_right (sine_nonneg _) (sine_nonneg _) u
  obtain ⟨hab, hbc, hca⟩ := sectorDuty_line atan2 sqrt hs (1 - T1 - T2) T1 T2
  obtain ⟨hvab, hvbc, hvca⟩ := ideal_line u (truePosition θ) k
  rw [← hθ] at hvab hvbc hvca
  refine ⟨?_, ?_, ?_, largest_add_smallest atan2 sqrt hs hsame⟩
  · rw [hab, hvab, hk]
    exact line_error hT1 hT2 (k + 2)
  · rw [hbc, hvbc, hk]
    exact line_error hT1 hT2 (k + 6)
  · rw [hca, hvca, hk]
    exact line_error hT1 hT2 (k + 4)

end Svpwm

variable (atan2 : ℚ → ℚ → ℚ) (sqrt : ℚ → ℚ)

/-- **The modulator realises the commanded vector**: up to the modulation limit the duties differ
phase from phase as the ideal phase voltages do, to one percent, and the zero vector is split
evenly. -/
theorem vector_realised (cfg : Foc.FOCConfig) (hV : 0 < cfg.voltagePowerSupply) (Uq angle : ℚ)
    (hUq : |Uq| ≤ 0.577 * cfg.voltagePowerSupply) :
    let d := Foc.setPhaseVoltage (.exact atan2 sqrt) cfg Uq 0 angle
    let v := idealPhase (Uq / cfg.voltagePowerSupply : ℚ)
      (normalizeAngle (.exact atan2 sqrt) (angle + pi_2) : ℚ)
    |((d.Ta - d.Tb : ℚ) : ℝ) - (v.a - v.b)| ≤ 0.01
      ∧ |((d.Tb - d.Tc : ℚ) : ℝ) - (v.b - v.c)| ≤ 0.01
      ∧ |((d.Tc - d.Ta : ℚ) : ℝ) - (v.c - v.a)| ≤ 0.01
      ∧ d.largest + d.smallest = 1 := by
  have hu : |Uq / cfg.voltagePowerSupply| ≤ 0.577 := by
    rw [abs_div, abs_of_pos hV]
    exact (div_le_iff₀ hV).mpr hUq
  have hclamp : Svpwm.clamp (.exact atan2 sqrt)
      (Svpwm.uout (.exact atan2 sqrt) cfg.voltagePowerSupply Uq 0)
      = Uq / cfg.voltagePowerSupply := Svpwm.clamp_exact_eq_self atan2 sqrt hu
  have hangle : Svpwm.angleEl (.exact atan2 sqrt) Uq 0 angle
      = normalizeAngle (.exact atan2 sqrt) (angle + pi_2) := if_neg (not_not.mpr rfl)
  obtain ⟨h0, h1⟩ := Svpwm.angleEl_exact_mem atan2 sqrt Uq 0 angle
  rw [hangle] at h0 h1
  rw [Foc.setPhaseVoltage, Svpwm.phaseDuty_exact]
  dsimp only
  rw [hclamp, hangle]
  exact Svpwm.sectorDuty_realises atan2 sqrt hu h0 (h1.trans twoPi_lt_six_pi_3)

/-- Half the supply, on a 12-volt one. -/
theorem vector_realised_half :
    let d := Foc.setPhaseVoltage (.exact (fun _ _ => 0) id)
      ⟨.velocityOpenloop, 12, 6, 2, 7, 0⟩ 6 0 0
    let v := idealPhase (6 / 12 : ℚ)
      (normalizeAngle (.exact (fun _ _ => 0) id) (0 + pi_2) : ℚ)
    |((d.Ta - d.Tb : ℚ) : ℝ) - (v.a - v.b)| ≤ 0.01
      ∧ |((d.Tb - d.Tc : ℚ) : ℝ) - (v.b - v.c)| ≤ 0.01
      ∧ |((d.Tc - d.Ta : ℚ) : ℝ) - (v.c - v.a)| ≤ 0.01
      ∧ d.largest + d.smallest = 1 :=
  vector_realised (fun _ _ => 0) id ⟨.velocityOpenloop, 12, 6, 2, 7, 0⟩ (by norm_num) 6 0
    (by norm_num)

end EmbeddedMCU

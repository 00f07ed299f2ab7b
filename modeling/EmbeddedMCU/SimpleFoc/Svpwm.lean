import EmbeddedMCU.SimpleFoc.Utils
import Mathlib.Algebra.Order.Group.MinMax
import Mathlib.Tactic.IntervalCases

/-!
# SimpleFoc/Svpwm — the space-vector modulator

    (Uq, Ud, angle_el) ──▸ Uout, angle ──▸ sector, T0 T1 T2 ──▸ Ta Tb Tc

`SetPhaseVoltage` of `Foc.c` and `setPhaseVoltage` of `BLDCMotor.c` are one text up to where the
three duty cycles go, so that text is `phaseDuty` and the two drivers apply it.  Whatever the
sector, the duties are `T0/2`, the whole `T1 + T2 + T0/2` and one of the two in between
(`sectorDuty_perm`): six formulas, one shape.
-/

namespace EmbeddedMCU

/-- The three duty cycles, one per phase. -/
structure Duty where
  Ta : ℚ
  Tb : ℚ
  Tc : ℚ
  deriving DecidableEq

namespace Duty

/-- The duties, phase by phase. -/
def toList (d : Duty) : List ℚ := [d.Ta, d.Tb, d.Tc]

/-- The largest duty. -/
def largest (d : Duty) : ℚ := max d.Ta (max d.Tb d.Tc)

/-- The smallest duty. -/
def smallest (d : Duty) : ℚ := min d.Ta (min d.Tb d.Tc)

theorem forall_mem_toList {d : Duty} {p : ℚ → Prop} :
    (∀ T ∈ d.toList, p T) ↔ p d.Ta ∧ p d.Tb ∧ p d.Tc := by
  simp only [toList, List.forall_mem_cons, List.not_mem_nil, false_imp_iff, forall_const, and_true]

theorem largest_eq {d : Duty} {M : ℚ} (hmem : M ∈ d.toList) (hle : ∀ T ∈ d.toList, T ≤ M) :
    d.largest = M := by
  obtain ⟨ha, hb, hc⟩ := forall_mem_toList.mp hle
  simp only [toList, List.mem_cons, List.not_mem_nil, or_false] at hmem
  refine le_antisymm (max_le ha (max_le hb hc)) ?_
  obtain rfl | rfl | rfl := hmem
  · exact le_max_left _ _
  · exact (le_max_left _ _).trans (le_max_right _ _)
  · exact (le_max_right _ _).trans (le_max_right _ _)

theorem smallest_eq {d : Duty} {M : ℚ} (hmem : M ∈ d.toList) (hle : ∀ T ∈ d.toList, M ≤ T) :
    d.smallest = M := by
  obtain ⟨ha, hb, hc⟩ := forall_mem_toList.mp hle
  simp only [toList, List.mem_cons, List.not_mem_nil, or_false] at hmem
  refine le_antisymm ?_ (le_min ha (le_min hb hc))
  obtain rfl | rfl | rfl := hmem
  · exact min_le_left _ _
  · exact (min_le_right _ _).trans (min_le_left _ _)
  · exact (min_le_right _ _).trans (min_le_right _ _)

end Duty

namespace Svpwm

open FocUtils

/-! ## The modulator -/

/-- `Uout`, before the clamp. -/
def uout (A : FloatModel) (V Uq Ud : ℚ) : ℚ :=
  if Ud ≠ 0 then A.store (A.sqrt (A.store (Ud * Ud + Uq * Uq)) / V) else A.store (Uq / V)

/-- `angle_el`, normalised. -/
def angleEl (A : FloatModel) (Uq Ud angle : ℚ) : ℚ :=
  if Ud ≠ 0 then normalizeAngle A (angle + A.atan2 Uq Ud) else normalizeAngle A (angle + pi_2)

/-- The two clamp lines. -/
def clamp (A : FloatModel) (U : ℚ) : ℚ :=
  let U := if U > 0.577 then A.store 0.577 else U
  if U < -0.577 then A.store (-0.577) else U

/-- `sector = (angle_el / _PI_3) + 1` -/
def sector (θ : ℚ) : ℕ := (ctrunc (θ / pi_3 + 1)).toNat

/-- `T1` -/
def dwell1 (A : FloatModel) (θ U : ℚ) : ℚ :=
  A.store (sqrt3 * FocUtils.sin A (sector θ * pi_3 - θ) * U)

/-- `T2` -/
def dwell2 (A : FloatModel) (θ U : ℚ) : ℚ :=
  A.store (sqrt3 * FocUtils.sin A (θ - (sector θ - 1.0) * pi_3) * U)

/-- The `switch` on the sector, with its `default`, the possible error state. -/
def sectorDuty (A : FloatModel) (sector : ℕ) (T0 T1 T2 : ℚ) : Duty :=
  match sector with
  | 1 => ⟨A.store (T1 + T2 + T0 / 2), A.store (T2 + T0 / 2), A.store (T0 / 2)⟩
  | 2 => ⟨A.store (T1 + T0 / 2), A.store (T1 + T2 + T0 / 2), A.store (T0 / 2)⟩
  | 3 => ⟨A.store (T0 / 2), A.store (T1 + T2 + T0 / 2), A.store (T2 + T0 / 2)⟩
  | 4 => ⟨A.store (T0 / 2), A.store (T1 + T0 / 2), A.store (T1 + T2 + T0 / 2)⟩
  | 5 => ⟨A.store (T2 + T0 / 2), A.store (T0 / 2), A.store (T1 + T2 + T0 / 2)⟩
  | 6 => ⟨A.store (T1 + T2 + T0 / 2), A.store (T0 / 2), A.store (T1 + T0 / 2)⟩
  | _ => ⟨0, 0, 0⟩

/-- The duties a voltage command is turned into, on a supply of `V`. -/
def phaseDuty (A : FloatModel) (V Uq Ud angle : ℚ) : Duty :=
  let Uq := A.store Uq
  let Ud := A.store Ud
  let angle := A.store angle
  let U := clamp A (uout A V Uq Ud)
  let θ := angleEl A Uq Ud angle
  let T1 := dwell1 A θ U
  let T2 := dwell2 A θ U
  let T0 := A.store (1 - T1 - T2)
  sectorDuty A (sector θ) T0 T1 T2

/-! ## Sectors -/

/-- **A sector is entered at its lower angle and left before its upper one** — from one sector below
zero on, where the conversion to `uint32_t` still truncates downwards. -/
theorem sector_spec {θ : ℚ} (h : -pi_3 ≤ θ) :
    ((sector θ : ℚ) - 1) * pi_3 ≤ θ ∧ θ < sector θ * pi_3 := by
  have hq : 0 ≤ θ / pi_3 + 1 := by
    have : -1 ≤ θ / pi_3 := (le_div_iff₀ pi_3_pos).mpr (by linarith)
    linarith
  have hs : (sector θ : ℤ) = ⌊θ / pi_3⌋ + 1 := by
    rw [sector, Int.toNat_of_nonneg (ctrunc_nonneg hq), ctrunc_of_nonneg hq, Int.floor_add_one]
  have hsq : (sector θ : ℚ) = ⌊θ / pi_3⌋ + 1 := by exact_mod_cast hs
  constructor
  · rw [hsq, add_sub_cancel_right, ← le_div_iff₀ pi_3_pos]
    exact Int.floor_le _
  · rw [hsq, ← div_lt_iff₀ pi_3_pos]
    exact Int.lt_floor_add_one _

/-- Below zero there is no sector, -/
theorem one_le_sector_iff {θ : ℚ} (h : -pi_3 ≤ θ) : 1 ≤ sector θ ↔ 0 ≤ θ := by
  obtain ⟨hlo, hhi⟩ := sector_spec h
  constructor
  · intro h1
    have h1' : (1 : ℚ) ≤ sector θ := by exact_mod_cast h1
    exact (mul_nonneg (by linarith) pi_3_pos.le).trans hlo
  · intro h0
    by_contra hlt
    rw [Nat.lt_one_iff.mp (not_le.mp hlt)] at hhi
    simp at hhi
    linarith

/-- …and from `6·_PI_3` on it is past the sixth. -/
theorem sector_le_six_iff {θ : ℚ} (h : -pi_3 ≤ θ) : sector θ ≤ 6 ↔ θ < 6 * pi_3 := by
  obtain ⟨hlo, hhi⟩ := sector_spec h
  constructor
  · intro h6
    have h6' : (sector θ : ℚ) ≤ 6 := by exact_mod_cast h6
    exact hhi.trans_le (mul_le_mul_of_nonneg_right h6' pi_3_pos.le)
  · intro hθ
    by_contra hgt
    have h7 : (7 : ℚ) ≤ sector θ := by exact_mod_cast not_le.mp hgt
    have := mul_le_mul_of_nonneg_right (show (6 : ℚ) ≤ sector θ - 1 by linarith) pi_3_pos.le
    linarith

/-- **The sector is one of the six exactly on `[0, 6·_PI_3)`.** -/
theorem sector_mem_iff {θ : ℚ} (h : -pi_3 ≤ θ) :
    sector θ ∈ Set.Icc 1 6 ↔ θ ∈ Set.Ico 0 (6 * pi_3) :=
  and_congr (one_le_sector_iff h) (sector_le_six_iff h)

/-- The first table argument lies in `(0, _PI_3]`. -/
theorem arg1_mem {θ : ℚ} (h : -pi_3 ≤ θ) : (sector θ : ℚ) * pi_3 - θ ∈ Set.Ioc 0 pi_3 := by
  obtain ⟨hlo, hhi⟩ := sector_spec h
  constructor <;> linarith

/-- …and the second in `[0, _PI_3)`. -/
theorem arg2_mem {θ : ℚ} (h : -pi_3 ≤ θ) :
    θ - ((sector θ : ℚ) - 1.0) * pi_3 ∈ Set.Ico 0 pi_3 := by
  obtain ⟨hlo, hhi⟩ := sector_spec h
  norm_num
  constructor <;> linarith

/-! ## The exact reading -/

section Exact

variable (atan2 : ℚ → ℚ → ℚ) (sqrt : ℚ → ℚ)

/-- The exact normalised angle, as a reduction into one turn. -/
theorem angleEl_exact (Uq Ud angle : ℚ) :
    angleEl (.exact atan2 sqrt) Uq Ud angle
      = toIcoMod twoPi_pos 0 (angle + if Ud ≠ 0 then atan2 Uq Ud else pi_2) := by
  rw [angleEl, normalizeAngle_exact, normalizeAngle_exact]
  split_ifs <;> rfl

theorem angleEl_exact_mem (Uq Ud angle : ℚ) :
    angleEl (.exact atan2 sqrt) Uq Ud angle ∈ Set.Ico 0 twoPi := by
  rw [angleEl_exact]
  exact toIcoMod_mem_Ico' _ _

/-- **In exact arithmetic the error branch is never taken.** -/
theorem sector_exact_mem (Uq Ud angle : ℚ) :
    sector (angleEl (.exact atan2 sqrt) Uq Ud angle) ∈ Set.Icc 1 6 := by
  obtain ⟨h0, h1⟩ := angleEl_exact_mem atan2 sqrt Uq Ud angle
  exact (sector_mem_iff (by linarith [pi_3_pos])).mpr ⟨h0, h1.trans twoPi_lt_six_pi_3⟩

/-- The exact duties, without the stores. -/
theorem phaseDuty_exact (V Uq Ud angle : ℚ) :
    phaseDuty (.exact atan2 sqrt) V Uq Ud angle
      = let θ := angleEl (.exact atan2 sqrt) Uq Ud angle
        let U := clamp (.exact atan2 sqrt) (uout (.exact atan2 sqrt) V Uq Ud)
        let T1 := dwell1 (.exact atan2 sqrt) θ U
        let T2 := dwell2 (.exact atan2 sqrt) θ U
        sectorDuty (.exact atan2 sqrt) (sector θ) (1 - T1 - T2) T1 T2 := rfl

/-- **Six formulas, one shape**: half the zero vector, all of both dwells, and one dwell on the
phase in between. -/
theorem sectorDuty_perm {s : ℕ} (hs : s ∈ Set.Icc 1 6) (T0 T1 T2 : ℚ) :
    ∃ T, (T = T1 ∨ T = T2) ∧
      (sectorDuty (.exact atan2 sqrt) s T0 T1 T2).toList.Perm
        [T1 + T2 + T0 / 2, T + T0 / 2, T0 / 2] := by
  obtain ⟨h1, h6⟩ := hs
  interval_cases s
  · exact ⟨T2, .inr rfl, List.Perm.refl _⟩
  · exact ⟨T1, .inl rfl, List.Perm.swap _ _ _⟩
  · exact ⟨T2, .inr rfl, (List.Perm.swap _ _ _).trans ((List.Perm.swap _ _ _).cons _)⟩
  · exact ⟨T1, .inl rfl, List.reverse_perm _ |>.symm⟩
  · exact ⟨T2, .inr rfl, ((List.Perm.swap _ _ _).cons _).trans (List.Perm.swap _ _ _)⟩
  · exact ⟨T1, .inl rfl, (List.Perm.swap _ _ _).cons _⟩

/-- The clamp, as a bound on both sides. -/
theorem clamp_exact (U : ℚ) : clamp (.exact atan2 sqrt) U = max (min U 0.577) (-0.577) := by
  have hup : (if U > 0.577 then (0.577 : ℚ) else U) = min U 0.577 := by
    split_ifs with h
    · exact (min_eq_right h.le).symm
    · exact (min_eq_left (not_lt.mp h)).symm
  have hdown : clamp (.exact atan2 sqrt) U
      = if min U 0.577 < -0.577 then (-0.577 : ℚ) else min U 0.577 := by
    rw [← hup]
    rfl
  rw [hdown]
  split_ifs with h
  · exact (max_eq_right h.le).symm
  · exact (max_eq_left (not_lt.mp h)).symm

/-- **The clamp bounds the magnitude and keeps the sign.** -/
theorem abs_clamp_exact (U : ℚ) : |clamp (.exact atan2 sqrt) U| = min |U| 0.577 := by
  rw [clamp_exact]
  rcases le_or_gt 0 U with h | h
  · rw [abs_of_nonneg h, max_eq_left (le_min (by linarith) (by norm_num)),
      abs_of_nonneg (le_min h (by norm_num))]
  · rw [abs_of_neg h, min_eq_left (by linarith : U ≤ 0.577), abs_of_neg (max_lt h (by norm_num)),
      ← min_neg_neg, neg_neg]

theorem clamp_exact_eq_self {U : ℚ} (h : |U| ≤ 0.577) : clamp (.exact atan2 sqrt) U = U := by
  obtain ⟨hlo, hhi⟩ := abs_le.mp h
  rw [clamp_exact, min_eq_left hhi, max_eq_left hlo]

end Exact

end Svpwm

end EmbeddedMCU

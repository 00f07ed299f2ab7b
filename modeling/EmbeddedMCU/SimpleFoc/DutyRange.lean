import EmbeddedMCU.SimpleFoc.Foc
import EmbeddedMCU.SimpleFoc.BLDCMotor

/-!
# SimpleFoc/DutyRange — when a duty cycle is one

In exact arithmetic the three duties are `(1 - S)/2`, `(1 + S)/2` and one in between, where
`S = T1 + T2` is the share of the period the two dwells take.  So they are duty cycles exactly when
the dwells fit the period, and that is decided by the two table lookups (`duty_mem_unit_iff`): at
full modulation they do not fit where both lookups are rounded up near the middle of a sector.
-/

namespace EmbeddedMCU

open FocUtils

/-- Two numbers of the same sign, zero having either. -/
def SameSign (a b : ℚ) : Prop := (0 ≤ a ∧ 0 ≤ b) ∨ (a ≤ 0 ∧ b ≤ 0)

theorem SameSign.mul_right {a b : ℚ} (ha : 0 ≤ a) (hb : 0 ≤ b) (U : ℚ) :
    SameSign (a * U) (b * U) := by
  obtain h | h := le_total 0 U
  · exact .inl ⟨mul_nonneg ha h, mul_nonneg hb h⟩
  · exact .inr ⟨mul_nonpos_of_nonneg_of_nonpos ha h, mul_nonpos_of_nonneg_of_nonpos hb h⟩

namespace FocUtils

/-- **Two entries that together stand for a little over a sector**, away from its middle: their sum
leaves room at full modulation. -/
theorem sineAt_add_sineAt_le {i j : ℤ} (hi : 0 ≤ i) (hj : 0 ≤ j)
    (h : i + j = 132 ∨ (i + j = 133 ∧ ¬ (60 ≤ j ∧ j ≤ 73))) : sineAt i + sineAt j ≤ 10006 := by
  have h132 : ∀ j : Fin 133, sineAt (132 - j.val) + sineAt j.val ≤ 10006 := by decide +kernel
  have h133 : ∀ j : Fin 134, ¬ (60 ≤ (j.val : ℤ) ∧ (j.val : ℤ) ≤ 73) →
      sineAt (133 - j.val) + sineAt j.val ≤ 10006 := by decide +kernel
  obtain ⟨j, rfl⟩ := Int.eq_ofNat_of_zero_le hj
  obtain h | ⟨h, hout⟩ := h
  · obtain rfl : i = 132 - j := by omega
    exact h132 ⟨j, by omega⟩
  · obtain rfl : i = 133 - j := by omega
    exact h133 ⟨j, by omega⟩ hout

end FocUtils

namespace Svpwm

variable (atan2 : ℚ → ℚ → ℚ) (sqrt : ℚ → ℚ)

/-! ## The shape of the duties -/

/-- The duties of two dwells of the same sign lie between the smallest and the largest. -/
theorem sectorDuty_between {s : ℕ} (hs : s ∈ Set.Icc 1 6) {T1 T2 : ℚ} (h : SameSign T1 T2) {T : ℚ}
    (hT : T ∈ (sectorDuty (.exact atan2 sqrt) s (1 - T1 - T2) T1 T2).toList) :
    |T - 1 / 2| ≤ |T1 + T2| / 2 := by
  obtain ⟨T', hT', hperm⟩ := sectorDuty_perm atan2 sqrt hs (1 - T1 - T2) T1 T2
  have hmem := hperm.mem_iff.mp hT
  simp only [List.mem_cons, List.not_mem_nil, or_false] at hmem
  obtain ⟨h1, h2⟩ | ⟨h1, h2⟩ := h
  · rw [abs_of_nonneg (by linarith : 0 ≤ T1 + T2), abs_le]
    obtain rfl | rfl := hT' <;> obtain rfl | rfl | rfl := hmem <;> constructor <;> linarith
  · rw [abs_of_nonpos (by linarith : T1 + T2 ≤ 0), abs_le]
    obtain rfl | rfl := hT' <;> obtain rfl | rfl | rfl := hmem <;> constructor <;> linarith

/-- …and both are attained. -/
theorem sectorDuty_extremes {s : ℕ} (hs : s ∈ Set.Icc 1 6) (T1 T2 : ℚ) :
    1 / 2 + (T1 + T2) / 2 ∈ (sectorDuty (.exact atan2 sqrt) s (1 - T1 - T2) T1 T2).toList
      ∧ 1 / 2 - (T1 + T2) / 2
        ∈ (sectorDuty (.exact atan2 sqrt) s (1 - T1 - T2) T1 T2).toList := by
  obtain ⟨T', -, hperm⟩ := sectorDuty_perm atan2 sqrt hs (1 - T1 - T2) T1 T2
  have hup : 1 / 2 + (T1 + T2) / 2 = T1 + T2 + (1 - T1 - T2) / 2 := by ring
  have hdown : 1 / 2 - (T1 + T2) / 2 = (1 - T1 - T2) / 2 := by ring
  rw [hperm.mem_iff, hperm.mem_iff, hup, hdown]
  exact ⟨List.mem_cons_self, by simp⟩

/-- **The duties are duty cycles exactly when the two dwells fit the period.** -/
theorem sectorDuty_mem_unit_iff {s : ℕ} (hs : s ∈ Set.Icc 1 6) {T1 T2 : ℚ}
    (h : SameSign T1 T2) :
    (∀ T ∈ (sectorDuty (.exact atan2 sqrt) s (1 - T1 - T2) T1 T2).toList, T ∈ Set.Icc (0 : ℚ) 1)
      ↔ |T1 + T2| ≤ 1 := by
  constructor
  · intro hall
    obtain ⟨hup, hdown⟩ := sectorDuty_extremes atan2 sqrt hs T1 T2
    rw [abs_le]
    constructor
    · linarith [(hall _ hup).1]
    · linarith [(hall _ hdown).1]
  · intro hS T hT
    obtain ⟨hlo, hhi⟩ := abs_le.mp (sectorDuty_between atan2 sqrt hs h hT)
    constructor <;> linarith

/-! ## The two table lookups -/

/-- The looked-up sine of a dwell, before the voltage. -/
theorem sine_nonneg (i : ℤ) : 0 ≤ sqrt3 * (0.0001 * (sineAt i : ℚ)) :=
  mul_nonneg (by norm_num [sqrt3]) (mul_nonneg (by norm_num) (by exact_mod_cast sineAt_nonneg i))

theorem dwell1_exact {θ : ℚ} (h : -pi_3 ≤ θ) (U : ℚ) :
    dwell1 (.exact atan2 sqrt) θ U
      = sqrt3 * (0.0001 * sineAt (cell (sector θ * pi_3 - θ))) * U := by
  rw [dwell1, sin_exact_of_lt atan2 sqrt ((arg1_mem h).2.trans_lt pi_3_lt_pi_2)]
  rfl

theorem dwell2_exact {θ : ℚ} (h : -pi_3 ≤ θ) (U : ℚ) :
    dwell2 (.exact atan2 sqrt) θ U
      = sqrt3 * (0.0001 * sineAt (cell (θ - (sector θ - 1.0) * pi_3))) * U := by
  rw [dwell2, sin_exact_of_lt atan2 sqrt ((arg2_mem h).2.trans pi_3_lt_pi_2)]
  rfl

/-- Both lookups rounded up, to the entries `133 - j` and `j`, at the position `x` in a sector. -/
def BothRoundUp (j : ℤ) (x : ℚ) : Prop :=
  j - 1 / 2 ≤ 126.6873 * x ∧ 133 - j - 1 / 2 ≤ 126.6873 * (pi_3 - x)

/-- **Over-modulation**: both lookups are rounded up in the middle of a sector, at a voltage ratio
their sum leaves no room for. -/
def OverModulated (ratio x : ℚ) : Prop :=
  ∃ j : ℤ, (60 ≤ j ∧ j ≤ 73) ∧ BothRoundUp j x
    ∧ 10000 < sqrt3 * (sineAt (133 - j) + sineAt j) * min |ratio| 0.577

/-- A little over a sector still leaves room at full modulation. -/
theorem fits_of_le {total m : ℚ} (htotal : total ≤ 10006) (hm0 : 0 ≤ m) (hm : m ≤ 0.577) :
    sqrt3 * total * m ≤ 10000 := by
  have h3 : (0 : ℚ) ≤ sqrt3 := by norm_num [sqrt3]
  calc sqrt3 * total * m ≤ sqrt3 * 10006 * 0.577 := by gcongr
    _ ≤ 10000 := by norm_num [sqrt3]

section Cells

variable {x : ℚ} (h0 : 0 ≤ x) (h : x ≤ pi_3)

include h0 h

/-- The two entries together stand for 132 or 133 cells of the table. -/
theorem cell_add_cell : cell (pi_3 - x) + cell x = 132 ∨ cell (pi_3 - x) + cell x = 133 := by
  have h1 := round_bounds (x := 126.6873 * x) (by linarith)
  have h2 := round_bounds (x := 126.6873 * (pi_3 - x)) (by linarith)
  have hlo : (131 : ℚ) < cell (pi_3 - x) + cell x := by
    simp only [cell, pi_3] at h1 h2 ⊢
    linarith [h1.2, h2.2]
  have hhi : (cell (pi_3 - x) + cell x : ℚ) < 134 := by
    simp only [cell, pi_3] at h1 h2 ⊢
    linarith [h1.1, h2.1]
  have hlo' : 131 < cell (pi_3 - x) + cell x := by exact_mod_cast hlo
  have hhi' : cell (pi_3 - x) + cell x < 134 := by exact_mod_cast hhi
  omega

/-- **They are `133 - j` and `j` exactly when both are rounded up.** -/
theorem cells_eq_iff (j : ℤ) :
    (cell (pi_3 - x) = 133 - j ∧ cell x = j) ↔ BothRoundUp j x := by
  have h1 := round_bounds (x := 126.6873 * x) (by linarith)
  have h2 := round_bounds (x := 126.6873 * (pi_3 - x)) (by linarith)
  constructor
  · rintro ⟨hi, hj⟩
    rw [cell] at hi hj
    rw [hi] at h2
    rw [hj] at h1
    refine ⟨h1.1, ?_⟩
    have := h2.1
    push_cast at this
    exact this
  · rintro ⟨hj, hi⟩
    have hj' : (j : ℚ) < cell x + 1 := by
      rw [cell]
      linarith [h1.2]
    have hi' : (133 - j : ℚ) < cell (pi_3 - x) + 1 := by
      rw [cell]
      linarith [h2.2]
    have hj'' : j < cell x + 1 := by exact_mod_cast hj'
    have hi'' : 133 - j < cell (pi_3 - x) + 1 := by exact_mod_cast hi'
    have := cell_add_cell h0 h
    omega

/-- **The two dwells fit the period exactly when the position is not over-modulated.** -/
theorem dwells_fit_iff (ratio : ℚ) :
    sqrt3 * (sineAt (cell (pi_3 - x)) + sineAt (cell x)) * min |ratio| 0.577 ≤ 10000
      ↔ ¬ OverModulated ratio x := by
  constructor
  · rintro hfit ⟨j, -, hround, hover⟩
    obtain ⟨hi, hj⟩ := (cells_eq_iff h0 h j).mpr hround
    rw [hi, hj] at hfit
    exact not_lt.mpr hfit hover
  · intro hnot
    by_contra hover
    rw [not_le] at hover
    have hin : cell (pi_3 - x) + cell x = 133 ∧ 60 ≤ cell x ∧ cell x ≤ 73 := by
      by_contra hout
      have hcells : cell (pi_3 - x) + cell x = 132
          ∨ (cell (pi_3 - x) + cell x = 133 ∧ ¬ (60 ≤ cell x ∧ cell x ≤ 73)) := by
        have := cell_add_cell h0 h
        tauto
      have hsum := sineAt_add_sineAt_le (FocUtils.round_nonneg (by linarith))
        (FocUtils.round_nonneg (by linarith)) hcells
      have hsum' : (sineAt (cell (pi_3 - x)) + sineAt (cell x) : ℚ) ≤ 10006 := by
        exact_mod_cast hsum
      exact not_le.mpr hover
        (fits_of_le hsum' (le_min (abs_nonneg _) (by norm_num)) (min_le_right _ _))
    obtain ⟨h133, hmid⟩ := hin
    have hi : cell (pi_3 - x) = 133 - cell x := by omega
    refine hnot ⟨cell x, hmid, (cells_eq_iff h0 h _).mp ⟨hi, rfl⟩, ?_⟩
    rwa [← hi]

end Cells

/-! ## The duties of a command -/

/-- The angle a voltage is commanded at. -/
def commandedAngle (Uq Ud angle : ℚ) : ℚ := angle + if Ud ≠ 0 then atan2 Uq Ud else pi_2

/-- Its position in the sector it lies in. -/
def sectorPosition (t : ℚ) : ℚ := floorMod (floorMod t twoPi) pi_3

/-- The magnitude a voltage is commanded with, relative to the supply. -/
def commandedRatio (V Uq Ud : ℚ) : ℚ := if Ud ≠ 0 then sqrt (Ud * Ud + Uq * Uq) / V else Uq / V

theorem arg2_eq_sectorPosition (Uq Ud angle : ℚ) :
    angleEl (.exact atan2 sqrt) Uq Ud angle
        - (sector (angleEl (.exact atan2 sqrt) Uq Ud angle) - 1.0) * pi_3
      = sectorPosition (commandedAngle atan2 Uq Ud angle) := by
  have hθ : angleEl (.exact atan2 sqrt) Uq Ud angle
      = floorMod (commandedAngle atan2 Uq Ud angle) twoPi := by
    rw [angleEl_exact, floorMod_eq_toIcoMod twoPi_pos, commandedAngle]
  have h0 := (angleEl_exact_mem atan2 sqrt Uq Ud angle).1
  have hmem := arg2_mem (by linarith [pi_3_pos] : -pi_3 ≤ angleEl (.exact atan2 sqrt) Uq Ud angle)
  rw [sectorPosition, ← hθ, floorMod_eq_toIcoMod pi_3_pos]
  refine ((toIcoMod_eq_iff pi_3_pos).mpr ⟨by rwa [zero_add], ?_⟩).symm
  refine ⟨(sector (angleEl (.exact atan2 sqrt) Uq Ud angle) : ℤ) - 1, ?_⟩
  have hone : (1.0 : ℚ) = 1 := by norm_num
  rw [zsmul_eq_mul, hone, Int.cast_sub, Int.cast_natCast, Int.cast_one, sub_add_cancel]

/-- **A command is turned into duty cycles exactly when it is not over-modulated.** -/
theorem duty_mem_unit_iff (V Uq Ud angle : ℚ) :
    (∀ T ∈ (phaseDuty (.exact atan2 sqrt) V Uq Ud angle).toList, T ∈ Set.Icc (0 : ℚ) 1)
      ↔ ¬ OverModulated (commandedRatio sqrt V Uq Ud)
          (sectorPosition (commandedAngle atan2 Uq Ud angle)) := by
  have hlow : -pi_3 ≤ angleEl (.exact atan2 sqrt) Uq Ud angle := by
    linarith [(angleEl_exact_mem atan2 sqrt Uq Ud angle).1, pi_3_pos]
  have harg2 := arg2_eq_sectorPosition atan2 sqrt Uq Ud angle
  have harg1 : (sector (angleEl (.exact atan2 sqrt) Uq Ud angle) : ℚ) * pi_3
        - angleEl (.exact atan2 sqrt) Uq Ud angle
      = pi_3 - sectorPosition (commandedAngle atan2 Uq Ud angle) := by
    have hone : (1.0 : ℚ) = 1 := by norm_num
    rw [← harg2, hone]
    ring
  obtain ⟨h0, h1⟩ := harg2 ▸ arg2_mem hlow
  rw [← dwells_fit_iff h0 h1.le, phaseDuty_exact]
  dsimp only
  rw [dwell1_exact atan2 sqrt hlow, dwell2_exact atan2 sqrt hlow, harg1, harg2,
    sectorDuty_mem_unit_iff atan2 sqrt (sector_exact_mem atan2 sqrt Uq Ud angle)
      (SameSign.mul_right (sine_nonneg _) (sine_nonneg _) _),
    ← add_mul, abs_mul, abs_of_nonneg (add_nonneg (sine_nonneg _) (sine_nonneg _)), abs_clamp_exact]
  have hratio : uout (.exact atan2 sqrt) V Uq Ud = commandedRatio sqrt V Uq Ud := rfl
  rw [hratio]
  constructor <;> intro h <;> linarith

end Svpwm

/-! ## The compare values -/

/-- A duty cycle is scaled to a compare value of at most a period. -/
theorem BLDCMotor.compareValue_le {T : ℚ} (h : T ∈ Set.Icc (0 : ℚ) 1) :
    compareValue T ≤ 5000 := by
  obtain ⟨h0, h1⟩ := h
  have hnonneg : 0 ≤ ctrunc (T * 5000) := ctrunc_nonneg (by linarith)
  have hle : ctrunc (T * 5000) ≤ 5000 :=
    ctrunc_le_of_lt (by linarith) (by push_cast; linarith)
  have hwrap : ctrunc (T * 5000) % 2 ^ 32 = ctrunc (T * 5000) :=
    Int.emod_eq_of_lt hnonneg (by omega)
  rw [compareValue, UInt32.ofInt, hwrap, UInt32.le_iff_toNat_le, UInt32.toNat_ofNat']
  change _ ≤ 5000
  omega

/-- The registers of a call hold at most a period each. -/
def BLDCMotor.Compare.WithinPeriod (c : BLDCMotor.Compare) : Prop :=
  c.ccr1 ≤ 5000 ∧ c.ccr2 ≤ 5000 ∧ c.ccr3 ≤ 5000

theorem BLDCMotor.withinPeriod_setPhaseVoltage (A : FloatModel) (m : BLDCMotor.Motor)
    (Uq Ud angle : ℚ)
    (h : ∀ T ∈ (setPhaseVoltage A m Uq Ud angle).duty.toList, T ∈ Set.Icc (0 : ℚ) 1) :
    (setPhaseVoltage A m Uq Ud angle).compare.WithinPeriod := by
  obtain ⟨ha, hb, hc⟩ := Duty.forall_mem_toList.mp h
  exact ⟨compareValue_le ha, compareValue_le hb, compareValue_le hc⟩

variable (atan2 : ℚ → ℚ → ℚ) (sqrt : ℚ → ℚ)

/-- **When every duty is a duty cycle and every compare value within the period**: exactly when the
command is not over-modulated, in either driver. -/
theorem duty_valid_iff (Uq Ud angle : ℚ) :
    (∀ cfg : Foc.FOCConfig,
      (∀ T ∈ (Foc.setPhaseVoltage (.exact atan2 sqrt) cfg Uq Ud angle).toList,
          T ∈ Set.Icc (0 : ℚ) 1)
        ↔ ¬ Svpwm.OverModulated (Svpwm.commandedRatio sqrt cfg.voltagePowerSupply Uq Ud)
            (Svpwm.sectorPosition (Svpwm.commandedAngle atan2 Uq Ud angle)))
      ∧ ∀ m : BLDCMotor.Motor,
        ((∀ T ∈ (BLDCMotor.setPhaseVoltage (.exact atan2 sqrt) m Uq Ud angle).duty.toList,
            T ∈ Set.Icc (0 : ℚ) 1)
          ∧ (BLDCMotor.setPhaseVoltage (.exact atan2 sqrt) m Uq Ud angle).compare.WithinPeriod)
        ↔ ¬ Svpwm.OverModulated (Svpwm.commandedRatio sqrt m.voltagePowerSupply Uq Ud)
            (Svpwm.sectorPosition (Svpwm.commandedAngle atan2 Uq Ud angle)) := by
  constructor
  · intro cfg
    exact Svpwm.duty_mem_unit_iff atan2 sqrt _ Uq Ud angle
  · intro m
    rw [← Svpwm.duty_mem_unit_iff]
    exact and_iff_left_of_imp (BLDCMotor.withinPeriod_setPhaseVoltage _ m Uq Ud angle)

/-- **Full voltage, an angle just past zero**: the phase that should be off is given a negative
duty, and its compare value wraps. -/
theorem duty_negative :
    (Foc.setPhaseVoltage (.exact (fun _ _ => 0) id) ⟨.velocityOpenloop, 12, 12, 2, 7, 0⟩ 12 0
        (1 / 256)).Tc ∉ Set.Icc (0 : ℚ) 1
      ∧ (BLDCMotor.setPhaseVoltage (.exact (fun _ _ => 0) id)
          { (default : BLDCMotor.Motor) with voltagePowerSupply := 12 } 12 0
          (1 / 256)).duty.Tc ∉ Set.Icc (0 : ℚ) 1
      ∧ (BLDCMotor.setPhaseVoltage (.exact (fun _ _ => 0) id)
          { (default : BLDCMotor.Motor) with voltagePowerSupply := 12 } 12 0
          (1 / 256)).compare.ccr3 = 4294967292 := by
  simp only [Set.mem_Icc]
  decide +kernel

end EmbeddedMCU

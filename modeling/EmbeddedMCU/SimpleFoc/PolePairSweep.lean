import EmbeddedMCU.SimpleFoc.Commutation

/-!
# SimpleFoc/PolePairSweep — the sweep of `FOCTestPolePairs`

The loop bound is the divisor of the angle.  The pole pairs cancel, so the `i`-th position is `i`
steps of a five-hundredth of a turn whatever their number (`sweep_eq`) — but for none, where the one
round of the loop divides by zero (`wholeSweep_iff`).
-/

namespace EmbeddedMCU

open FocUtils

/-- **Without a voltage every phase is half on**, at any angle. -/
theorem Svpwm.phaseDuty_zero (atan2 : ℚ → ℚ → ℚ) (sqrt : ℚ → ℚ) (V angle : ℚ) :
    phaseDuty (.exact atan2 sqrt) V 0 0 angle = ⟨1 / 2, 1 / 2, 1 / 2⟩ := by
  have hU : clamp (.exact atan2 sqrt) (uout (.exact atan2 sqrt) V 0 0) = 0 := by
    have hratio : uout (.exact atan2 sqrt) V 0 0 = 0 := by simp [uout]
    rw [hratio]
    exact clamp_exact_eq_self atan2 sqrt (by norm_num)
  have hs := sector_exact_mem atan2 sqrt 0 0 angle
  rw [phaseDuty_exact]
  simp only [hU, dwell1, dwell2, mul_zero, FloatModel.exact_store, sub_zero]
  generalize sector _ = s at hs
  obtain ⟨h1, h6⟩ := hs
  interval_cases s <;> simp [sectorDuty]

namespace Foc

variable (atan2 : ℚ → ℚ → ℚ) (sqrt : ℚ → ℚ)

/-! ## What is emitted -/

/-- The duties among what is handed out. -/
def duties (out : List Output) : List Duty :=
  out.filterMap fun o => match o with
    | .outPutPWM duty => some duty
    | _ => none

/-- The `i`-th position of a sweep, in five hundred steps a turn. -/
def sweepDuty (A : FloatModel) (cfg : FOCConfig) (i : ℕ) : Duty :=
  setPhaseVoltage A cfg cfg.voltageSensorAlign 0 (twoPi * (i % 500 : ℕ) / 500)

/-- **A whole number of electrical revolutions**: between a first and a last output, a duty triple
for each of the five hundred steps of a pole pair and one more, the first position and the last
being the same, and no voltage in the end. -/
def WholeSweep (A : FloatModel) (cfg : FOCConfig) (polePairs : ℕ) (out : List Output) : Prop :=
  ∃ first swept, duties out = first :: swept ++ [⟨1 / 2, 1 / 2, 1 / 2⟩]
    ∧ swept = (List.range (500 * polePairs + 1)).map (sweepDuty A cfg)
    ∧ swept.head? = swept.getLast?

@[simp] theorem duties_nil : duties [] = [] := rfl

@[simp] theorem duties_outPutPWM (duty : Duty) (out : List Output) :
    duties (.outPutPWM duty :: out) = duty :: duties out := rfl

@[simp] theorem duties_delayMs (ms : ℕ) (out : List Output) :
    duties (.delayMs ms :: out) = duties out := rfl

theorem duties_append (out out' : List Output) : duties (out ++ out') = duties out ++ duties out' :=
  List.filterMap_append

/-! ## The loop -/

theorem checkedPhaseVoltage_eq {cfg : FOCConfig} (hV : 0 < cfg.voltagePowerSupply) (A : FloatModel)
    (Uq Ud angle : ℚ) :
    checkedPhaseVoltage A cfg Uq Ud angle = some (setPhaseVoltage A cfg Uq Ud angle) :=
  if_neg hV.ne'

/-- With a divisor that is not zero the loop emits a duty triple in each round. -/
theorem sweep_eq {cfg : FOCConfig} (hV : 0 < cfg.voltagePowerSupply) (A : FloatModel)
    (numAnage : ℚ) {num : ℤ} (hnum : num ≠ 0) (i : ℤ) (rounds : ℕ) :
    (sweep A cfg numAnage num i rounds).map duties
      = some ((List.range rounds).map fun j : ℕ =>
          setPhaseVoltage A cfg cfg.voltageSensorAlign 0
            (A.store (numAnage * (i + j : ℤ) / num))) := by
  induction rounds generalizing i with
  | zero => rfl
  | succ rounds ih =>
    have hdiv : checkedDiv (numAnage * i) num = some (numAnage * i / num) :=
      if_neg (Int.cast_ne_zero.mpr hnum)
    obtain ⟨rest, hrest, hduties⟩ := Option.map_eq_some_iff.mp (ih (i + 1))
    have hround : sweep A cfg numAnage num i (rounds + 1)
        = some (.outPutPWM (setPhaseVoltage A cfg cfg.voltageSensorAlign 0
            (A.store (numAnage * i / num))) :: .delayMs 2 :: rest) := by
      rw [sweep, hdiv, Option.bind_eq_bind, Option.bind_some, checkedPhaseVoltage_eq hV,
        Option.bind_eq_bind, Option.bind_some, hrest]
      rfl
    rw [hround, Option.map_some, duties_outPutPWM, duties_delayMs, hduties, List.range_succ_eq_map,
      List.map_cons, List.map_map]
    congr 2
    · rw [Nat.cast_zero, add_zero]
    · refine List.map_congr_left fun j _ => ?_
      rw [Function.comp_apply, Nat.cast_succ, add_assoc, add_comm 1]

/-- **The pole pairs cancel**: the `i`-th angle is `i` five-hundredths of a turn, and whole turns
make no difference. -/
theorem sweep_position (cfg : FOCConfig) {p : ℤ} (hp : p ≠ 0) (i : ℕ) :
    setPhaseVoltage (.exact atan2 sqrt) cfg cfg.voltageSensorAlign 0
        (twoPi * p * ((0 + i : ℤ) : ℚ) / ((p * 500 : ℤ) : ℚ))
      = sweepDuty (.exact atan2 sqrt) cfg i := by
  refine setPhaseVoltage_congr atan2 sqrt cfg _ _ ?_
  have hp' : (p : ℚ) ≠ 0 := Int.cast_ne_zero.mpr hp
  have hi := Nat.mod_add_div i 500
  generalize i % 500 = step at hi ⊢
  generalize i / 500 = turns at hi
  have hi' : (i : ℚ) = step + 500 * turns := by exact_mod_cast hi.symm
  refine AddCommGroup.modEq_iff_zsmul.mpr ⟨-(turns : ℤ), ?_⟩
  rw [zsmul_eq_mul]
  push_cast
  rw [hi']
  field_simp
  ring

/-- Five hundred rounds a pole pair, where the `int` holds them. -/
theorem toInt_mul_500 {p : Int32} (h0 : 0 ≤ p.toInt) (hfit : 500 * p.toInt < 2 ^ 31) :
    (p * 500).toInt = p.toInt * 500 := by
  have h500 : (500 : Int32).toInt = 500 := rfl
  rw [Int32.toInt_mul, h500]
  exact Int.bmod_eq_of_le (by omega) (by omega)

/-! ## The sweep -/

/-- No pole pairs, no divisor. -/
theorem focTestPolePairs_zero {cfg : FOCConfig} (hV : 0 < cfg.voltagePowerSupply) (A : FloatModel) :
    focTestPolePairs A cfg 0 = none := by
  have hnum : ((0 : Int32) * 500).toInt = 0 := rfl
  have hrounds : ((0 : ℤ) + 1).toNat = 1 := rfl
  have hsweep : ∀ numAnage, sweep A cfg numAnage 0 0 1 = none := fun numAnage => by
    have hdiv : checkedDiv (numAnage * (0 : ℤ)) (0 : ℤ) = none := if_pos Int.cast_zero
    rw [sweep, hdiv]
    rfl
  rw [focTestPolePairs, checkedPhaseVoltage_eq hV]
  simp only [hnum, hrounds, hsweep, Option.bind_eq_bind, Option.bind_some, Option.bind_none]

/-- Whole turns end where they began. -/
theorem head?_eq_getLast?_sweepDuty (A : FloatModel) (cfg : FOCConfig) (p : ℕ) :
    ((List.range (500 * p + 1)).map (sweepDuty A cfg)).head?
      = ((List.range (500 * p + 1)).map (sweepDuty A cfg)).getLast? := by
  have hturns : sweepDuty A cfg (500 * p) = sweepDuty A cfg 0 := by
    rw [sweepDuty, sweepDuty, Nat.mul_mod_right, Nat.zero_mod]
  rw [List.head?_map, List.getLast?_map, List.head?_range, List.getLast?_range,
    if_neg (Nat.succ_ne_zero _), if_neg (Nat.succ_ne_zero _), Option.map_some, Option.map_some,
    Nat.add_sub_cancel, hturns]

/-- **With pole pairs, the sweep is whole.** -/
theorem focTestPolePairs_whole {cfg : FOCConfig} (hV : 0 < cfg.voltagePowerSupply) {p : Int32}
    (hp : 0 < p.toInt) (hfit : 500 * p.toInt < 2 ^ 31) :
    ∃ out, focTestPolePairs (.exact atan2 sqrt) cfg p = some out
      ∧ WholeSweep (.exact atan2 sqrt) cfg p.toInt.toNat out := by
  have hnum := toInt_mul_500 hp.le hfit
  have hrounds : (p.toInt * 500 + 1).toNat = 500 * p.toInt.toNat + 1 := by omega
  obtain ⟨swept, hswept, hduties⟩ := Option.map_eq_some_iff.mp
    (sweep_eq hV (.exact atan2 sqrt) (twoPi * p.toInt) (show p.toInt * 500 ≠ 0 by omega) 0
      (500 * p.toInt.toNat + 1))
  have hpositions : duties swept
      = (List.range (500 * p.toInt.toNat + 1)).map (sweepDuty (.exact atan2 sqrt) cfg) := by
    rw [hduties]
    exact List.map_congr_left fun i _ => sweep_position atan2 sqrt cfg hp.ne' i
  have hlast : setPhaseVoltage (.exact atan2 sqrt) cfg 0 0 0 = ⟨1 / 2, 1 / 2, 1 / 2⟩ :=
    Svpwm.phaseDuty_zero atan2 sqrt _ 0
  have hout : focTestPolePairs (.exact atan2 sqrt) cfg p
      = some (.outPutPWM (setPhaseVoltage (.exact atan2 sqrt) cfg cfg.voltageSensorAlign 0 0)
          :: .delayMs 100 :: swept ++ [.outPutPWM ⟨1 / 2, 1 / 2, 1 / 2⟩]) := by
    rw [focTestPolePairs, hnum, hrounds, checkedPhaseVoltage_eq hV, checkedPhaseVoltage_eq hV,
      hlast]
    simp only [FloatModel.exact_store, hswept, Option.bind_eq_bind, Option.bind_some]
  refine ⟨_, hout, setPhaseVoltage (.exact atan2 sqrt) cfg cfg.voltageSensorAlign 0 0,
    duties swept, ?_, hpositions, ?_⟩
  · rw [List.cons_append, List.cons_append, duties_outPutPWM, duties_delayMs, duties_append]
    rfl
  · rw [hpositions]
    exact head?_eq_getLast?_sweepDuty _ _ _

/-- **The sweep is a whole number of electrical revolutions exactly when there is a pole pair.** -/
theorem wholeSweep_iff (cfg : FOCConfig) (hV : 0 < cfg.voltagePowerSupply) (p : Int32)
    (h0 : 0 ≤ p.toInt) (hfit : 500 * p.toInt < 2 ^ 31) :
    (∃ out, focTestPolePairs (.exact atan2 sqrt) cfg p = some out
        ∧ WholeSweep (.exact atan2 sqrt) cfg p.toInt.toNat out) ↔ 1 ≤ p.toInt := by
  constructor
  · rintro ⟨out, hout, -⟩
    by_contra hlt
    have hp : p = 0 := Int32.toInt_inj.mp (by rw [Int32.toInt_zero]; omega)
    rw [hp, focTestPolePairs_zero hV] at hout
    exact Option.some_ne_none out hout.symm
  · intro h1
    exact focTestPolePairs_whole atan2 sqrt hV h1 hfit

/-- A motor of seven pole pairs, on twelve volts. -/
theorem wholeSweep_seven :
    ∃ out, focTestPolePairs (.exact (fun _ _ => 0) id) ⟨.torque, 12, 6, 2, 7, 0⟩ 7 = some out
      ∧ WholeSweep (.exact (fun _ _ => 0) id) ⟨.torque, 12, 6, 2, 7, 0⟩ 7 out :=
  (wholeSweep_iff (fun _ _ => 0) id ⟨.torque, 12, 6, 2, 7, 0⟩ (by decide) 7 (by decide)
    (by decide)).mpr (by decide)

/-- **No pole pairs is an argument the sweep is asked for, and a division by zero.** -/
theorem sweep_divides_by_zero :
    0 ≤ (0 : Int32).toInt ∧ 500 * (0 : Int32).toInt < 2 ^ 31
      ∧ ¬ ∃ out, focTestPolePairs (.exact (fun _ _ => 0) id) ⟨.torque, 12, 6, 2, 7, 0⟩ 0 = some out
          ∧ WholeSweep (.exact (fun _ _ => 0) id) ⟨.torque, 12, 6, 2, 7, 0⟩ 0 out := by
  refine ⟨by decide, by decide, ?_⟩
  rintro ⟨out, hout, -⟩
  rw [focTestPolePairs_zero (by decide)] at hout
  exact Option.some_ne_none out hout.symm

end Foc

end EmbeddedMCU

import EmbeddedMCU.SimpleFoc.Foc
import EmbeddedMCU.SimpleFoc.BLDCMotor

/-!
# SimpleFoc/Commutation — what a reduced angle leaves unchanged

In exact arithmetic the modulator sees an electrical angle only modulo `_2PI`
(`phaseDuty_congr`), and a whole number of pole pairs carries a congruence of the shaft to one of
the electrical angle.  So neither the reduction of the shaft angle in open-loop control nor that of
the calibrated offset is seen at the inverter.
-/

namespace EmbeddedMCU

open FocUtils

variable (atan2 : ℚ → ℚ → ℚ) (sqrt : ℚ → ℚ)

/-- **The modulator sees the angle modulo one turn.** -/
theorem Svpwm.phaseDuty_congr (V Uq Ud : ℚ) {a b : ℚ} (h : a ≡ b [PMOD twoPi]) :
    phaseDuty (.exact atan2 sqrt) V Uq Ud a = phaseDuty (.exact atan2 sqrt) V Uq Ud b := by
  have hθ : angleEl (.exact atan2 sqrt) Uq Ud a = angleEl (.exact atan2 sqrt) Uq Ud b := by
    rw [angleEl_exact, angleEl_exact]
    exact (h.add_right _).toIcoMod_eq_toIcoMod twoPi_pos
  simp only [phaseDuty_exact, hθ]

namespace Foc

/-- The configuration with another control mode. -/
def FOCConfig.inMode (cfg : FOCConfig) (c : MotionControlType) : FOCConfig :=
  { cfg with controller := c }

theorem setPhaseVoltage_congr (cfg : FOCConfig) (Uq Ud : ℚ) {a b : ℚ} (h : a ≡ b [PMOD twoPi]) :
    setPhaseVoltage (.exact atan2 sqrt) cfg Uq Ud a
      = setPhaseVoltage (.exact atan2 sqrt) cfg Uq Ud b :=
  Svpwm.phaseDuty_congr atan2 sqrt _ _ _ h

/-! ## Open-loop velocity control -/

/-- What a call of open-loop velocity control is asked, the time step it computes, and the duties
it emits. -/
structure OpenloopCall where
  target : ℚ
  Ts : ℚ
  duty : Duty

/-- A `FOCMove` in mode `Type_velocity_openloop`. -/
def openloopCall (A : FloatModel) (cfg : FOCConfig) (foc : FOC) (x : ℚ × MoveReadings) :
    FOC × OpenloopCall :=
  let r := focMove A (cfg.inMode .velocityOpenloop) foc x.1 x.2
  (r.2.1, ⟨x.1, (shaftTargetAngle A foc x.1 foc.timePrev x.2.nowUs).Ts, r.2.2⟩)

/-- The shaft travel of a call. -/
def OpenloopCall.travel (c : OpenloopCall) : ℚ := c.target * c.Ts

theorem openloopCall_shaftAngle (cfg : FOCConfig) (foc : FOC) (x : ℚ × MoveReadings) :
    (openloopCall (.exact atan2 sqrt) cfg foc x).1.shaftAngle
      = toIcoMod twoPi_pos 0
          (foc.shaftAngle + (openloopCall (.exact atan2 sqrt) cfg foc x).2.travel) :=
  normalizeAngle_exact atan2 sqrt _

theorem openloopCall_duty (cfg : FOCConfig) (foc : FOC) (x : ℚ × MoveReadings) :
    (openloopCall (.exact atan2 sqrt) cfg foc x).2.duty
      = setPhaseVoltage (.exact atan2 sqrt) cfg cfg.voltageLimit 0
          ((openloopCall (.exact atan2 sqrt) cfg foc x).1.shaftAngle * cfg.polePairs.toNat
            - cfg.zeroElectricAngle) := rfl

/-- **Open-loop velocity control commutates at the unwrapped angle.** -/
theorem openloop_run (cfg : FOCConfig) (foc : FOC) (xs : List (ℚ × MoveReadings))
    (x : ℚ × MoveReadings) :
    let r := run (openloopCall (.exact atan2 sqrt) cfg) foc (xs ++ [x])
    let a := foc.shaftAngle + (r.2.map OpenloopCall.travel).sum
    r.1.shaftAngle = toIcoMod twoPi_pos 0 a
      ∧ r.2.getLast?.map OpenloopCall.duty
        = some (setPhaseVoltage (.exact atan2 sqrt) cfg cfg.voltageLimit 0
            (a * cfg.polePairs.toNat - cfg.zeroElectricAngle)) := by
  have hangle := openloopCall_shaftAngle atan2 sqrt cfg
  refine ⟨run_concat_position _ FOC.shaftAngle twoPi_pos hangle foc xs x, ?_⟩
  exact run_concat_emitted _ FOC.shaftAngle twoPi_pos hangle OpenloopCall.duty
    (fun a => setPhaseVoltage (.exact atan2 sqrt) cfg cfg.voltageLimit 0
      (a * cfg.polePairs.toNat - cfg.zeroElectricAngle))
    (fun h => setPhaseVoltage_congr atan2 sqrt cfg _ _ ((modEq_mul_natCast _ h).sub_right _))
    (fun _ => True) (fun _ _ _ => trivial) (fun s x _ => openloopCall_duty atan2 sqrt cfg s x)
    trivial xs x

/-- A call is for the target it is asked, and its time step is the clock code's, for the reading the
call before it stored and its own. -/
theorem openloop_readings (A : FloatModel) (cfg : FOCConfig) (foc : FOC)
    (xs : List (ℚ × MoveReadings)) (x : ℚ × MoveReadings) :
    let r := run (openloopCall A cfg) foc (xs ++ [x])
    let nowUs := (xs ++ [x]).map fun y => y.2.nowUs
    r.2.map OpenloopCall.target = (xs ++ [x]).map Prod.fst
      ∧ r.2.map OpenloopCall.Ts = List.zipWith (timeStep A) (foc.timePrev :: nowUs) nowUs
      ∧ r.1.timePrev = x.2.nowUs := by
  intro r nowUs
  refine ⟨map_run OpenloopCall.target Prod.fst (fun _ _ => rfl) foc _, ?_, ?_⟩
  · exact run_stamps (fun _ => True) FOC.timePrev (fun y : ℚ × MoveReadings => y.2.nowUs)
      OpenloopCall.Ts (timeStep A) (fun _ _ _ => ⟨trivial, rfl, rfl⟩) trivial _
  · simp only [r, run_concat]
    rfl

/-! ## Calibration -/

/-- The configuration after a calibration at the mechanical angle `m`, set to angle control. -/
def FOCConfig.calibrated (A : FloatModel) (cfg : FOCConfig) (m : ℚ) : FOCConfig :=
  { cfg with
    controller := .velocityOpenloopAngle
    zeroElectricAngle := (focTestZeroElectricAngle A cfg m).1 }

/-- The calibrated offset is the electrical angle of the calibration position. -/
theorem zeroElectricAngle_modEq (cfg : FOCConfig) (h : cfg.polePairs ≠ 0) (m : ℚ) :
    (focTestZeroElectricAngle (.exact atan2 sqrt) cfg m).1 ≡ m * cfg.polePairs.toNat
      [PMOD twoPi] := by
  have hzero : (focTestZeroElectricAngle (.exact atan2 sqrt) cfg m).1
      = toIcoMod twoPi_pos 0 (m * cfg.polePairs.toNat) := by
    rw [focTestZeroElectricAngle, if_neg h]
    exact normalizeAngle_exact atan2 sqrt _
  rw [hzero]
  exact toIcoMod_modEq twoPi_pos _

/-- A move in angle control, by the offset its configuration holds. -/
theorem focMove_angle_duty (A : FloatModel) (cfg : FOCConfig)
    (h : cfg.controller = .velocityOpenloopAngle) (foc : FOC) (target : ℚ) (r : MoveReadings) :
    (focMove A cfg foc target r).2.2
      = setPhaseVoltage A cfg cfg.voltageLimit 0
          (A.store (A.store (r.shaftAngle + A.store target * 0.1) * cfg.polePairs.toNat
            - cfg.zeroElectricAngle)) := by
  simp only [focMove, moveTarget, h, electricalAngle]

/-- **Calibration and commutation agree**: with the calibrated offset stored, a move depends only
on the rotation since the calibration position — and commutates at `0` when there is none.  The
calibration itself pulls the rotor to `3/2·π`, waits, and lets go of it. -/
theorem calibrated_move (cfg : FOCConfig) (h : cfg.polePairs ≠ 0) (m : ℚ) :
    (focTestZeroElectricAngle (.exact atan2 sqrt) cfg m).2
        = [.outPutPWM (setPhaseVoltage (.exact atan2 sqrt) cfg cfg.voltageSensorAlign 0 threePi_2),
          .delayMs 700, .outPutPWM (setPhaseVoltage (.exact atan2 sqrt) cfg 0 0 0)]
      ∧ (∀ (foc : FOC) (target : ℚ) (r : MoveReadings),
      (focMove (.exact atan2 sqrt) (cfg.calibrated (.exact atan2 sqrt) m) foc target r).2.2
        = setPhaseVoltage (.exact atan2 sqrt) cfg cfg.voltageLimit 0
            ((r.shaftAngle + 0.1 * target - m) * cfg.polePairs.toNat))
      ∧ ∀ (foc : FOC) (nowUs : UInt64),
        (focMove (.exact atan2 sqrt) (cfg.calibrated (.exact atan2 sqrt) m) foc 0 ⟨nowUs, m⟩).2.2
          = setPhaseVoltage (.exact atan2 sqrt) cfg cfg.voltageLimit 0 0 := by
  have hmove : ∀ (foc : FOC) (target : ℚ) (r : MoveReadings),
      (focMove (.exact atan2 sqrt) (cfg.calibrated (.exact atan2 sqrt) m) foc target r).2.2
        = setPhaseVoltage (.exact atan2 sqrt) cfg cfg.voltageLimit 0
            ((r.shaftAngle + 0.1 * target - m) * cfg.polePairs.toNat) := by
    intro foc target r
    rw [focMove_angle_duty _ _ rfl]
    refine setPhaseVoltage_congr atan2 sqrt cfg _ _ ?_
    have hsplit : (r.shaftAngle + 0.1 * target - m) * cfg.polePairs.toNat
        = (r.shaftAngle + target * 0.1) * cfg.polePairs.toNat - m * cfg.polePairs.toNat := by ring
    rw [hsplit]
    exact (zeroElectricAngle_modEq atan2 sqrt cfg h m).sub_left _
  refine ⟨?_, hmove, fun foc nowUs => ?_⟩
  · rw [focTestZeroElectricAngle, if_neg h]
  · rw [hmove]
    congr 1
    ring

/-- Seven pole pairs, calibrated at one radian: a move at two radians, and one at the same place. -/
theorem calibrated_move_seven :
    let A : FloatModel := .exact (fun _ _ => 0) id
    let cfg : FOCConfig := ⟨.torque, 12, 6, 2, 7, 0⟩
    (focTestZeroElectricAngle A cfg 1).2
        = [.outPutPWM (setPhaseVoltage A cfg 2 0 threePi_2), .delayMs 700,
          .outPutPWM (setPhaseVoltage A cfg 0 0 0)]
      ∧ (focMove A (cfg.calibrated A 1) default 0.5 ⟨0, 2⟩).2.2
        = setPhaseVoltage A cfg 6 0 ((2 + 0.1 * 0.5 - 1) * 7)
      ∧ (focMove A (cfg.calibrated A 1) default 0 ⟨0, 1⟩).2.2 = setPhaseVoltage A cfg 6 0 0 := by
  obtain ⟨hout, hmove, hzero⟩ :=
    calibrated_move (fun _ _ => 0) id ⟨.torque, 12, 6, 2, 7, 0⟩ (by decide) 1
  exact ⟨hout, hmove default 0.5 ⟨0, 2⟩, hzero default 0⟩

end Foc

namespace BLDCMotor

/-- What a call of `velocityOpenloop` is asked, the time step it computes, and what it emits. -/
structure OpenloopCall where
  target : ℚ
  Ts : ℚ
  output : PhaseOutput

/-- A call of `velocityOpenloop`. -/
def openloopCall (A : FloatModel) (m : Motor) (x : ℚ × UInt32) : Motor × OpenloopCall :=
  let r := velocityOpenloop A m x.1 x.2
  (r.1, ⟨x.1, r.2.Ts, r.2.output⟩)

/-- The shaft travel of a call. -/
def OpenloopCall.travel (c : OpenloopCall) : ℚ := c.target * c.Ts

theorem openloopCall_shaftAngle (m : Motor) (x : ℚ × UInt32) :
    (openloopCall (.exact atan2 sqrt) m x).1.shaftAngle
      = toIcoMod twoPi_pos 0
          (m.shaftAngle + (openloopCall (.exact atan2 sqrt) m x).2.travel) :=
  normalizeAngle_exact atan2 sqrt _

/-- What the motor is told depends on the configuration and the electrical angle. -/
theorem openloopCall_output (m : Motor) (x : ℚ × UInt32) :
    (openloopCall (.exact atan2 sqrt) m x).2.output
      = setPhaseVoltage (.exact atan2 sqrt) m m.voltageLimit 0
          ((openloopCall (.exact atan2 sqrt) m x).1.shaftAngle * m.polePairs) := rfl

theorem setPhaseVoltage_congr (m : Motor) (Uq Ud : ℚ) {a b : ℚ} (h : a ≡ b [PMOD twoPi]) :
    setPhaseVoltage (.exact atan2 sqrt) m Uq Ud a
      = setPhaseVoltage (.exact atan2 sqrt) m Uq Ud b := by
  simp only [setPhaseVoltage, Svpwm.phaseDuty_congr atan2 sqrt _ _ _ h]

/-- The globals no call of `velocityOpenloop` writes. -/
def SameSettings (m m' : Motor) : Prop :=
  m'.voltagePowerSupply = m.voltagePowerSupply ∧ m'.voltageLimit = m.voltageLimit
    ∧ m'.polePairs = m.polePairs

theorem setPhaseVoltage_of_sameSettings {m m' : Motor} (h : SameSettings m m') (Uq Ud a : ℚ) :
    setPhaseVoltage (.exact atan2 sqrt) m' Uq Ud a
      = setPhaseVoltage (.exact atan2 sqrt) m Uq Ud a := by
  simp only [setPhaseVoltage, h.1]

/-- **`velocityOpenloop` commutates at the unwrapped angle.** -/
theorem openloop_run (m : Motor) (xs : List (ℚ × UInt32)) (x : ℚ × UInt32) :
    let r := run (openloopCall (.exact atan2 sqrt)) m (xs ++ [x])
    let a := m.shaftAngle + (r.2.map OpenloopCall.travel).sum
    r.1.shaftAngle = toIcoMod twoPi_pos 0 a
      ∧ r.2.getLast?.map OpenloopCall.output
        = some (setPhaseVoltage (.exact atan2 sqrt) m m.voltageLimit 0 (a * m.polePairs)) := by
  have hangle := openloopCall_shaftAngle atan2 sqrt
  refine ⟨run_concat_position _ Motor.shaftAngle twoPi_pos hangle m xs x, ?_⟩
  refine run_concat_emitted _ Motor.shaftAngle twoPi_pos hangle OpenloopCall.output
    (fun a => setPhaseVoltage (.exact atan2 sqrt) m m.voltageLimit 0 (a * m.polePairs))
    (fun h => setPhaseVoltage_congr atan2 sqrt m _ _ (modEq_mul_intCast _ h))
    (SameSettings m) (fun _ _ hs => hs) (fun s x hs => ?_) ⟨rfl, rfl, rfl⟩ xs x
  rw [openloopCall_output, hs.2.1, hs.2.2, setPhaseVoltage_of_sameSettings atan2 sqrt hs]

/-- A call is for the target it is asked, and its time step is the clock code's, for the reading the
call before it stored and its own. -/
theorem openloop_readings (A : FloatModel) (m : Motor) (xs : List (ℚ × UInt32)) (x : ℚ × UInt32) :
    let r := run (openloopCall A) m (xs ++ [x])
    let nowUs := (xs ++ [x]).map Prod.snd
    r.2.map OpenloopCall.target = (xs ++ [x]).map Prod.fst
      ∧ r.2.map OpenloopCall.Ts = List.zipWith (timeStep A) (m.openLoopTimestamp :: nowUs) nowUs
      ∧ r.1.openLoopTimestamp = x.2 := by
  intro r nowUs
  refine ⟨map_run OpenloopCall.target Prod.fst (fun _ _ => rfl) m _, ?_, ?_⟩
  · exact run_stamps (fun _ => True) Motor.openLoopTimestamp Prod.snd OpenloopCall.Ts (timeStep A)
      (fun _ _ _ => ⟨trivial, rfl, rfl⟩) trivial _
  · simp only [r, run_concat]
    rfl

end BLDCMotor

/-- **The reduction of the shaft angle is invisible in open-loop velocity control**, in either
driver: after a run the shaft angle is the representative in `[0, _2PI)` of the start plus all
travels, and what the last call emits is what the unwrapped angle would.  The travels are the
targets times the steps the clock code makes of successive readings, the last of which is stored. -/
theorem openloop_commutates_unwrapped :
    (∀ (cfg : Foc.FOCConfig) (foc : Foc.FOC) (xs : List (ℚ × Foc.MoveReadings))
        (x : ℚ × Foc.MoveReadings),
      let r := run (Foc.openloopCall (.exact atan2 sqrt) cfg) foc (xs ++ [x])
      let a := foc.shaftAngle + (r.2.map Foc.OpenloopCall.travel).sum
      r.1.shaftAngle = toIcoMod twoPi_pos 0 a
        ∧ r.2.getLast?.map Foc.OpenloopCall.duty
          = some (Foc.setPhaseVoltage (.exact atan2 sqrt) cfg cfg.voltageLimit 0
              (a * cfg.polePairs.toNat - cfg.zeroElectricAngle))
        ∧ r.2.map Foc.OpenloopCall.target = (xs ++ [x]).map Prod.fst
        ∧ r.2.map Foc.OpenloopCall.Ts
          = List.zipWith (Foc.timeStep (.exact atan2 sqrt))
              (foc.timePrev :: (xs ++ [x]).map fun y => y.2.nowUs)
              ((xs ++ [x]).map fun y => y.2.nowUs)
        ∧ r.1.timePrev = x.2.nowUs)
      ∧ ∀ (m : BLDCMotor.Motor) (xs : List (ℚ × UInt32)) (x : ℚ × UInt32),
        let r := run (BLDCMotor.openloopCall (.exact atan2 sqrt)) m (xs ++ [x])
        let a := m.shaftAngle + (r.2.map BLDCMotor.OpenloopCall.travel).sum
        r.1.shaftAngle = toIcoMod twoPi_pos 0 a
          ∧ r.2.getLast?.map BLDCMotor.OpenloopCall.output
            = some (BLDCMotor.setPhaseVoltage (.exact atan2 sqrt) m m.voltageLimit 0
                (a * m.polePairs))
          ∧ r.2.map BLDCMotor.OpenloopCall.target = (xs ++ [x]).map Prod.fst
          ∧ r.2.map BLDCMotor.OpenloopCall.Ts
            = List.zipWith (BLDCMotor.timeStep (.exact atan2 sqrt))
                (m.openLoopTimestamp :: (xs ++ [x]).map Prod.snd) ((xs ++ [x]).map Prod.snd)
          ∧ r.1.openLoopTimestamp = x.2 := by
  constructor
  · intro cfg foc xs x
    obtain ⟨hangle, hduty⟩ := Foc.openloop_run atan2 sqrt cfg foc xs x
    exact ⟨hangle, hduty, Foc.openloop_readings _ cfg foc xs x⟩
  · intro m xs x
    obtain ⟨hangle, houtput⟩ := BLDCMotor.openloop_run atan2 sqrt m xs x
    exact ⟨hangle, houtput, BLDCMotor.openloop_readings _ m xs x⟩

end EmbeddedMCU

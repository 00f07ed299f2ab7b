import EmbeddedMCU.SimpleFoc.Svpwm

/-!
# SimpleFoc/BLDCMotor — the open-loop driver of `BLDCMotor.c`

The globals of the file are one record, `Motor`; `SysTick->VAL` is an argument of the calls that
read it, and the compare registers of timer 2 are a result.
-/

namespace EmbeddedMCU

namespace BLDCMotor

open FocUtils

/-- `MotionControlType`, as `FOCMotor.h` has it. -/
inductive MotionControlType
  | torque
  | velocity
  | angle
  | velocityOpenloop
  | angleOpenloop
  deriving DecidableEq, Inhabited

/-- The globals the open-loop control reads and writes. -/
structure Motor where
  controller : MotionControlType
  voltagePowerSupply : ℚ
  voltageLimit : ℚ
  polePairs : ℤ
  openLoopTimestamp : UInt32
  velocityLimit : ℚ
  shaftAngle : ℚ
  shaftVelocitySp : ℚ
  shaftAngleSp : ℚ
  voltageD : ℚ
  voltageQ : ℚ
  deriving DecidableEq, Inhabited

/-- The compare registers of timer 2. -/
structure Compare where
  ccr1 : UInt32
  ccr2 : UInt32
  ccr3 : UInt32
  deriving DecidableEq

/-- `(int)(T * 5000)`, as the unsigned register takes it. -/
def compareValue (T : ℚ) : UInt32 := UInt32.ofInt (ctrunc (T * 5000))

variable (A : FloatModel)

/-- What `setPhaseVoltage` computes and writes: the duties it scales, and the registers. -/
structure PhaseOutput where
  duty : Duty
  compare : Compare
  deriving DecidableEq

/-- `setPhaseVoltage` -/
def setPhaseVoltage (m : Motor) (Uq Ud angle : ℚ) : PhaseOutput :=
  let d := Svpwm.phaseDuty A m.voltagePowerSupply Uq Ud angle
  { duty := d
    compare := ⟨compareValue d.Ta, compareValue d.Tb, compareValue d.Tc⟩ }

/-- The seconds between two readings of the down-counting `SysTick->VAL`, nine ticks a
microsecond, with the quick fix for strange cases. -/
def timeStep (openLoopTimestamp nowUs : UInt32) : ℚ :=
  quickFix A <|
    if nowUs < openLoopTimestamp then A.store (A.store (openLoopTimestamp - nowUs).toNat / 9 * 1e-6)
    else A.store (A.store (0xFFFFFF - nowUs + openLoopTimestamp).toNat / 9 * 1e-6)

/-- What one open-loop call computes: its `Ts`, what it emits, its result. -/
structure Call where
  Ts : ℚ
  output : PhaseOutput
  Uq : ℚ

/-- `velocityOpenloop` -/
def velocityOpenloop (m : Motor) (targetVelocity : ℚ) (nowUs : UInt32) : Motor × Call :=
  let Ts := timeStep A m.openLoopTimestamp nowUs
  let m := { m with openLoopTimestamp := nowUs }
  let m := { m with shaftAngle := normalizeAngle A (m.shaftAngle + A.store targetVelocity * Ts) }
  let Uq := m.voltageLimit
  (m, ⟨Ts, setPhaseVoltage A m Uq 0 (FocUtils.electricalAngle A m.shaftAngle m.polePairs), Uq⟩)

/-- The `_sign` macro. -/
def sign (a : ℚ) : ℚ := if a < 0 then -1 else if a > 0 then 1 else 0

/-- `angleOpenloop` -/
def angleOpenloop (m : Motor) (targetAngle : ℚ) (nowUs : UInt32) : Motor × Call :=
  let target := A.store targetAngle
  let Ts := timeStep A m.openLoopTimestamp nowUs
  let m := { m with openLoopTimestamp := nowUs }
  let m :=
    if |target - m.shaftAngle| > m.velocityLimit * Ts then
      { m with shaftAngle :=
          A.store (m.shaftAngle + sign (target - m.shaftAngle) * m.velocityLimit * Ts) }
    else { m with shaftAngle := target }
  let Uq := m.voltageLimit
  (m, ⟨Ts, setPhaseVoltage A m Uq 0 (FocUtils.electricalAngle A m.shaftAngle m.polePairs), Uq⟩)

/-- `move`: the open-loop modes make a call, `nowUs` being what it reads from `SysTick->VAL`; the
others make none. -/
def move (m : Motor) (newTarget : ℚ) (nowUs : UInt32) : Motor × Option Call :=
  match m.controller with
  | .velocityOpenloop =>
      let m := { m with shaftVelocitySp := A.store newTarget }
      let r := velocityOpenloop A m m.shaftVelocitySp nowUs
      ({ r.1 with voltageQ := r.2.Uq, voltageD := 0 }, some r.2)
  | .angleOpenloop =>
      let m := { m with shaftAngleSp := A.store newTarget }
      let r := angleOpenloop A m m.shaftAngleSp nowUs
      ({ r.1 with voltageQ := r.2.Uq, voltageD := 0 }, some r.2)
  | _ => (m, none)

end BLDCMotor

end EmbeddedMCU

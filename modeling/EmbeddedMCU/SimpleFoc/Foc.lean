import EmbeddedMCU.Common.Log
import EmbeddedMCU.SimpleFoc.Svpwm

/-!
# SimpleFoc/Foc — the driver of `Foc.c`

The callbacks of `FOCConfig` are modelled at the call: what `GetShaftAnage` and `_micros` return is
an argument, what `OutPutPWM`, `DelayMs` and `OUTPUT` are given is a result, in the order of the
source.  The configuration a `FOC` points to is an argument of its own, `none` where the source
tests the pointer.
-/

namespace EmbeddedMCU

namespace Foc

open FocUtils

/-- `MotionControlType` -/
inductive MotionControlType
  | torque
  | velocity
  | angle
  | velocityOpenloop
  | velocityOpenloopAngle
  deriving DecidableEq, Inhabited

/-- `DQVoltage_s` -/
structure DQVoltage where
  d : ℚ
  q : ℚ
  deriving DecidableEq, Inhabited

/-- `FOCConfig`, less the callbacks. -/
structure FOCConfig where
  controller : MotionControlType
  voltagePowerSupply : ℚ
  voltageLimit : ℚ
  voltageSensorAlign : ℚ
  polePairs : UInt8
  /-- The difference between the electrical and the mechanical angle. -/
  zeroElectricAngle : ℚ
  deriving DecidableEq, Inhabited

/-- `FOC` -/
structure FOC where
  voltage : DQVoltage
  /-- The time of the previous call. -/
  timePrev : UInt64
  /-- The angle at the previous call. -/
  anglePrev : ℚ
  /-- The shaft angle, `0~2pi`. -/
  shaftAngle : ℚ
  /-- The shaft velocity, rad/s. -/
  shaftVelocity : ℚ
  deriving DecidableEq, Inhabited

/-- What the driver hands to the outside, call by call. -/
inductive Output
  | outPutPWM (duty : Duty)
  | delayMs (ms : ℕ)
  | log (a b c : ℚ)
  deriving DecidableEq

variable (A : FloatModel)

/-! ## `SetPhaseVoltage` -/

/-- `SetPhaseVoltage`: the duties given to `OutPutPWM`. -/
def setPhaseVoltage (cfg : FOCConfig) (Uq Ud angle : ℚ) : Duty :=
  Svpwm.phaseDuty A cfg.voltagePowerSupply Uq Ud angle

/-! ## Time and displacement -/

/-- The seconds between two readings of `_micros`, with the quick fix for strange cases. -/
def timeStep (timePrev nowUs : UInt64) : ℚ :=
  quickFix A <|
    if nowUs > timePrev then A.store (A.store (nowUs - timePrev).toNat * 1e-6)
    else A.store (A.store (0xFFFFFFFF - timePrev + nowUs).toNat * 1e-6)

/-- What `ShaftTargetAngle` computes: its `Ts`, its result, and `*update_time`. -/
structure TargetAngle where
  Ts : ℚ
  angle : ℚ
  updateTime : UInt64

/-- `ShaftTargetAngle` -/
def shaftTargetAngle (foc : FOC) (targetVelocity : ℚ) (timePrev nowUs : UInt64) : TargetAngle :=
  let Ts := timeStep A timePrev nowUs
  { Ts := Ts
    angle := normalizeAngle A (foc.shaftAngle + A.store targetVelocity * Ts)
    updateTime := nowUs }

/-- `LowPassFilter` -/
def lowPassFilter (input prev : ℚ) : ℚ := A.store (0.9 * A.store prev + 0.1 * A.store input)

/-- The three branches of `temp`, the movement between two readings of the sensor. -/
def displacement (anglePrev angleNow : ℚ) : ℚ :=
  if angleNow - anglePrev < -pi then A.store (twoPi + angleNow - anglePrev)
  else if angleNow - anglePrev > pi then A.store (twoPi - angleNow + anglePrev)
  else A.store (angleNow - anglePrev)

/-- What `ShaftVelocity` computes: its `Ts` and `temp`, what it logs, its result, and
`*update_time`, `*updata_angle`. -/
structure VelocitySample where
  Ts : ℚ
  temp : ℚ
  log : Output
  velocity : ℚ
  updateTime : UInt64
  updateAngle : ℚ

/-- `ShaftVelocity`.  The signed `time_prev` is compared and subtracted as unsigned, so it is the
`uint64_t` it was read from. -/
def shaftVelocity (foc : FOC) (timePrev nowUs : UInt64) (anglePrev angleNow : ℚ) :
    VelocitySample :=
  let Ts := timeStep A timePrev nowUs
  let temp := displacement A anglePrev angleNow
  { Ts := Ts
    temp := temp
    log := .log (temp / Ts) temp Ts
    velocity := lowPassFilter A (temp / Ts) foc.shaftVelocity
    updateTime := nowUs
    updateAngle := angleNow }

/-! ## `FOCInit` -/

/-- What the callbacks return during one `FOCInit`. -/
structure InitReadings where
  probeAngle : ℚ
  nowUs : UInt64
  velocityAngle : ℚ
  shaftAngle : ℚ

/-- The state of the driver: the configuration and the `FOC` that points to it. -/
structure Driver where
  cfg : FOCConfig
  foc : FOC

/-- The clamp `FOCInit` puts on `voltage_sensor_align`. -/
def FOCConfig.clampSensorAlign (cfg : FOCConfig) : FOCConfig :=
  if cfg.voltageSensorAlign > cfg.voltageLimit then
    { cfg with voltageSensorAlign := cfg.voltageLimit }
  else cfg

/-- `FOCInit` past its null check. -/
def focInitConfigured (cfg : FOCConfig) (foc : FOC) (r : InitReadings) :
    ReturnCode × Driver × List Output :=
  let cfg := cfg.clampSensorAlign
  if r.probeAngle = 0.0 then (ReturnCode.EBUSY, ⟨cfg, foc⟩, [])
  else
    let duty := setPhaseVoltage A cfg 0 0 0
    let sample := shaftVelocity A foc foc.timePrev r.nowUs foc.anglePrev r.velocityAngle
    let foc := { foc with timePrev := sample.updateTime, anglePrev := sample.updateAngle }
    let foc := { foc with shaftAngle := r.shaftAngle }
    (ReturnCode.EOK, ⟨cfg, foc⟩, [.outPutPWM duty, .delayMs 10, sample.log, .delayMs 5])

/-- `FOCInit`, with `none` for a null `foc_config`. -/
def focInit (cfg : Option FOCConfig) (foc : FOC) (r : InitReadings) :
    ReturnCode × Option FOCConfig × FOC × List Output :=
  match cfg with
  | none => (ReturnCode.EEMPTY, none, foc, [])
  | some cfg =>
      let (code, driver, out) := focInitConfigured A cfg foc r
      (code, some driver.cfg, driver.foc, out)

/-! ## `FOCMove` -/

/-- What the callbacks return during one `FOCMove`: each mode reads at most one of them. -/
structure MoveReadings where
  nowUs : UInt64
  shaftAngle : ℚ

/-- The `switch` of `FOCMove`. -/
def moveTarget (cfg : FOCConfig) (foc : FOC) (target : ℚ) (r : MoveReadings) : FOC :=
  match cfg.controller with
  | .velocityOpenloop =>
      let t := shaftTargetAngle A foc target foc.timePrev r.nowUs
      { foc with shaftAngle := t.angle, timePrev := t.updateTime, voltage := ⟨0, cfg.voltageLimit⟩ }
  | .velocityOpenloopAngle =>
      { foc with shaftAngle := A.store (r.shaftAngle + target * 0.1),
                 voltage := ⟨0, cfg.voltageLimit⟩ }
  | _ => foc

/-- The electrical angle of `FOCMove`. -/
def electricalAngle (cfg : FOCConfig) (foc : FOC) : ℚ :=
  A.store (foc.shaftAngle * cfg.polePairs.toNat - cfg.zeroElectricAngle)

/-- `FOCMove`: the new state, and the duties it emits. -/
def focMove (cfg : FOCConfig) (foc : FOC) (target : ℚ) (r : MoveReadings) :
    ReturnCode × FOC × Duty :=
  let foc := moveTarget A cfg foc (A.store target) r
  (ReturnCode.EOK, foc,
    setPhaseVoltage A cfg foc.voltage.q foc.voltage.d (electricalAngle A cfg foc))

/-! ## Calibration -/

/-- `FOCTestZeroElectricAngle`: the result for a sensor reading, and what is emitted before it. -/
def focTestZeroElectricAngle (cfg : FOCConfig) (reading : ℚ) : ℚ × List Output :=
  if cfg.polePairs = 0 then (-1, [])
  else
    (normalizeAngle A (reading * cfg.polePairs.toNat),
      [.outPutPWM (setPhaseVoltage A cfg cfg.voltageSensorAlign 0 threePi_2), .delayMs 700,
        .outPutPWM (setPhaseVoltage A cfg 0 0 0)])

/-! ## The pole-pair sweep

Its divisor is computed, so here a division by zero is an error, `none`. -/

/-- A division. -/
def checkedDiv (a b : ℚ) : Option ℚ := if b = 0 then none else some (a / b)

/-- `SetPhaseVoltage`, whose only divisor that is not a constant is the supply. -/
def checkedPhaseVoltage (cfg : FOCConfig) (Uq Ud angle : ℚ) : Option Duty :=
  if cfg.voltagePowerSupply = 0 then none else some (setPhaseVoltage A cfg Uq Ud angle)

/-- The loop of `FOCTestPolePairs`, from `i` on for so many rounds. -/
def sweep (cfg : FOCConfig) (numAnage : ℚ) (num : ℤ) (i : ℤ) : ℕ → Option (List Output)
  | 0 => some []
  | rounds + 1 => do
      let angle ← checkedDiv (numAnage * i) num
      let duty ← checkedPhaseVoltage A cfg cfg.voltageSensorAlign 0 (A.store angle)
      let rest ← sweep cfg numAnage num (i + 1) rounds
      some (.outPutPWM duty :: .delayMs 2 :: rest)

/-- `FOCTestPolePairs`.  `i` runs from `0` to `num`, so not at all when `num` is negative. -/
def focTestPolePairs (cfg : FOCConfig) (polePairs : Int32) : Option (List Output) := do
  let num := (polePairs * 500).toInt
  let numAnage := A.store (twoPi * polePairs.toInt)
  let first ← checkedPhaseVoltage A cfg cfg.voltageSensorAlign 0 0
  let swept ← sweep A cfg numAnage num 0 (num + 1).toNat
  let last ← checkedPhaseVoltage A cfg 0 0 0
  some (.outPutPWM first :: .delayMs 100 :: swept ++ [.outPutPWM last])

end Foc

end EmbeddedMCU

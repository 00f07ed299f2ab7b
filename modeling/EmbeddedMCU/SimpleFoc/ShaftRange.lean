import EmbeddedMCU.Machinery.Run
import EmbeddedMCU.SimpleFoc.Foc

/-!
# SimpleFoc/ShaftRange — the range `0~2pi` the driver declares for its shaft angle

`FOCInit` copies a sensor angle, open-loop velocity control reduces what it integrates, the closed
modes leave the angle alone: three branches keep the range.  The branch of angle control adds the
target to a sensor angle and stores the sum as it is, so the range is kept exactly as long as those
sums are in it (`shaftAngle_range_iff`).
-/

namespace EmbeddedMCU

namespace Foc

open FocUtils

/-- An angle a sensor returns. -/
structure SensorAngle where
  val : ℚ
  mem : val ∈ Set.Ico 0 twoPi

/-- A call of the driver, with what its callbacks return. -/
inductive DriverCall
  | focInit (probeAngle velocityAngle shaftAngle : SensorAngle) (nowUs : UInt64)
  | focMove (target : ℚ) (shaftAngle : SensorAngle) (nowUs : UInt64)

/-- The declared range. -/
def InRange (angle : ℚ) : Prop := angle ∈ Set.Icc 0 twoPi

instance (angle : ℚ) : Decidable (InRange angle) := inferInstanceAs (Decidable (_ ∧ _))

/-- A call made after the control mode was set.  Its output is the shaft angle it leaves. -/
def driverCall (A : FloatModel) (d : Driver) (x : MotionControlType × DriverCall) : Driver × ℚ :=
  let cfg := { d.cfg with controller := x.1 }
  let d :=
    match x.2 with
    | .focInit probe velocity shaft now =>
        (focInitConfigured A cfg d.foc ⟨probe.val, now, velocity.val, shaft.val⟩).2.1
    | .focMove target shaft now => ⟨cfg, (focMove A cfg d.foc target ⟨now, shaft.val⟩).2.1⟩
  (d, d.foc.shaftAngle)

/-- A move of angle control reaches an angle in the range; any other call may do as it likes. -/
def ReachesInRange : MotionControlType × DriverCall → Prop
  | (.velocityOpenloopAngle, .focMove target shaft _) => InRange (shaft.val + 0.1 * target)
  | _ => True

variable (atan2 : ℚ → ℚ → ℚ) (sqrt : ℚ → ℚ)

theorem SensorAngle.inRange (a : SensorAngle) : InRange a.val := ⟨a.mem.1, a.mem.2.le⟩

/-- `FOCInit` leaves the angle alone, or copies a sensor angle. -/
theorem focInitConfigured_shaftAngle (A : FloatModel) (cfg : FOCConfig) (foc : FOC)
    (r : InitReadings) :
    (focInitConfigured A cfg foc r).2.1.foc.shaftAngle = foc.shaftAngle
      ∨ (focInitConfigured A cfg foc r).2.1.foc.shaftAngle = r.shaftAngle := by
  rw [focInitConfigured]
  dsimp only
  split_ifs
  · exact .inl rfl
  · exact .inr rfl

/-- Open-loop velocity control reduces what it integrates. -/
theorem inRange_shaftTargetAngle (foc : FOC) (target : ℚ) (timePrev nowUs : UInt64) :
    InRange (shaftTargetAngle (.exact atan2 sqrt) foc target timePrev nowUs).angle := by
  rw [shaftTargetAngle, normalizeAngle_exact]
  have h := toIcoMod_mem_Ico' twoPi_pos (foc.shaftAngle + (FloatModel.exact atan2 sqrt).store target
    * timeStep (.exact atan2 sqrt) timePrev nowUs)
  exact ⟨h.1, h.2.le⟩

/-- **One call keeps the range exactly when a move of angle control reaches an angle in it.** -/
theorem inRange_driverCall_iff {d : Driver} (h : InRange d.foc.shaftAngle)
    (x : MotionControlType × DriverCall) :
    InRange (driverCall (.exact atan2 sqrt) d x).2 ↔ ReachesInRange x := by
  obtain ⟨mode, ⟨probe, velocity, shaft, now⟩ | ⟨target, shaft, now⟩⟩ := x
  · have hinit : InRange (driverCall (.exact atan2 sqrt) d
        (mode, .focInit probe velocity shaft now)).2 := by
      obtain hkeep | hcopy := focInitConfigured_shaftAngle (.exact atan2 sqrt)
        { d.cfg with controller := mode } d.foc ⟨probe.val, now, velocity.val, shaft.val⟩
      · rw [driverCall]
        dsimp only
        rwa [hkeep]
      · rw [driverCall]
        dsimp only
        rw [hcopy]
        exact shaft.inRange
    have hreach : ReachesInRange (mode, .focInit probe velocity shaft now) := by
      cases mode <;> trivial
    exact iff_of_true hinit hreach
  · cases mode with
    | torque => exact iff_of_true h trivial
    | velocity => exact iff_of_true h trivial
    | angle => exact iff_of_true h trivial
    | velocityOpenloop =>
      have hreduced := inRange_shaftTargetAngle atan2 sqrt d.foc target d.foc.timePrev now
      exact iff_of_true hreduced trivial
    | velocityOpenloopAngle =>
      rw [ReachesInRange, mul_comm]
      rfl

/-- **When a run keeps the shaft angle in its range**: exactly when every move of angle control
reaches an angle in it. -/
theorem shaftAngle_range_iff (d : Driver) (h : InRange d.foc.shaftAngle)
    (xs : List (MotionControlType × DriverCall)) :
    (∀ angle ∈ (run (driverCall (.exact atan2 sqrt)) d xs).2, InRange angle)
      ↔ ∀ x ∈ xs, ReachesInRange x := by
  rw [← forall₂_run_iff_forall_mem,
    ← allCalls_iff_forall_mem (driverCall (.exact atan2 sqrt)) ReachesInRange d]
  refine run_forall₂_iff (fun d => InRange d.foc.shaftAngle) (fun _ => ReachesInRange) _
    (fun d x hd => ⟨inRange_driverCall_iff atan2 sqrt hd x, fun hx => ?_⟩) h xs
  exact (inRange_driverCall_iff atan2 sqrt hd x).mpr hx

/-- A sensor at zero. -/
def SensorAngle.zero : SensorAngle := ⟨0, by norm_num [twoPi]⟩

/-- Two calls that keep it: an initialisation, and a move to a tenth of a radian past the sensor. -/
theorem shaftAngle_range_two :
    let xs : List (MotionControlType × DriverCall) :=
      [(.torque, .focInit .zero .zero .zero 0), (.velocityOpenloopAngle, .focMove 1 .zero 1)]
    (∀ angle ∈ (run (driverCall (.exact (fun _ _ => 0) id))
        ⟨⟨.torque, 12, 6, 2, 7, 0⟩, default⟩ xs).2, InRange angle)
      ↔ ∀ x ∈ xs, ReachesInRange x :=
  shaftAngle_range_iff (fun _ _ => 0) id ⟨⟨.torque, 12, 6, 2, 7, 0⟩, default⟩
    (by decide +kernel) _

/-- **One move to a target of a thousand** leaves a shaft angle of a hundred. -/
theorem shaftAngle_hundred :
    let angles := (run (driverCall (.exact (fun _ _ => 0) id))
      ⟨⟨.torque, 12, 6, 2, 7, 0⟩, default⟩
      [(.velocityOpenloopAngle, .focMove 1000 .zero 0)]).2
    angles = [100] ∧ ¬ ∀ angle ∈ angles, InRange angle := by
  decide +kernel

end Foc

end EmbeddedMCU

import EmbeddedMCU.Machinery.Approach
import EmbeddedMCU.Machinery.Run
import EmbeddedMCU.SimpleFoc.Commutation

/-!
# SimpleFoc/Positioning — open-loop positioning, over runs

A call of `angleOpenloop` moves the shaft angle towards the target by at most what the limited speed
allows in its time step (`angleOpenloop_shaftAngle`).  Two such moves are one, so a run of them is
one move by what the speed allows in the time of the run (`run_shaftAngle`): nothing is passed, and
what is reached is kept.
-/

namespace EmbeddedMCU

open FocUtils

namespace BLDCMotor

variable (atan2 : ℚ → ℚ → ℚ) (sqrt : ℚ → ℚ)

/-! ## The time of a call -/

/-- A step the clock code computes is never negative. -/
theorem timeStep_nonneg (openLoopTimestamp nowUs : UInt32) :
    0 ≤ timeStep (.exact atan2 sqrt) openLoopTimestamp nowUs := by
  have hticks : ∀ n : ℕ, 0 ≤ quickFix (.exact atan2 sqrt) ((n : ℚ) / 9 * 1e-6) := by
    intro n
    rw [quickFix]
    split_ifs
    · exact (by norm_num : (0 : ℚ) ≤ 1e-3)
    · positivity
  rw [timeStep]
  split_ifs
  · exact hticks _
  · exact hticks _

/-- The time a call of `move` stands for, none in a mode that makes no call. -/
def elapsed (call : Option Call) : ℚ := call.elim 0 Call.Ts

/-! ## One call -/

/-- The step of `angleOpenloop`: the test, the sign and the snap to the target are one move. -/
theorem sign_step_eq_approach {t a d : ℚ} (hd : 0 ≤ d) :
    (if |t - a| > d then a + sign (t - a) * d else t) = approach t a d := by
  obtain h | h := le_total a t
  · rw [abs_of_nonneg (sub_nonneg.mpr h), approach_of_le h]
    split_ifs with hfar
    · rw [sign, if_neg (by linarith), if_pos (by linarith), one_mul, min_eq_right (by linarith)]
    · rw [min_eq_left (by linarith)]
  · rw [abs_of_nonpos (sub_nonpos.mpr h), approach_of_ge hd h]
    split_ifs with hfar
    · rw [sign, if_pos (by linarith), neg_one_mul, ← sub_eq_add_neg, max_eq_right (by linarith)]
    · rw [max_eq_left (by linarith)]

/-- **A call moves the shaft angle towards the target**, by at most what the limited speed allows in
its time step. -/
theorem angleOpenloop_shaftAngle {m : Motor} (hlimit : 0 ≤ m.velocityLimit) (target : ℚ)
    (nowUs : UInt32) :
    (angleOpenloop (.exact atan2 sqrt) m target nowUs).1.shaftAngle
      = approach target m.shaftAngle
          (m.velocityLimit * (angleOpenloop (.exact atan2 sqrt) m target nowUs).2.Ts) := by
  have hTs := timeStep_nonneg atan2 sqrt m.openLoopTimestamp nowUs
  have hcall : (angleOpenloop (.exact atan2 sqrt) m target nowUs).2.Ts
      = timeStep (.exact atan2 sqrt) m.openLoopTimestamp nowUs := rfl
  rw [hcall, ← sign_step_eq_approach (mul_nonneg hlimit hTs), ← mul_assoc, angleOpenloop]
  exact apply_ite Motor.shaftAngle _ _ _

/-- …and leaves the other globals of positioning alone. -/
structure KeepsSettings (m m' : Motor) : Prop where
  controller : m'.controller = m.controller
  velocityLimit : m'.velocityLimit = m.velocityLimit
  voltage : SameSettings m m'

theorem KeepsSettings.trans {m m' m'' : Motor} (h : KeepsSettings m m')
    (h' : KeepsSettings m' m'') : KeepsSettings m m'' where
  controller := h'.controller.trans h.controller
  velocityLimit := h'.velocityLimit.trans h.velocityLimit
  voltage := ⟨h'.voltage.1.trans h.voltage.1, h'.voltage.2.1.trans h.voltage.2.1,
    h'.voltage.2.2.trans h.voltage.2.2⟩

/-- A call of `move` to a target. -/
def moveTo (A : FloatModel) (target : ℚ) (m : Motor) (nowUs : UInt32) : Motor × Option Call :=
  move A m target nowUs

section Call

variable {m : Motor} (hmode : m.controller = .angleOpenloop) (target : ℚ) (nowUs : UInt32)

include hmode

/-- **What a call of `move` does in the mode for positioning.** -/
theorem moveTo_angleOpenloop (A : FloatModel) :
    moveTo A target m nowUs
      = let r := angleOpenloop A { m with shaftAngleSp := A.store target } (A.store target) nowUs
        ({ r.1 with voltageQ := r.2.Uq, voltageD := 0 }, some r.2) := by
  rw [moveTo, move, hmode]

theorem moveTo_shaftAngle (hlimit : 0 ≤ m.velocityLimit) :
    (moveTo (.exact atan2 sqrt) target m nowUs).1.shaftAngle
      = approach target m.shaftAngle
          (m.velocityLimit * elapsed (moveTo (.exact atan2 sqrt) target m nowUs).2) := by
  rw [moveTo_angleOpenloop hmode]
  exact angleOpenloop_shaftAngle atan2 sqrt (m := { m with shaftAngleSp := target }) hlimit target
    nowUs

theorem moveTo_keepsSettings (A : FloatModel) :
    KeepsSettings m (moveTo A target m nowUs).1 := by
  rw [moveTo_angleOpenloop hmode]
  simp only [angleOpenloop]
  split_ifs
  · exact ⟨rfl, rfl, rfl, rfl, rfl⟩
  · exact ⟨rfl, rfl, rfl, rfl, rfl⟩

theorem moveTo_output :
    (moveTo (.exact atan2 sqrt) target m nowUs).2.map Call.output
      = some (setPhaseVoltage (.exact atan2 sqrt) m m.voltageLimit 0
          ((moveTo (.exact atan2 sqrt) target m nowUs).1.shaftAngle * m.polePairs)) := by
  rw [moveTo_angleOpenloop hmode]
  simp only [angleOpenloop]
  split_ifs
  · rfl
  · rfl

/-- The time of a call is the clock code's, for the stored reading and its own, which is stored. -/
theorem moveTo_timestamp (A : FloatModel) :
    (moveTo A target m nowUs).1.openLoopTimestamp = nowUs
      ∧ elapsed (moveTo A target m nowUs).2 = timeStep A m.openLoopTimestamp nowUs := by
  rw [moveTo_angleOpenloop hmode]
  simp only [angleOpenloop]
  split_ifs
  · exact ⟨rfl, rfl⟩
  · exact ⟨rfl, rfl⟩

end Call

theorem elapsed_moveTo_nonneg (target : ℚ) (m : Motor) (nowUs : UInt32) :
    0 ≤ elapsed (moveTo (.exact atan2 sqrt) target m nowUs).2 := by
  rw [moveTo, move]
  split
  · exact timeStep_nonneg atan2 sqrt _ _
  · exact timeStep_nonneg atan2 sqrt _ _
  · exact le_rfl

/-! ## Runs -/

/-- No run takes a negative time. -/
theorem sum_elapsed_nonneg (target : ℚ) (m : Motor) (xs : List UInt32) :
    0 ≤ ((run (moveTo (.exact atan2 sqrt) target) m xs).2.map elapsed).sum := by
  have hcalls : ∀ call ∈ (run (moveTo (.exact atan2 sqrt) target) m xs).2, 0 ≤ elapsed call :=
    (run_invariant (fun _ => True) (fun call => 0 ≤ elapsed call) (fun _ => True)
      (fun m nowUs _ _ => ⟨trivial, elapsed_moveTo_nonneg atan2 sqrt target m nowUs⟩)
      trivial fun _ _ => trivial).2
  refine List.sum_nonneg fun Ts hTs => ?_
  obtain ⟨call, hcall, rfl⟩ := List.mem_map.mp hTs
  exact hcalls call hcall

section Run

variable {m : Motor} (hmode : m.controller = .angleOpenloop) (target : ℚ)

include hmode

theorem run_keepsSettings (A : FloatModel) (xs : List UInt32) :
    KeepsSettings m (run (moveTo A target) m xs).1 :=
  (run_invariant (KeepsSettings m) (fun _ => True) (fun _ => True)
    (fun _ nowUs hs _ =>
      ⟨hs.trans (moveTo_keepsSettings (hs.controller.trans hmode) target nowUs A), trivial⟩)
    ⟨rfl, rfl, rfl, rfl, rfl⟩ (fun _ _ => trivial)).1

/-- **The times of a run are the clock code's**, for successive readings. -/
theorem run_elapsed (A : FloatModel) (xs : List UInt32) :
    (run (moveTo A target) m xs).2.map elapsed
      = List.zipWith (timeStep A) (m.openLoopTimestamp :: xs) xs := by
  have h := run_stamps (fun m' => m'.controller = .angleOpenloop) Motor.openLoopTimestamp id elapsed
    (timeStep A) (fun m' nowUs hmode' =>
      ⟨(moveTo_keepsSettings hmode' target nowUs A).controller.trans hmode',
        moveTo_timestamp hmode' target nowUs A⟩) hmode xs
  rwa [List.map_id] at h

/-- **A run is one move**, by what the speed allows in the time of the run. -/
theorem run_shaftAngle (hlimit : 0 ≤ m.velocityLimit) (xs : List UInt32) :
    (run (moveTo (.exact atan2 sqrt) target) m xs).1.shaftAngle
      = approach target m.shaftAngle (m.velocityLimit
          * ((run (moveTo (.exact atan2 sqrt) target) m xs).2.map elapsed).sum) := by
  induction xs generalizing m with
  | nil => simp [approach_zero]
  | cons nowUs xs ih =>
    have hkeeps := moveTo_keepsSettings hmode target nowUs (.exact atan2 sqrt)
    have hcall := elapsed_moveTo_nonneg atan2 sqrt target m nowUs
    have hrest := sum_elapsed_nonneg atan2 sqrt target
      (moveTo (.exact atan2 sqrt) target m nowUs).1 xs
    rw [run_cons_fst, run_cons_snd, ih (hkeeps.controller.trans hmode)
        (hkeeps.velocityLimit.symm ▸ hlimit),
      moveTo_shaftAngle atan2 sqrt hmode target nowUs hlimit, hkeeps.velocityLimit,
      approach_approach (mul_nonneg hlimit hcall) (mul_nonneg hlimit hrest), List.map_cons,
      List.sum_cons, mul_add]

end Run

/-- **Open-loop positioning approaches its target at the limited speed, never passes it and stays
there**: the distance shrinks by what the speed allows in the time of the run, the side of the
target is kept to the end, and so is the target once it is reached.  The time of each call is the
clock code's, for the reading the call before it stored and its own; and each call drives the phases
at the angle it leaves. -/
theorem positioning (m : Motor) (hmode : m.controller = .angleOpenloop)
    (hlimit : 0 ≤ m.velocityLimit) (target : ℚ) (xs : List UInt32) :
    let r := run (moveTo (.exact atan2 sqrt) target) m xs
    |target - r.1.shaftAngle|
        = max 0 (|target - m.shaftAngle| - m.velocityLimit * (r.2.map elapsed).sum)
      ∧ (∀ ys, let r' := run (moveTo (.exact atan2 sqrt) target) m (xs ++ ys)
          (0 ≤ target - r.1.shaftAngle → 0 ≤ target - r'.1.shaftAngle)
            ∧ (target - r.1.shaftAngle ≤ 0 → target - r'.1.shaftAngle ≤ 0)
            ∧ (r.1.shaftAngle = target → r'.1.shaftAngle = target))
      ∧ r.2.map elapsed
        = List.zipWith (timeStep (.exact atan2 sqrt)) (m.openLoopTimestamp :: xs) xs
      ∧ ∀ nowUs, let r' := run (moveTo (.exact atan2 sqrt) target) m (xs ++ [nowUs])
          r'.1.openLoopTimestamp = nowUs ∧ r'.2.getLast?.map (Option.map Call.output)
            = some (some (setPhaseVoltage (.exact atan2 sqrt) m m.voltageLimit 0
                (r'.1.shaftAngle * m.polePairs))) := by
  intro r
  have hkeeps := run_keepsSettings hmode target (.exact atan2 sqrt) xs
  have hmode' := hkeeps.controller.trans hmode
  refine ⟨?_, ?_, run_elapsed hmode target _ xs, ?_⟩
  · have hangle : r.1.shaftAngle = _ := run_shaftAngle atan2 sqrt hmode target hlimit xs
    rw [hangle]
    exact abs_sub_approach (mul_nonneg hlimit (sum_elapsed_nonneg atan2 sqrt target m xs))
  · intro ys r'
    have hlimit' : 0 ≤ r.1.velocityLimit := hkeeps.velocityLimit.symm ▸ hlimit
    have hd := mul_nonneg hlimit' (sum_elapsed_nonneg atan2 sqrt target r.1 ys)
    have hsplit : r' = _ := run_append _ m xs ys
    rw [hsplit, run_shaftAngle atan2 sqrt hmode' target hlimit' ys]
    refine ⟨fun h => ?_, fun h => ?_, fun h => ?_⟩
    · exact sub_nonneg.mpr (approach_le (sub_nonneg.mp h))
    · exact sub_nonpos.mpr (le_approach hd (sub_nonpos.mp h))
    · rw [h]
      exact approach_self hd
  · intro nowUs r'
    have hlast : r' = _ := run_concat _ m xs nowUs
    rw [hlast]
    refine ⟨(moveTo_timestamp hmode' target nowUs _).1, ?_⟩
    rw [List.getLast?_concat, Option.map_some, moveTo_output atan2 sqrt hmode',
      setPhaseVoltage_of_sameSettings atan2 sqrt hkeeps.voltage, hkeeps.voltage.2.1,
      hkeeps.voltage.2.2]

/-- A motor of seven pole pairs on twelve volts, to be positioned at one radian a second. -/
def poweredMotor : Motor :=
  { (default : Motor) with
    controller := .angleOpenloop
    voltagePowerSupply := 12
    voltageLimit := 6
    polePairs := 7
    openLoopTimestamp := 9000000
    velocityLimit := 1 }

/-- From zero towards one and a quarter: two calls half a second apart, and a third, across a reload
of the counter, that reaches the target. -/
theorem positioning_one :
    let A : FloatModel := .exact (fun _ _ => 0) id
    let r := run (moveTo A 1.25) poweredMotor [4500000, 0]
    let r' := run (moveTo A 1.25) poweredMotor [4500000, 0, 12277215]
    |1.25 - r.1.shaftAngle| = max 0 (|1.25 - 0| - 1 * (r.2.map elapsed).sum)
      ∧ ((0 ≤ 1.25 - r.1.shaftAngle → 0 ≤ 1.25 - r'.1.shaftAngle)
        ∧ (1.25 - r.1.shaftAngle ≤ 0 → 1.25 - r'.1.shaftAngle ≤ 0)
        ∧ (r.1.shaftAngle = 1.25 → r'.1.shaftAngle = 1.25))
      ∧ r.2.map elapsed = [0.5, 0.5]
      ∧ (r'.1.openLoopTimestamp = 12277215
        ∧ r'.2.getLast?.map (Option.map Call.output)
          = some (some (setPhaseVoltage A poweredMotor 6 0 (r'.1.shaftAngle * 7))))
      ∧ r.1.shaftAngle = 1 ∧ r'.1.shaftAngle = 1.25 := by
  obtain ⟨hdist, hside, htimes, hcall⟩ :=
    positioning (fun _ _ => 0) id poweredMotor rfl zero_le_one 1.25 [4500000, 0]
  exact ⟨hdist, hside [12277215], htimes.trans (by decide +kernel), hcall 12277215,
    by decide +kernel⟩

end BLDCMotor

end EmbeddedMCU

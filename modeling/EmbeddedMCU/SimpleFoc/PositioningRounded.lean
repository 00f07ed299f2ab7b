import EmbeddedMCU.SimpleFoc.Positioning

/-!
# SimpleFoc/PositioningRounded — open-loop positioning in `float`

    shaft angle ──v·Ts──▸ · ──store──▸ shaft angle'        half a unit is lost, at most

The stored shaft angle and the stored target are binary32 numbers, so a rounded move stays between
them.  What a store may take is half a unit in the last place of the larger of the two, so a run
gets nearer by all of its moves, less half a unit a call (`positioning_binary32`).
-/

namespace EmbeddedMCU

open FocUtils

namespace BLDCMotor

variable (atan2 : ℚ → ℚ → ℚ) (sqrt : ℚ → ℚ)

/-! ## One call -/

/-- A store is a rounding onto the binary32 numbers. -/
theorem rounding_binary32 : Rounding Binary32.Representable Binary32.round :=
  ⟨Binary32.representable_round, Binary32.round_le_of_le, Binary32.le_round_of_le⟩

theorem quickFix_binary32_nonneg {Ts : ℚ} (h : 0 ≤ Ts) :
    0 ≤ quickFix (.binary32 atan2 sqrt) Ts := by
  rw [quickFix]
  split_ifs
  · exact Binary32.round_nonneg (by norm_num)
  · exact h

/-- A step the clock code computes is never negative, rounded or not. -/
theorem timeStep_binary32_nonneg (openLoopTimestamp nowUs : UInt32) :
    0 ≤ timeStep (.binary32 atan2 sqrt) openLoopTimestamp nowUs := by
  have hticks : ∀ n : ℕ, 0 ≤ (FloatModel.binary32 atan2 sqrt).store
      ((FloatModel.binary32 atan2 sqrt).store (n : ℚ) / 9 * 1e-6) := by
    intro n
    rw [FloatModel.binary32_store, FloatModel.binary32_store]
    have hn : 0 ≤ Binary32.round (n : ℚ) := Binary32.round_nonneg n.cast_nonneg
    exact Binary32.round_nonneg (by positivity)
  refine quickFix_binary32_nonneg atan2 sqrt ?_
  split_ifs
  · exact hticks _
  · exact hticks _

/-- The step of `angleOpenloop`, rounded: the test, the sign and the snap are one move. -/
theorem sign_step_eq_approachRounded (rnd : ℚ → ℚ) {t a d : ℚ} (hd : 0 ≤ d) :
    (if |t - a| > d then rnd (a + sign (t - a) * d) else t) = approachRounded rnd t a d := by
  rw [approachRounded]
  by_cases hfar : |t - a| > d
  · rw [if_pos hfar, if_pos hfar]
    obtain h | rfl | h := lt_trichotomy a t
    · rw [if_pos h, sign, if_neg (by linarith), if_pos (by linarith), one_mul]
    · simp only [sub_self, abs_zero] at hfar
      linarith
    · rw [if_neg (by linarith), sign, if_pos (by linarith), neg_one_mul, ← sub_eq_add_neg]
  · rw [if_neg hfar, if_neg hfar]

section Call

variable {m : Motor} (hmode : m.controller = .angleOpenloop) (target : ℚ) (nowUs : UInt32)

include hmode

/-- The time of a call, as the clock code computes it. -/
theorem elapsed_moveTo_binary32_nonneg :
    0 ≤ elapsed (moveTo (.binary32 atan2 sqrt) target m nowUs).2 := by
  rw [moveTo_angleOpenloop hmode]
  exact timeStep_binary32_nonneg atan2 sqrt _ _

/-- **A call is a rounded move** towards the stored target, by what the limited speed allows. -/
theorem moveTo_binary32_shaftAngle (hlimit : 0 ≤ m.velocityLimit) :
    (moveTo (.binary32 atan2 sqrt) target m nowUs).1.shaftAngle
      = approachRounded Binary32.round (Binary32.round target) m.shaftAngle
          (m.velocityLimit * elapsed (moveTo (.binary32 atan2 sqrt) target m nowUs).2) := by
  have hTs := elapsed_moveTo_binary32_nonneg atan2 sqrt hmode target nowUs
  rw [← sign_step_eq_approachRounded _ (mul_nonneg hlimit hTs), ← mul_assoc,
    moveTo_angleOpenloop hmode]
  simp only [angleOpenloop, FloatModel.binary32_store, Binary32.round_round]
  exact apply_ite Motor.shaftAngle _ _ _

/-- What a call emits: the phases at the electrical angle it leaves. -/
theorem moveTo_binary32_output :
    (moveTo (.binary32 atan2 sqrt) target m nowUs).2.map Call.output
      = some (setPhaseVoltage (.binary32 atan2 sqrt) m m.voltageLimit 0
          (electricalAngle (.binary32 atan2 sqrt)
            (moveTo (.binary32 atan2 sqrt) target m nowUs).1.shaftAngle m.polePairs)) := by
  rw [moveTo_angleOpenloop hmode]
  simp only [angleOpenloop]
  split_ifs
  · rfl
  · rfl

end Call

/-! ## Runs -/

/-- The state of a positioning run: the settings of the start, at a binary32 shaft angle. -/
structure OnTheWay (m : Motor) (t : ℚ) (m' : Motor) : Prop where
  keeps : KeepsSettings m m'
  representable : Binary32.Representable m'.shaftAngle
  between : Between m.shaftAngle t m'.shaftAngle

/-- What a store can take from a move between `a` and `t`. -/
theorem abs_round_sub_le_of_between {a t x δ : ℚ}
    (hδ : (2 : ℚ) ^ Binary32.exponent (max |a| |t|) ≤ δ) (h : Between a t x) :
    |Binary32.round x - x| ≤ δ / 2 := by
  obtain rfl | hx := eq_or_ne x 0
  · have := Binary32.two_zpow_pos (Binary32.exponent (max |a| |t|))
    rw [Binary32.round_zero, sub_zero, abs_zero]
    linarith
  · have hmax : |x| ≤ abs (max |a| |t|) := h.abs_le.trans (le_abs_self _)
    have hunit : (2 : ℚ) ^ Binary32.exponent x ≤ 2 ^ Binary32.exponent (max |a| |t|) :=
      zpow_le_zpow_right₀ one_le_two (Binary32.exponent_mono hx hmax)
    have := Binary32.abs_round_sub_le x
    linarith

section Run

variable {m : Motor} (hmode : m.controller = .angleOpenloop) (hlimit : 0 ≤ m.velocityLimit)
  (hangle : Binary32.Representable m.shaftAngle) (target : ℚ)

include hmode hlimit

/-- **A call goes on**: it neither passes the target nor turns back. -/
theorem moveTo_onTheWay {m' : Motor} (h : OnTheWay m (Binary32.round target) m')
    (nowUs : UInt32) :
    OnTheWay m (Binary32.round target) (moveTo (.binary32 atan2 sqrt) target m' nowUs).1 := by
  have hmode' := h.keeps.controller.trans hmode
  have hlimit' : 0 ≤ m'.velocityLimit := h.keeps.velocityLimit.symm ▸ hlimit
  have ht := Binary32.representable_round target
  have hd := mul_nonneg hlimit' (elapsed_moveTo_binary32_nonneg atan2 sqrt hmode' target nowUs)
  have hmove := moveTo_binary32_shaftAngle atan2 sqrt hmode' target nowUs hlimit'
  refine ⟨h.keeps.trans (moveTo_keepsSettings hmode' target nowUs _), ?_, ?_⟩
  · rw [hmove]
    exact grid_approachRounded rounding_binary32 ht
  · rw [hmove]
    exact h.between.trans (between_approachRounded rounding_binary32 h.representable ht hd)

include hangle

/-- …so a run does not either. -/
theorem run_onTheWay (xs : List UInt32) :
    OnTheWay m (Binary32.round target) (run (moveTo (.binary32 atan2 sqrt) target) m xs).1 :=
  (run_invariant (OnTheWay m (Binary32.round target)) (fun _ => True) (fun _ => True)
    (fun _ nowUs hs _ => ⟨moveTo_onTheWay atan2 sqrt hmode hlimit target hs nowUs, trivial⟩)
    ⟨⟨rfl, rfl, rfl, rfl, rfl⟩, hangle, between_left⟩ (fun _ _ => trivial)).1

/-- **A run gets nearer by all of its moves**, less half a unit in the last place a call. -/
theorem abs_sub_run_le (xs : List UInt32) :
    |Binary32.round target - (run (moveTo (.binary32 atan2 sqrt) target) m xs).1.shaftAngle|
      ≤ max 0 (|Binary32.round target - m.shaftAngle|
        - (m.velocityLimit * ((run (moveTo (.binary32 atan2 sqrt) target) m xs).2.map elapsed).sum
          - xs.length
            * (2 ^ Binary32.exponent (max |m.shaftAngle| |Binary32.round target|) / 2))) := by
  induction xs using List.reverseRecOn with
  | nil => simp
  | append_singleton xs nowUs ih =>
    rw [run_concat]
    have hway := run_onTheWay atan2 sqrt hmode hlimit hangle target xs
    have hmode' := hway.keeps.controller.trans hmode
    have hlimit' : 0 ≤ (run (moveTo (.binary32 atan2 sqrt) target) m xs).1.velocityLimit :=
      hway.keeps.velocityLimit.symm ▸ hlimit
    have hd := mul_nonneg hlimit'
      (elapsed_moveTo_binary32_nonneg atan2 sqrt hmode' target nowUs)
    have hnearer := (between_approachRounded rounding_binary32 hway.representable
      (Binary32.representable_round target) hd).abs_sub_le
    have hstep := abs_sub_approachRounded_le hd fun x hx =>
      abs_round_sub_le_of_between le_rfl (hway.between.trans hx)
    rw [← moveTo_binary32_shaftAngle atan2 sqrt hmode' target nowUs hlimit'] at hnearer hstep
    rw [hway.keeps.velocityLimit] at hstep
    obtain hthere | hfar := le_max_iff.mp ih
    · exact (hnearer.trans hthere).trans (le_max_left _ _)
    · refine hstep.trans (max_le_max_left 0 ?_)
      rw [List.map_append, List.sum_append, List.map_singleton, List.sum_singleton, mul_add,
        List.length_append, List.length_singleton, Nat.cast_add, Nat.cast_one, add_mul]
      linarith

end Run

/-- Moves of a unit each add up to as many units. -/
theorem length_mul_le_of_moves {v u : ℚ} {calls : List (Option Call)}
    (h : ∀ call ∈ calls, u ≤ v * elapsed call) :
    calls.length * u ≤ v * (calls.map elapsed).sum := by
  induction calls with
  | nil => simp
  | cons call calls ih =>
    obtain ⟨hcall, hrest⟩ := List.forall_mem_cons.mp h
    have := ih hrest
    rw [List.length_cons, List.map_cons, List.sum_cons, Nat.cast_add, Nat.cast_one]
    linarith

/-- **Rounded open-loop positioning neither passes its target nor turns back**, at any call of any
run, and gets there: nearer by all of its moves, less half a unit in the last place of the larger of
the two angles a call, and so by half of its moves when each is a unit or more.  The time of each
call is the clock code's, for the reading the call before it stored and its own; and each call
drives the phases at the angle it leaves. -/
theorem positioning_binary32 (m : Motor) (hmode : m.controller = .angleOpenloop)
    (hlimit : 0 ≤ m.velocityLimit) (hangle : Binary32.Representable m.shaftAngle) (target : ℚ)
    (xs : List UInt32) :
    let t := Binary32.round target
    let u : ℚ := 2 ^ Binary32.exponent (max |m.shaftAngle| |t|)
    let r := run (moveTo (.binary32 atan2 sqrt) target) m xs
    (∀ ys, Between r.1.shaftAngle t
        (run (moveTo (.binary32 atan2 sqrt) target) m (xs ++ ys)).1.shaftAngle)
      ∧ |t - r.1.shaftAngle| ≤ max 0 (|t - m.shaftAngle|
          - (m.velocityLimit * (r.2.map elapsed).sum - xs.length * (u / 2)))
      ∧ ((∀ call ∈ r.2, u ≤ m.velocityLimit * elapsed call) →
          |t - r.1.shaftAngle|
            ≤ max 0 (|t - m.shaftAngle| - m.velocityLimit * (r.2.map elapsed).sum / 2))
      ∧ r.2.map elapsed
        = List.zipWith (timeStep (.binary32 atan2 sqrt)) (m.openLoopTimestamp :: xs) xs
      ∧ ∀ nowUs, let r' := run (moveTo (.binary32 atan2 sqrt) target) m (xs ++ [nowUs])
          r'.1.openLoopTimestamp = nowUs ∧ r'.2.getLast?.map (Option.map Call.output)
            = some (some (setPhaseVoltage (.binary32 atan2 sqrt) m m.voltageLimit 0
                (electricalAngle (.binary32 atan2 sqrt) r'.1.shaftAngle m.polePairs))) := by
  intro t u r
  have hway := run_onTheWay atan2 sqrt hmode hlimit hangle target xs
  have hmode' := hway.keeps.controller.trans hmode
  have hnearer : |t - r.1.shaftAngle| ≤ max 0 (|t - m.shaftAngle|
      - (m.velocityLimit * (r.2.map elapsed).sum - xs.length * (u / 2))) :=
    abs_sub_run_le atan2 sqrt hmode hlimit hangle target xs
  refine ⟨fun ys => ?_, hnearer, fun hmoves => ?_, run_elapsed hmode target _ xs, fun nowUs => ?_⟩
  · have hlimit' : 0 ≤ r.1.velocityLimit := hway.keeps.velocityLimit.symm ▸ hlimit
    rw [run_append]
    exact (run_onTheWay atan2 sqrt hmode' hlimit' hway.representable target ys).between
  · refine hnearer.trans (max_le_max_left 0 ?_)
    have hunits := length_mul_le_of_moves hmoves
    rw [length_run] at hunits
    linarith
  · intro r'
    have hlast : r' = _ := run_concat _ m xs nowUs
    rw [hlast]
    refine ⟨(moveTo_timestamp hmode' target nowUs _).1, ?_⟩
    rw [List.getLast?_concat, Option.map_some, moveTo_binary32_output atan2 sqrt hmode',
      hway.keeps.voltage.2.1, hway.keeps.voltage.2.2]
    simp only [setPhaseVoltage, hway.keeps.voltage.1]

/-- The same motor from zero towards `1.1`, which is no float: two calls half a second apart, and a
third across a reload of the counter. -/
theorem positioning_binary32_one :
    let A : FloatModel := .binary32 (fun _ _ => 0) id
    let t := Binary32.round 1.1
    let u : ℚ := 2 ^ Binary32.exponent (max |0| |t|)
    let r := run (moveTo A 1.1) poweredMotor [4500000, 0]
    let r' := run (moveTo A 1.1) poweredMotor [4500000, 0, 12277215]
    Between r.1.shaftAngle t r'.1.shaftAngle
      ∧ |t - r.1.shaftAngle| ≤ max 0 (|t - 0| - (1 * (r.2.map elapsed).sum - (2 : ℕ) * (u / 2)))
      ∧ |t - r.1.shaftAngle| ≤ max 0 (|t - 0| - 1 * (r.2.map elapsed).sum / 2)
      ∧ r.2.map elapsed = List.zipWith (timeStep A) [9000000, 4500000, 0] [4500000, 0]
      ∧ (r'.1.openLoopTimestamp = 12277215
        ∧ r'.2.getLast?.map (Option.map Call.output)
          = some (some (setPhaseVoltage A poweredMotor 6 0
              (electricalAngle A r'.1.shaftAngle 7))))
      ∧ r.1.shaftAngle < t ∧ r'.1.shaftAngle = t := by
  obtain ⟨hway, hnearer, hhalf, htimes, hcall⟩ := positioning_binary32 (fun _ _ => 0) id
    poweredMotor rfl zero_le_one Binary32.representable_zero 1.1 [4500000, 0]
  exact ⟨hway [12277215], hnearer, hhalf (by decide +kernel), htimes, hcall 12277215,
    by decide +kernel⟩

end BLDCMotor

end EmbeddedMCU

import EmbeddedMCU.Machinery.Counter
import EmbeddedMCU.Machinery.Run
import EmbeddedMCU.SimpleFoc.Foc
import EmbeddedMCU.SimpleFoc.BLDCMotor

/-!
# SimpleFoc/TimeStep — the time steps of a run, against the clock that drives it

Both drivers subtract two readings of a free-running counter and have a branch for the reading that
went past the reload.  That branch adds `0xFFFFFF`, respectively `0xFFFFFFFF`, where the period is
one more: `timeStep_sysTick` and `timeStep_micros` say a step is exact precisely when the counter
was not reloaded in between, and `timeSteps_exact_iff` carries it to runs.
-/

namespace EmbeddedMCU

open FocUtils

variable (atan2 : ℚ → ℚ → ℚ) (sqrt : ℚ → ℚ)

/-! ## The quick fix

`k` ticks of `u` seconds each, at most half a second together. -/

section QuickFix

variable {u : ℚ} {k : ℕ}

theorem quickFix_ticks (hu : 0 < u) (hk : 1 ≤ k) (hle : k * u ≤ 0.5) :
    quickFix (.exact atan2 sqrt) (k * u) = k * u := by
  have hpos : 0 < k * u := mul_pos (by exact_mod_cast hk) hu
  rw [quickFix, if_neg]
  rintro (h | h)
  · exact hpos.ne' h
  · exact absurd h (not_lt.mpr hle)

/-- **A step that lost a tick stays wrong**: the quick fix turns none at all into a millisecond,
and keeps the others. -/
theorem quickFix_short (hu : 0 < u) (hms : u ≠ 1e-3) (hk : 1 ≤ k) (hle : k * u ≤ 0.5) :
    quickFix (.exact atan2 sqrt) ((k - 1 : ℕ) * u) ≠ k * u := by
  obtain ⟨j, rfl⟩ := Nat.exists_eq_add_of_le' hk
  rw [Nat.add_sub_cancel]
  obtain rfl | hj := Nat.eq_zero_or_pos j
  · rw [quickFix, if_pos (.inl (by simp))]
    simpa using hms.symm
  · have hlt : (j : ℚ) * u < (j + 1 : ℕ) * u := by
      push_cast
      linarith
    rw [quickFix_ticks atan2 sqrt hu hj (hlt.le.trans hle)]
    exact hlt.ne

/-- **A step that is short of a tick unless `c` is right exactly when `c`.** -/
theorem quickFix_ticks_iff (hu : 0 < u) (hms : u ≠ 1e-3) (hk : 1 ≤ k) (hle : k * u ≤ 0.5)
    (c : Prop) [Decidable c] :
    quickFix (.exact atan2 sqrt) ((if c then k else k - 1 : ℕ) * u) = k * u ↔ c := by
  split_ifs with h
  · exact iff_of_true (quickFix_ticks atan2 sqrt hu hk hle) h
  · exact iff_of_false (quickFix_short atan2 sqrt hu hms hk hle) h

end QuickFix

/-! ## One step -/

/-- The microsecond clock of `Foc.c`, wrapping at `2^32`. -/
def micros (n : ℕ) : UInt64 := UInt64.ofNat (upCount (2 ^ 32) n)

theorem toNat_micros (n : ℕ) : (micros n).toNat = upCount (2 ^ 32) n := by
  have := upCount_lt (M := 2 ^ 32) (n := n) (by norm_num)
  rw [micros, UInt64.toNat_ofNat']
  exact Nat.mod_eq_of_lt (by omega)

/-- `SysTick->VAL`: 24 bits, counting down. -/
def sysTick (n : ℕ) : UInt32 := UInt32.ofNat (downCount (2 ^ 24) n)

theorem toNat_sysTick (n : ℕ) : (sysTick n).toNat = downCount (2 ^ 24) n := by
  have := downCount_lt (M := 2 ^ 24) (n := n) (by norm_num)
  rw [sysTick, UInt32.toNat_ofNat']
  exact Nat.mod_eq_of_lt (by omega)

namespace Foc

/-- Past the wrap, the subtraction is a tick short. -/
theorem timeStep_eq_quickFix (n : ℕ) (k : Interval 500000) :
    timeStep (.exact atan2 sqrt) (micros n) (micros (n + k.ticks))
      = quickFix (.exact atan2 sqrt)
          ((if upCount (2 ^ 32) n + k.ticks < 2 ^ 32 then k.ticks
            else k.ticks - 1 : ℕ) * 1e-6) := by
  obtain ⟨k, hk, hle⟩ := k
  have hn := toNat_micros n
  have hnk := toNat_micros (n + k)
  have hlt := upCount_lt (M := 2 ^ 32) (n := n) (by norm_num)
  simp only [timeStep, FloatModel.exact_store, gt_iff_lt, UInt64.lt_iff_toNat_lt, hn, hnk]
  congr 1
  split_ifs with hbranch h h
  · have hadd := upCount_add h
    rw [UInt64.toNat_sub_of_le _ _ (UInt64.le_iff_toNat_le.mpr (by omega)), hn, hnk]
    congr 2
    omega
  · have hadd := upCount_add_wrap (n := n) (by omega) (not_lt.mp h)
    omega
  · have hadd := upCount_add h
    omega
  · have hadd := upCount_add_wrap (n := n) (by omega) (not_lt.mp h)
    have hmax : (0xFFFFFFFF : UInt64).toNat = 2 ^ 32 - 1 := rfl
    rw [UInt64.toNat_add, UInt64.toNat_sub_of_le _ _ (UInt64.le_iff_toNat_le.mpr (by omega)),
      hn, hnk, hmax, Nat.mod_eq_of_lt (by omega)]
    congr 2
    omega

/-- **A step of `Foc.c` is the true interval exactly when the clock did not wrap in it.** -/
theorem timeStep_micros (n : ℕ) (k : Interval 500000) :
    timeStep (.exact atan2 sqrt) (micros n) (micros (n + k.ticks)) = k.ticks * 1e-6
      ↔ upCount (2 ^ 32) n + k.ticks < 2 ^ 32 := by
  have hle : (k.ticks : ℚ) ≤ 500000 := by exact_mod_cast k.le
  rw [timeStep_eq_quickFix]
  exact quickFix_ticks_iff atan2 sqrt (by norm_num) (by norm_num) k.pos (by linarith) _

end Foc

namespace BLDCMotor

/-- Past the reload, the subtraction is a tick short. -/
theorem timeStep_eq_quickFix (n : ℕ) (k : Interval 4500000) :
    timeStep (.exact atan2 sqrt) (sysTick n) (sysTick (n + k.ticks))
      = quickFix (.exact atan2 sqrt)
          ((if k.ticks ≤ downCount (2 ^ 24) n then k.ticks else k.ticks - 1 : ℕ) / 9 * 1e-6) := by
  obtain ⟨k, hk, hle⟩ := k
  have hn := toNat_sysTick n
  have hnk := toNat_sysTick (n + k)
  have hlt := downCount_lt (M := 2 ^ 24) (n := n) (by norm_num)
  have hlt' := downCount_lt (M := 2 ^ 24) (n := n + k) (by norm_num)
  simp only [timeStep, FloatModel.exact_store, UInt32.lt_iff_toNat_lt, hn, hnk]
  congr 1
  split_ifs with hbranch h h
  · have hadd := downCount_add h
    rw [UInt32.toNat_sub_of_le _ _ (UInt32.le_iff_toNat_le.mpr (by omega)), hn, hnk]
    congr 3
    omega
  · have hadd := downCount_add_wrap (M := 2 ^ 24) (by omega) (not_le.mp h)
    omega
  · have hadd := downCount_add h
    omega
  · have hadd := downCount_add_wrap (M := 2 ^ 24) (by omega) (not_le.mp h)
    have hmax : (0xFFFFFF : UInt32).toNat = 2 ^ 24 - 1 := rfl
    rw [UInt32.toNat_add, UInt32.toNat_sub_of_le _ _ (UInt32.le_iff_toNat_le.mpr (by omega)),
      hn, hnk, hmax, Nat.mod_eq_of_lt (by omega)]
    congr 3
    omega

/-- **A step of `BLDCMotor.c` is the true interval exactly when the counter was not reloaded in
it.** -/
theorem timeStep_sysTick (n : ℕ) (k : Interval 4500000) :
    timeStep (.exact atan2 sqrt) (sysTick n) (sysTick (n + k.ticks)) = k.ticks / 9 * 1e-6
      ↔ k.ticks ≤ downCount (2 ^ 24) n := by
  have hunit : ∀ j : ℕ, (j : ℚ) / 9 * 1e-6 = j * (1 / 9 * 1e-6) := fun j => by ring
  have hle : (k.ticks : ℚ) ≤ 4500000 := by exact_mod_cast k.le
  rw [timeStep_eq_quickFix, hunit, hunit]
  exact quickFix_ticks_iff atan2 sqrt (by norm_num) (by norm_num) k.pos (by linarith) _

end BLDCMotor

/-! ## Runs -/

namespace Foc

/-- A call that reads the clock: `ShaftTargetAngle` for a target, or `ShaftVelocity` at a sensor
reading. -/
inductive ClockedCall
  | shaftTargetAngle (targetVelocity : ℚ)
  | shaftVelocity (angleNow : ℚ)

/-- A call made `k` microseconds after the one before it, at `s.2` microseconds, with the pointers
into the `FOC` the callers in `Foc.c` pass.  Its output is the `Ts` it computes. -/
def clockedCall (A : FloatModel) (s : FOC × ℕ) (c : ClockedCall × Interval 500000) :
    (FOC × ℕ) × ℚ :=
  let now := s.2 + c.2.ticks
  match c.1 with
  | .shaftTargetAngle v =>
      let t := shaftTargetAngle A s.1 v s.1.timePrev (micros now)
      (({ s.1 with shaftAngle := t.angle, timePrev := t.updateTime }, now), t.Ts)
  | .shaftVelocity angleNow =>
      let v := shaftVelocity A s.1 s.1.timePrev (micros now) s.1.anglePrev angleNow
      (({ s.1 with timePrev := v.updateTime, anglePrev := v.updateAngle }, now), v.Ts)

theorem clockedCall_timePrev (A : FloatModel) (s : FOC × ℕ) (c : ClockedCall × Interval 500000) :
    (clockedCall A s c).1.1.timePrev = micros (clockedCall A s c).1.2 := by
  obtain ⟨v | a, k⟩ := c <;> rfl

theorem clockedCall_Ts (A : FloatModel) (s : FOC × ℕ) (c : ClockedCall × Interval 500000) :
    (clockedCall A s c).2 = timeStep A s.1.timePrev (micros (s.2 + c.2.ticks)) := by
  obtain ⟨v | a, k⟩ := c <;> rfl

/-- The clock does not wrap before the call. -/
def NoWrap (s : FOC × ℕ) (c : ClockedCall × Interval 500000) : Prop :=
  upCount (2 ^ 32) s.2 + c.2.ticks < 2 ^ 32

/-- The seconds that really passed. -/
def trueInterval (c : ClockedCall × Interval 500000) : ℚ := c.2.ticks * 1e-6

theorem clockedRun_iff (foc : FOC) (n : ℕ) (calls : List (ClockedCall × Interval 500000)) :
    (run (clockedCall (.exact atan2 sqrt)) ({ foc with timePrev := micros n }, n) calls).2
        = calls.map trueInterval
      ↔ AllCalls (clockedCall (.exact atan2 sqrt)) NoWrap
          ({ foc with timePrev := micros n }, n) calls := by
  rw [← forall₂_eq_map_iff]
  refine run_forall₂_iff (fun s => s.1.timePrev = micros s.2) NoWrap _ (fun s c hs => ?_) rfl calls
  refine ⟨?_, fun _ => clockedCall_timePrev _ s c⟩
  rw [clockedCall_Ts, hs]
  exact timeStep_micros atan2 sqrt s.2 c.2

end Foc

namespace BLDCMotor

/-- A call that reads the clock: `velocityOpenloop` or `angleOpenloop`, for a target. -/
inductive ClockedCall
  | velocityOpenloop (targetVelocity : ℚ)
  | angleOpenloop (targetAngle : ℚ)

/-- A call made `k` ticks after the one before it, at `s.2` ticks.  Its output is the `Ts` it
computes. -/
def clockedCall (A : FloatModel) (s : Motor × ℕ) (c : ClockedCall × Interval 4500000) :
    (Motor × ℕ) × ℚ :=
  let now := s.2 + c.2.ticks
  match c.1 with
  | .velocityOpenloop v =>
      let r := velocityOpenloop A s.1 v (sysTick now)
      ((r.1, now), r.2.Ts)
  | .angleOpenloop a =>
      let r := angleOpenloop A s.1 a (sysTick now)
      ((r.1, now), r.2.Ts)

theorem clockedCall_timestamp (A : FloatModel) (s : Motor × ℕ)
    (c : ClockedCall × Interval 4500000) :
    (clockedCall A s c).1.1.openLoopTimestamp = sysTick (clockedCall A s c).1.2 := by
  obtain ⟨v | a, k⟩ := c
  · rfl
  · simp only [clockedCall, angleOpenloop]
    split_ifs <;> rfl

theorem clockedCall_Ts (A : FloatModel) (s : Motor × ℕ) (c : ClockedCall × Interval 4500000) :
    (clockedCall A s c).2 = timeStep A s.1.openLoopTimestamp (sysTick (s.2 + c.2.ticks)) := by
  obtain ⟨v | a, k⟩ := c <;> rfl

/-- The counter is not reloaded before the call. -/
def NoReload (s : Motor × ℕ) (c : ClockedCall × Interval 4500000) : Prop :=
  c.2.ticks ≤ downCount (2 ^ 24) s.2

/-- The seconds that really passed. -/
def trueInterval (c : ClockedCall × Interval 4500000) : ℚ := c.2.ticks / 9 * 1e-6

theorem clockedRun_iff (m : Motor) (n : ℕ) (calls : List (ClockedCall × Interval 4500000)) :
    (run (clockedCall (.exact atan2 sqrt)) ({ m with openLoopTimestamp := sysTick n }, n) calls).2
        = calls.map trueInterval
      ↔ AllCalls (clockedCall (.exact atan2 sqrt)) NoReload
          ({ m with openLoopTimestamp := sysTick n }, n) calls := by
  rw [← forall₂_eq_map_iff]
  refine run_forall₂_iff (fun s => s.1.openLoopTimestamp = sysTick s.2) NoReload _
    (fun s c hs => ?_) rfl calls
  refine ⟨?_, fun _ => clockedCall_timestamp _ s c⟩
  rw [clockedCall_Ts, hs]
  exact timeStep_sysTick atan2 sqrt s.2 c.2

end BLDCMotor

/-! ## Elapsed time -/

/-- The ticks that passed during a run. -/
def elapsedTicks {ι : Type*} {longest : ℕ} (calls : List (ι × Interval longest)) : ℕ :=
  (calls.map fun c => c.2.ticks).sum

/-- Intervals of so many ticks each sum to the ticks of the run. -/
theorem sum_map_ticks {ι : Type*} {longest : ℕ} (u : ℚ) (calls : List (ι × Interval longest)) :
    (calls.map fun c => (c.2.ticks : ℚ) * u).sum = elapsedTicks calls * u := by
  induction calls with
  | nil => simp [elapsedTicks]
  | cons c calls ih =>
    rw [elapsedTicks] at ih ⊢
    rw [List.map_cons, List.sum_cons, ih, List.map_cons, List.sum_cons]
    push_cast
    ring

theorem Foc.sum_trueInterval (calls : List (Foc.ClockedCall × Interval 500000)) :
    (calls.map Foc.trueInterval).sum = elapsedTicks calls * 1e-6 :=
  sum_map_ticks 1e-6 calls

theorem BLDCMotor.sum_trueInterval (calls : List (BLDCMotor.ClockedCall × Interval 4500000)) :
    (calls.map BLDCMotor.trueInterval).sum = elapsedTicks calls / 9 * 1e-6 := by
  have h := sum_map_ticks (1 / 9 * 1e-6) calls
  have hunit : ∀ q : ℚ, q * (1 / 9 * 1e-6) = q / 9 * 1e-6 := fun q => by ring
  simp only [hunit] at h
  exact h

/-- **A run keeps the time exactly when its counter is never reloaded between two reads.**  Each
step is the true interval, and the steps sum to the elapsed time, if and only if no call is the
first after a wrap — of the 24-bit `SysTick->VAL` in `BLDCMotor.c`, of the 32-bit microsecond clock
in `Foc.c`. -/
theorem timeSteps_exact_iff :
    (∀ (m : BLDCMotor.Motor) (n : ℕ) (calls : List (BLDCMotor.ClockedCall × Interval 4500000)),
      let Ts := (run (BLDCMotor.clockedCall (.exact atan2 sqrt))
        ({ m with openLoopTimestamp := sysTick n }, n) calls).2
      (Ts = calls.map BLDCMotor.trueInterval ∧ Ts.sum = elapsedTicks calls / 9 * 1e-6)
        ↔ AllCalls (BLDCMotor.clockedCall (.exact atan2 sqrt)) BLDCMotor.NoReload
            ({ m with openLoopTimestamp := sysTick n }, n) calls)
      ∧ ∀ (foc : Foc.FOC) (n : ℕ) (calls : List (Foc.ClockedCall × Interval 500000)),
        let Ts := (run (Foc.clockedCall (.exact atan2 sqrt))
          ({ foc with timePrev := micros n }, n) calls).2
        (Ts = calls.map Foc.trueInterval ∧ Ts.sum = elapsedTicks calls * 1e-6)
          ↔ AllCalls (Foc.clockedCall (.exact atan2 sqrt)) Foc.NoWrap
              ({ foc with timePrev := micros n }, n) calls := by
  constructor
  · intro m n calls Ts
    rw [← BLDCMotor.clockedRun_iff]
    refine and_iff_left_of_imp fun h => ?_
    rw [h, BLDCMotor.sum_trueInterval]
  · intro foc n calls Ts
    rw [← Foc.clockedRun_iff]
    refine and_iff_left_of_imp fun h => ?_
    rw [h, Foc.sum_trueInterval]

/-- The counter at zero, then ninety ticks: the reload costs one of them, in either driver. -/
theorem timeSteps_lose_a_tick :
    (let calls : List (BLDCMotor.ClockedCall × Interval 4500000) :=
        [(.velocityOpenloop 1, ⟨90, by decide, by decide⟩)]
      let Ts := (run (BLDCMotor.clockedCall (.exact (fun _ _ => 0) id))
        ({ (default : BLDCMotor.Motor) with openLoopTimestamp := sysTick (2 ^ 24 - 1) },
          2 ^ 24 - 1) calls).2
      Ts = [89 / 9 * 1e-6] ∧ Ts ≠ calls.map BLDCMotor.trueInterval)
      ∧ (let calls : List (Foc.ClockedCall × Interval 500000) :=
          [(.shaftVelocity 0, ⟨90, by decide, by decide⟩)]
        let Ts := (run (Foc.clockedCall (.exact (fun _ _ => 0) id))
          ({ (default : Foc.FOC) with timePrev := micros (2 ^ 32 - 1) }, 2 ^ 32 - 1) calls).2
        Ts = [89 * 1e-6] ∧ Ts ≠ calls.map Foc.trueInterval) := by
  constructor <;> decide +kernel

end EmbeddedMCU

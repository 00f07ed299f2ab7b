import EmbeddedMCU.FreeRTOS.List
import EmbeddedMCU.Machinery.Run
import Mathlib.Data.Nat.Bitwise
import Mathlib.Logic.Function.Iterate

/-!
# FreeRTOS/TimeOut — the tick arithmetic of `tasks.c`

    true time     0 ─────────────── 2³² ─────────────── 2·2³² ──▸
    xTickCount    0 … xTickCount …   0  … xTickCount …    0
    overflows          0                      1                2

A task that waits in several goes keeps the time it began at and the ticks it has left
(`xTaskCheckForTimeOut`), one that works in periods the time it was last due
(`xTaskDelayUntil`).  Both compare counts of 32 bits.  Over any run they are right in true time
(`checkForTimeOut_exact`, `delayUntil_no_drift`), as long as no more than `2 ^ 32` ticks pass
between two calls.
-/

namespace EmbeddedMCU

namespace TimeOut

open List_t (portMAX_DELAY)

/-! ## The tick count -/

/-- `xTickCount` and `xNumOfOverflows`, of which only equality is asked. -/
structure Clock where
  xTickCount : UInt32
  xNumOfOverflows : UInt32
  deriving DecidableEq

namespace Clock

/-- What `xTaskIncrementTick` and `taskSWITCH_DELAYED_LISTS` do to them, for a tick that is counted.
While the scheduler is suspended ticks are held back in `xPendedTicks`; they are counted when it is
resumed. -/
def tick (c : Clock) : Clock :=
  let xConstTickCount := c.xTickCount + 1
  { xTickCount := xConstTickCount
    xNumOfOverflows := if xConstTickCount = 0 then c.xNumOfOverflows + 1 else c.xNumOfOverflows }

/-- The counts at a true time. -/
def atTime (n : ℕ) : Clock := ⟨.ofNat n, .ofNat (n / 2 ^ 32)⟩

theorem tick_atTime (n : ℕ) : (atTime n).tick = atTime (n + 1) := by
  have hcount : (UInt32.ofNat n + 1).toNat = (n + 1) % 2 ^ 32 := by
    rw [UInt32.toNat_add, UInt32.toNat_ofNat']
    exact Nat.mod_add_mod n _ 1
  have hzero : UInt32.ofNat n + 1 = 0 ↔ (n + 1) % 2 ^ 32 = 0 := by
    rw [← UInt32.toNat_inj, hcount, UInt32.toNat_zero]
  rw [tick, atTime, atTime, Clock.mk.injEq]
  refine ⟨UInt32.toNat_inj.mp (hcount.trans UInt32.toNat_ofNat'.symm), UInt32.toNat_inj.mp ?_⟩
  simp only [hzero]
  split_ifs with hwrap
  · rw [UInt32.toNat_add, UInt32.toNat_ofNat', UInt32.toNat_ofNat', UInt32.toNat_one]
    omega
  · rw [UInt32.toNat_ofNat', UInt32.toNat_ofNat']
    omega

/-- **The counts are those of the true time**, after any number of ticks. -/
theorem iterate_tick_atTime (n k : ℕ) : tick^[k] (atTime n) = atTime (n + k) := by
  induction k generalizing n with
  | zero => rfl
  | succ k ih => rw [Function.iterate_succ_apply, tick_atTime, ih, Nat.succ_add_eq_add_succ]

end Clock

/-! ## Waiting in several goes -/

/-- A task that waits: the clock, its `TimeOut_t`, and the ticks it has left. -/
structure Waiter where
  clock : Clock
  pxTimeOut : Clock
  pxTicksToWait : UInt32

/-- `vTaskSetTimeOutState`, and `vTaskInternalSetTimeOutState`: `xOverflowCount` and
`xTimeOnEntering` are copied from the clock. -/
def vTaskSetTimeOutState (w : Waiter) : Waiter := { w with pxTimeOut := w.clock }

/-- `xTaskCheckForTimeOut` -/
def xTaskCheckForTimeOut (w : Waiter) : Waiter × Bool :=
  let xConstTickCount := w.clock.xTickCount
  let xElapsedTime := xConstTickCount - w.pxTimeOut.xTickCount
  if w.pxTicksToWait = portMAX_DELAY then (w, false)
  else if w.clock.xNumOfOverflows ≠ w.pxTimeOut.xNumOfOverflows
      ∧ w.pxTimeOut.xTickCount ≤ xConstTickCount then
    ({ w with pxTicksToWait := 0 }, true)
  else if xElapsedTime < w.pxTicksToWait then
    (vTaskSetTimeOutState { w with pxTicksToWait := w.pxTicksToWait - xElapsedTime }, false)
  else ({ w with pxTicksToWait := 0 }, true)

/-- So many ticks pass, and the task checks: whether its time is over, and what is left of it. -/
def checkAfter (w : Waiter) (ticks : ℕ) : Waiter × Bool × UInt32 :=
  let checked := xTaskCheckForTimeOut { w with clock := Clock.tick^[ticks] w.clock }
  (checked.1, checked.2, checked.1.pxTicksToWait)

/-- A task that begins to wait at a true time. -/
def waiting (start : ℕ) (xTicksToWait : UInt32) : Waiter :=
  vTaskSetTimeOutState ⟨Clock.tick^[start] (Clock.atTime 0), Clock.atTime 0, xTicksToWait⟩

/-- What is known after some ticks: the time is over, or it was taken anew and the rest is left. -/
structure Waits (start total : ℕ) (passed : ℕ) (w : Waiter) : Prop where
  clock : w.clock = .atTime (start + passed)
  left : w.pxTicksToWait.toNat = total - passed
  entered : passed < total → w.pxTimeOut = .atTime (start + passed)

section Check

variable {start total passed ticks : ℕ} {w : Waiter}

/-- Between two times at most `2 ^ 32` ticks apart: the overflows tell a whole round from none. -/
theorem wrapped_iff (n : ℕ) (h : ticks ≤ 2 ^ 32) :
    ((Clock.atTime (n + ticks)).xNumOfOverflows ≠ (Clock.atTime n).xNumOfOverflows
        ∧ (Clock.atTime n).xTickCount ≤ (Clock.atTime (n + ticks)).xTickCount)
      ↔ ticks = 2 ^ 32 := by
  simp only [Clock.atTime, ne_eq, ← UInt32.toNat_inj, UInt32.le_iff_toNat_le,
    UInt32.toNat_ofNat']
  omega

/-- …and the difference of the counts is the ticks between them, short of a whole round. -/
theorem toNat_elapsed (n : ℕ) (h : ticks < 2 ^ 32) :
    ((Clock.atTime (n + ticks)).xTickCount - (Clock.atTime n).xTickCount).toNat = ticks := by
  simp only [Clock.atTime, UInt32.toNat_sub, UInt32.toNat_ofNat']
  omega

/-- **One check is exact**, when at most `2 ^ 32` ticks have passed since the last. -/
theorem Waits.checkAfter (h : Waits start total passed w) (htotal : total < 2 ^ 32 - 1)
    (hticks : ticks ≤ 2 ^ 32) :
    Waits start total (passed + ticks) (checkAfter w ticks).1
      ∧ (TimeOut.checkAfter w ticks).2
        = (decide (total ≤ passed + ticks), .ofNat (total - (passed + ticks))) := by
  have hmax : w.pxTicksToWait ≠ portMAX_DELAY := by
    rw [ne_eq, ← UInt32.toNat_inj, h.left]
    have : portMAX_DELAY.toNat = 2 ^ 32 - 1 := rfl
    omega
  have hclock : Clock.tick^[ticks] w.clock = .atTime (start + passed + ticks) := by
    rw [h.clock, Clock.iterate_tick_atTime]
  have hover : total ≤ passed + ticks → ∀ pxTimeOut,
      Waits start total (passed + ticks) ⟨.atTime (start + passed + ticks), pxTimeOut, 0⟩
        ∧ (true, (0 : UInt32))
          = (decide (total ≤ passed + ticks), .ofNat (total - (passed + ticks))) := by
    intro hle pxTimeOut
    refine ⟨⟨by rw [Nat.add_assoc], ?_, fun hlt => absurd hlt (by omega)⟩, ?_⟩
    · rw [UInt32.toNat_zero]
      omega
    · rw [decide_eq_true hle, Nat.sub_eq_zero_of_le hle]
      rfl
  simp only [TimeOut.checkAfter, xTaskCheckForTimeOut, hclock, if_neg hmax]
  obtain hdone | hlt := Nat.lt_or_ge passed total |>.symm
  · have hzero : w.pxTicksToWait = 0 := by
      rw [← UInt32.toNat_inj, h.left, UInt32.toNat_zero]
      omega
    have hnot : ∀ v : UInt32, ¬v < w.pxTicksToWait := fun v => by
      rw [hzero, UInt32.lt_iff_toNat_lt, UInt32.toNat_zero]
      exact Nat.not_lt_zero _
    rw [if_neg (hnot _), ite_self]
    exact hover (by omega) _
  · rw [h.entered hlt]
    by_cases hround : ticks = 2 ^ 32
    · rw [if_pos ((wrapped_iff _ hticks).mpr hround)]
      exact hover (by omega) _
    · have helapsed := toNat_elapsed (start + passed) (lt_of_le_of_ne hticks hround)
      rw [if_neg fun hwrap => hround ((wrapped_iff _ hticks).mp hwrap)]
      have hless : (Clock.atTime (start + passed + ticks)).xTickCount
            - (Clock.atTime (start + passed)).xTickCount < w.pxTicksToWait
          ↔ passed + ticks < total := by
        rw [UInt32.lt_iff_toNat_lt, helapsed, h.left]
        omega
      by_cases hshort : passed + ticks < total
      · rw [if_pos (hless.mpr hshort)]
        have hleft : (w.pxTicksToWait - ((Clock.atTime (start + passed + ticks)).xTickCount
            - (Clock.atTime (start + passed)).xTickCount)).toNat = total - (passed + ticks) := by
          rw [UInt32.toNat_sub_of_le _ _ (UInt32.le_of_lt (hless.mpr hshort)), helapsed, h.left]
          omega
        refine ⟨⟨by rw [vTaskSetTimeOutState, Nat.add_assoc], hleft,
          fun _ => by rw [vTaskSetTimeOutState, Nat.add_assoc]⟩, ?_⟩
        rw [decide_eq_false (by omega), Prod.mk.injEq]
        refine ⟨rfl, UInt32.toNat_inj.mp (hleft.trans ?_)⟩
        rw [UInt32.toNat_ofNat']
        omega
      · rw [if_neg fun hlt' => hshort (hless.mp hlt')]
        exact hover (by omega) _

theorem waiting_clock (start : ℕ) (xTicksToWait : UInt32) :
    (waiting start xTicksToWait).clock = .atTime start := by
  have h := Clock.iterate_tick_atTime 0 start
  rwa [Nat.zero_add] at h

/-- What is known after any number of checks. -/
theorem run_waits {xTicksToWait : UInt32} {gaps : List ℕ} (htotal : xTicksToWait.toNat < 2 ^ 32 - 1)
    (hgaps : ∀ g ∈ gaps, g ≤ 2 ^ 32) :
    Waits start xTicksToWait.toNat gaps.sum
      (run TimeOut.checkAfter (waiting start xTicksToWait) gaps).1 := by
  induction gaps using List.reverseRecOn with
  | nil => exact ⟨waiting_clock start _, rfl, fun _ => waiting_clock start _⟩
  | append_singleton gaps g ih =>
    obtain ⟨hgaps, hg⟩ := List.forall_mem_append.mp hgaps
    rw [run_concat, List.sum_append, List.sum_singleton]
    exact ((ih hgaps).checkAfter htotal (hg g List.mem_cons_self)).1

end Check

/-- **A wait in several goes is over exactly when its time is.**  Wherever in the rounds of the tick
count it began and however often it is checked, the check after some more ticks says whether as many
ticks have passed as were to be waited for, and leaves the rest; `portMAX_DELAY` never ends. -/
theorem checkForTimeOut_exact (start : ℕ) (xTicksToWait : UInt32) (gaps : List ℕ) (gap : ℕ)
    (hgaps : ∀ g ∈ gaps ++ [gap], g ≤ 2 ^ 32) :
    (checkAfter (run checkAfter (waiting start xTicksToWait) gaps).1 gap).2
      = if xTicksToWait = portMAX_DELAY then (false, portMAX_DELAY)
        else (decide (xTicksToWait.toNat ≤ (gaps ++ [gap]).sum),
          .ofNat (xTicksToWait.toNat - (gaps ++ [gap]).sum)) := by
  obtain ⟨hgaps, hgap⟩ := List.forall_mem_append.mp hgaps
  rw [List.forall_mem_singleton] at hgap
  split_ifs with hmax
  · have hstays : ∀ w : Waiter, w.pxTicksToWait = portMAX_DELAY → ∀ ticks,
        (checkAfter w ticks).1.pxTicksToWait = portMAX_DELAY
          ∧ (checkAfter w ticks).2 = (false, portMAX_DELAY) := by
      intro w hw ticks
      simp only [checkAfter, xTaskCheckForTimeOut, hw, if_true, and_self]
    have hrun : (run checkAfter (waiting start xTicksToWait) gaps).1.pxTicksToWait
        = portMAX_DELAY :=
      (run_invariant (fun w => w.pxTicksToWait = portMAX_DELAY) (fun _ => True) (fun _ => True)
        (fun w g hw _ => ⟨(hstays w hw g).1, trivial⟩) hmax fun _ _ => trivial).1
    exact (hstays _ hrun gap).2
  · have htotal : xTicksToWait.toNat < 2 ^ 32 - 1 := by
      have hlt := xTicksToWait.toNat_lt
      have hne : xTicksToWait.toNat ≠ portMAX_DELAY.toNat := fun heq =>
        hmax (UInt32.toNat_inj.mp heq)
      have : portMAX_DELAY.toNat = 2 ^ 32 - 1 := rfl
      omega
    rw [List.sum_append, List.sum_singleton]
    exact ((run_waits htotal hgaps).checkAfter htotal hgap).2

/-- A wait of five ticks that begins two ticks before an overflow, checked after one and three. -/
theorem checkForTimeOut_exact_five :
    (checkAfter (run checkAfter (waiting (2 ^ 32 - 2) 5) [1, 3]).1 1).2 = (true, 0)
      ∧ (checkAfter (run checkAfter (waiting (2 ^ 32 - 2) 5) [1]).1 3).2 = (false, 1) :=
  ⟨checkForTimeOut_exact (2 ^ 32 - 2) 5 [1, 3] 1 (by decide),
    checkForTimeOut_exact (2 ^ 32 - 2) 5 [1] 3 (by decide)⟩

/-! ## Working in periods -/

/-- What `xTaskDelayUntil` decides: the next `*pxPreviousWakeTime`, and for how long to delay. -/
def xTaskDelayUntil (xTickCount pxPreviousWakeTime xTimeIncrement : UInt32) :
    UInt32 × Option UInt32 :=
  let xConstTickCount := xTickCount
  let xTimeToWake := pxPreviousWakeTime + xTimeIncrement
  let xShouldDelay : Bool :=
    if xConstTickCount < pxPreviousWakeTime then
      xTimeToWake < pxPreviousWakeTime && xConstTickCount < xTimeToWake
    else xTimeToWake < pxPreviousWakeTime || xConstTickCount < xTimeToWake
  (xTimeToWake, if xShouldDelay then some (xTimeToWake - xConstTickCount) else none)

/-- A task that works in periods: the true time, and when it was last due. -/
structure Periodic where
  now : ℕ
  pxPreviousWakeTime : UInt32

/-- It works for some ticks, and delays until it is due again: when it goes on, and whether it had
to wait.  Ticks in which it is ready but does not run count as work. -/
def period (s : Periodic) (call : ℕ × UInt32) : Periodic × ℕ × Bool :=
  let called := s.now + call.1
  let decided := xTaskDelayUntil (.ofNat called) s.pxPreviousWakeTime call.2
  let now := called + (decided.2.getD 0).toNat
  (⟨now, decided.1⟩, now, decided.2.isSome)

/-- The same in true time: the task is due at fixed times, and goes on then, or at once when it is
late. -/
structure Schedule where
  now : ℕ
  due : ℕ

def Schedule.period (s : Schedule) (call : ℕ × UInt32) : Schedule × ℕ × Bool :=
  let called := s.now + call.1
  let due := s.due + call.2.toNat
  (⟨max called due, due⟩, max called due, decide (called < due))

/-- **One call decides right**, when the task was last due at most `2 ^ 32` ticks ago. -/
theorem xTaskDelayUntil_eq {now due : ℕ} (xTimeIncrement : UInt32) (hdue : due ≤ now)
    (hlate : now < due + 2 ^ 32) :
    xTaskDelayUntil (.ofNat now) (.ofNat due) xTimeIncrement
      = (.ofNat (due + xTimeIncrement.toNat),
        if now < due + xTimeIncrement.toNat then
          some (.ofNat (due + xTimeIncrement.toNat - now))
        else none) := by
  have hinc := xTimeIncrement.toNat_lt
  have hwake : (UInt32.ofNat due + xTimeIncrement).toNat
      = (due + xTimeIncrement.toNat) % 2 ^ 32 := by
    rw [UInt32.toNat_add, UInt32.toNat_ofNat', Nat.mod_add_mod]
  have hshould : (if UInt32.ofNat now < UInt32.ofNat due then
        UInt32.ofNat due + xTimeIncrement < UInt32.ofNat due
          && UInt32.ofNat now < UInt32.ofNat due + xTimeIncrement
      else UInt32.ofNat due + xTimeIncrement < UInt32.ofNat due
        || UInt32.ofNat now < UInt32.ofNat due + xTimeIncrement : Bool)
      = decide (now < due + xTimeIncrement.toNat) := by
    rw [Bool.eq_iff_iff]
    split_ifs with hwrap <;>
      simp only [UInt32.lt_iff_toNat_lt, hwake, UInt32.toNat_ofNat', Bool.and_eq_true,
        Bool.or_eq_true, decide_eq_true_iff] at hwrap ⊢ <;>
      omega
  have hnext : UInt32.ofNat due + xTimeIncrement = .ofNat (due + xTimeIncrement.toNat) :=
    UInt32.toNat_inj.mp (hwake.trans UInt32.toNat_ofNat'.symm)
  rw [xTaskDelayUntil]
  simp only [hshould, decide_eq_true_iff]
  rw [hnext, Prod.mk.injEq]
  refine ⟨rfl, ?_⟩
  split_ifs with hwait
  · refine congrArg some (UInt32.toNat_inj.mp ?_)
    rw [UInt32.toNat_sub, UInt32.toNat_ofNat', UInt32.toNat_ofNat', UInt32.toNat_ofNat']
    omega
  · rfl

/-- **A periodic task does not drift.**  However often the tick count overflows, each call goes on
when the task is due by the sum of the increments, and at once when it is late — as long as it was
last due less than `2 ^ 32` ticks ago. -/
theorem delayUntil_no_drift (start : ℕ) (calls : List (ℕ × UInt32))
    (hlate : AllCalls Schedule.period (fun s call => s.now + call.1 < s.due + 2 ^ 32)
      ⟨start, start⟩ calls) :
    (run period ⟨start, .ofNat start⟩ calls).2
        = (run Schedule.period ⟨start, start⟩ calls).2
      ∧ (run Schedule.period ⟨start, start⟩ calls).1.due
        = start + (calls.map fun call => call.2.toNat).sum
      ∧ (run period ⟨start, .ofNat start⟩ calls).1.pxPreviousWakeTime
        = .ofNat (start + (calls.map fun call => call.2.toNat).sum) := by
  suffices h : ∀ now due, due ≤ now →
      AllCalls Schedule.period (fun s call => s.now + call.1 < s.due + 2 ^ 32) ⟨now, due⟩ calls →
      (run period ⟨now, .ofNat due⟩ calls).2 = (run Schedule.period ⟨now, due⟩ calls).2
        ∧ (run Schedule.period ⟨now, due⟩ calls).1.due
          = due + (calls.map fun call => call.2.toNat).sum
        ∧ (run period ⟨now, .ofNat due⟩ calls).1.pxPreviousWakeTime
          = .ofNat (due + (calls.map fun call => call.2.toNat).sum) from
    h start start le_rfl hlate
  clear hlate
  induction calls with
  | nil => exact fun now due _ _ => ⟨rfl, rfl, rfl⟩
  | cons call calls ih =>
    intro now due hdue hlate
    obtain ⟨hlate, hrest⟩ := hlate
    have hone := xTaskDelayUntil_eq call.2 (hdue.trans (Nat.le_add_right now call.1)) hlate
    have hcall : period ⟨now, .ofNat due⟩ call
        = (⟨max (now + call.1) (due + call.2.toNat), .ofNat (due + call.2.toNat)⟩,
          max (now + call.1) (due + call.2.toNat),
          decide (now + call.1 < due + call.2.toNat)) := by
      have hinc := call.2.toNat_lt
      simp only [period, hone]
      split_ifs with hwait
      · rw [Option.getD_some, UInt32.toNat_ofNat', Nat.mod_eq_of_lt (by omega),
          Nat.add_sub_cancel' hwait.le, max_eq_right hwait.le, decide_eq_true hwait]
        rfl
      · rw [Option.getD_none, UInt32.toNat_zero, Nat.add_zero, max_eq_left (not_lt.mp hwait),
          decide_eq_false hwait]
        rfl
    obtain ⟨hout, hdue, hwake⟩ := ih (max (now + call.1) (due + call.2.toNat))
      (due + call.2.toNat) (le_max_right _ _) hrest
    refine ⟨?_, ?_, ?_⟩
    · rw [run_cons_snd, run_cons_snd, hcall]
      exact congrArg _ hout
    · rw [run_cons_fst, List.map_cons, List.sum_cons, ← Nat.add_assoc]
      exact hdue
    · rw [run_cons_fst, hcall, List.map_cons, List.sum_cons, ← Nat.add_assoc]
      exact hwake

/-- Three periods of ten ticks across an overflow, the second of them late. -/
theorem delayUntil_no_drift_three :
    let calls : List (ℕ × UInt32) := [(3, 10), (12, 10), (1, 10)]
    (run period ⟨2 ^ 32 - 5, .ofNat (2 ^ 32 - 5)⟩ calls).2
        = [(2 ^ 32 + 5, true), (2 ^ 32 + 17, false), (2 ^ 32 + 25, true)]
      ∧ (run Schedule.period ⟨2 ^ 32 - 5, 2 ^ 32 - 5⟩ calls).1.due = 2 ^ 32 + 25
      ∧ (run period ⟨2 ^ 32 - 5, .ofNat (2 ^ 32 - 5)⟩ calls).1.pxPreviousWakeTime = 25 :=
  delayUntil_no_drift (2 ^ 32 - 5) [(3, 10), (12, 10), (1, 10)]
    ⟨by decide, by decide, by decide, trivial⟩

end TimeOut

end EmbeddedMCU

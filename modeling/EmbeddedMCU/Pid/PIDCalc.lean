import EmbeddedMCU.Machinery.Run
import EmbeddedMCU.SimpleFoc.Utils

/-!
# Pid/PIDCalc — the controller of `Pid.c`, and the law it computes

    err(1) … err(n-1)  │  err(n)
    ───── sum_e ─────     e_0            at the n-th call, e_1 still being err(n-1)

The error of a call enters the sum at the call after it.  So the struct holds its history as a sum
and a last error, in two copies (`Remembers`), and what a call returns is the positional law of that
history (`pidCalc_positional`).
-/

namespace EmbeddedMCU

namespace Pid

/-- `PID` -/
structure PID where
  target : ℚ
  feedback : ℚ
  kp : ℚ
  ki : ℚ
  kd : ℚ
  e0 : ℚ
  e1 : ℚ
  sumE : ℚ
  deriving DecidableEq, Inhabited

/-- `PIDCalc` -/
def pidCalc (A : FloatModel) (pid : PID) : PID × ℚ :=
  let pid := { pid with sumE := A.store (pid.sumE + pid.e0) }
  let pid := { pid with e0 := A.store (pid.target - pid.feedback) }
  let ep := pid.e0
  let ei := pid.sumE
  let ed := A.store (pid.e0 - pid.e1)
  let out := A.store (pid.kp * ep + pid.ki * ei + pid.kd * ed)
  ({ pid with e1 := pid.e0 }, out)

/-! ## Runs -/

/-- What is set in the struct before a call. -/
structure Setting where
  target : ℚ
  feedback : ℚ
  kp : ℚ
  ki : ℚ
  kd : ℚ

/-- The error of a call. -/
def Setting.err (x : Setting) : ℚ := x.target - x.feedback

/-- The struct, set for a call. -/
def PID.set (pid : PID) (x : Setting) : PID :=
  { pid with target := x.target, feedback := x.feedback, kp := x.kp, ki := x.ki, kd := x.kd }

/-- The struct before the first call. -/
def PID.cleared (pid : PID) : PID := { pid with e0 := 0, e1 := 0, sumE := 0 }

/-- A call of `PIDCalc`, after the struct was set for it. -/
def pidCall (A : FloatModel) (pid : PID) (x : Setting) : PID × ℚ := pidCalc A (pid.set x)

/-! ## The law -/

/-- The error of the last call, none counting as zero. -/
def lastErr (history : List Setting) : ℚ := (history.map Setting.err).getLastD 0

/-- **The positional law**: every past error integrated once, the difference taken to the call
before. -/
def positional (history : List Setting) (x : Setting) : ℚ :=
  x.kp * x.err + x.ki * (history.map Setting.err).sum + x.kd * (x.err - lastErr history)

/-- **What the struct holds of its history**: the last error twice, and the sum of the others. -/
structure Remembers (history : List Setting) (pid : PID) : Prop where
  e0 : pid.e0 = lastErr history
  e1 : pid.e1 = lastErr history
  sum : pid.sumE + pid.e0 = (history.map Setting.err).sum

variable (atan2 : ℚ → ℚ → ℚ) (sqrt : ℚ → ℚ)

theorem remembers_cleared (pid : PID) : Remembers [] pid.cleared := ⟨rfl, rfl, add_zero 0⟩

theorem lastErr_concat (history : List Setting) (x : Setting) :
    lastErr (history ++ [x]) = x.err := by
  rw [lastErr, List.map_append, List.map_singleton, List.getLastD_concat]

/-- One call adds its error to the history, -/
theorem Remembers.pidCall {history : List Setting} {pid : PID} (h : Remembers history pid)
    (x : Setting) : Remembers (history ++ [x]) (pidCall (.exact atan2 sqrt) pid x).1 where
  e0 := (lastErr_concat history x).symm
  e1 := (lastErr_concat history x).symm
  sum := by
    have hsum : (Pid.pidCall (.exact atan2 sqrt) pid x).1.sumE = pid.sumE + pid.e0 := rfl
    have herr : (Pid.pidCall (.exact atan2 sqrt) pid x).1.e0 = x.err := rfl
    rw [hsum, herr, h.sum, List.map_append, List.sum_append, List.map_singleton,
      List.sum_singleton]

/-- …and returns the law of the history before it. -/
theorem Remembers.pidCall_out {history : List Setting} {pid : PID} (h : Remembers history pid)
    (x : Setting) : (Pid.pidCall (.exact atan2 sqrt) pid x).2 = positional history x := by
  have hout : (Pid.pidCall (.exact atan2 sqrt) pid x).2
      = x.kp * x.err + x.ki * (pid.sumE + pid.e0) + x.kd * (x.err - pid.e1) := rfl
  rw [hout, h.sum, h.e1, positional]

/-- **`PIDCalc` is the positional law over whole runs**, whatever is set before each call. -/
theorem pidCalc_positional (pid : PID) (xs : List Setting) (x : Setting) :
    (run (pidCall (.exact atan2 sqrt)) pid.cleared (xs ++ [x])).2.getLast?
      = some (x.kp * x.err + x.ki * (xs.map Setting.err).sum
          + x.kd * (x.err - (xs.map Setting.err).getLastD 0)) := by
  have hrun : Remembers xs (run (pidCall (.exact atan2 sqrt)) pid.cleared xs).1 :=
    run_history Remembers (fun _ _ x h => h.pidCall atan2 sqrt x) (remembers_cleared pid) xs
  rw [run_concat, List.getLast?_concat, hrun.pidCall_out atan2 sqrt x]
  rfl

end Pid

end EmbeddedMCU

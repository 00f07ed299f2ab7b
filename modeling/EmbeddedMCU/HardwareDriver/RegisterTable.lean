import EmbeddedMCU.HardwareDriver.Bus

/-!
# HardwareDriver/RegisterTable — the parts the initialisations are made of

A driver configures its sensor from a table: each register is written and read back, and the first
that does not read back what was written ends the initialisation.
-/

namespace EmbeddedMCU

namespace HardwareDriver

variable {σ : Type}

/-- A row of a table: the register, the data written to it, and the error code when it is not read
back. -/
structure RegDataError where
  reg : UInt8
  data : UInt8
  error : UInt8
  deriving DecidableEq

/-- What an initialisation returns, and what it gave to `OUTPUT`. -/
structure Report where
  code : ReturnCode
  output : List String
  deriving DecidableEq

/-- The loop over a table, with the routines that write and read a register and the wait after
each. -/
def configure (write : UInt8 → UInt8 → BusM σ Unit) (read : UInt8 → BusM σ UInt8)
    (wait : BusM σ Unit) (failed : RegDataError → Report) : List RegDataError → BusM σ Report
  | [] => pure ⟨ReturnCode.EOK, []⟩
  | row :: rows => do
      write row.reg row.data
      wait
      let res ← read row.reg
      wait
      if res ≠ row.data then pure (failed row)
      else configure write read wait failed rows

/-- `if (stage) return EERROR;`, and on to what follows. -/
def orError (stage next : BusM σ Report) : BusM σ Report := do
  let report ← stage
  if report.code ≠ 0 then pure ⟨ReturnCode.EERROR, report.output⟩
  else do
    let rest ← next
    pure ⟨rest.code, report.output ++ rest.output⟩

/-- A routine that returns `EEMPTY` at once on a null struct or a null callback, and otherwise runs
on the routines the pointers lead to. -/
def initialise {D C : Type} (callbacks : D → Option C) (body : C → BusM σ Report) :
    Option D → BusM σ Report
  | none => pure ⟨ReturnCode.EEMPTY, []⟩
  | some d =>
      match callbacks d with
      | none => pure ⟨ReturnCode.EEMPTY, []⟩
      | some c => body c

theorem initialise_of_eq_some {D C : Type} {callbacks : D → Option C} (body : C → BusM σ Report)
    {d : D} {c : C} (h : callbacks d = some c) : initialise callbacks body (some d) = body c := by
  rw [initialise, h]

end HardwareDriver

end EmbeddedMCU

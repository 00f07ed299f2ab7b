import EmbeddedMCU.Common.Log

/-!
# HardwareDriver/Bus — the callbacks a sensor driver works through

A driver never touches hardware: it holds pointers to routines of the board that exchange bytes
with the sensor or wait.  Such a routine may do anything to what lies behind it, so it is a function
on a state `σ` nobody looks into, and answers with bytes nobody chose.  `BusM` runs a driver over
that state and records every transfer it makes.
-/

namespace EmbeddedMCU

namespace HardwareDriver

/-! ## Callbacks -/

/-- A routine that sends bytes and receives so many in return. -/
abbrev Exchange (σ : Type) := σ → List UInt8 → (rxLen : ℕ) → σ × Vector UInt8 rxLen

/-- A routine that only sends. -/
abbrev Send (σ : Type) := σ → List UInt8 → σ

/-- A routine that only receives. -/
abbrev Receive (σ : Type) := σ → (rxLen : ℕ) → σ × Vector UInt8 rxLen

/-- A routine that waits. -/
abbrev Delay (σ : Type) := σ → (ms : UInt16) → σ

/-- The transfer callbacks of the drivers, by the field that points to them. -/
inductive Callback
  | magneDataReadData
  | magneDataWriteData
  | acceDataTransfer
  | gryoDataTransfer
  | as5600Transmit (devAddr : UInt8)
  | as5600Receive (devAddr : UInt8)
  deriving DecidableEq

/-- A transfer: the bytes sent, and the bytes received. -/
structure Transfer where
  callback : Callback
  tx : List UInt8
  rx : List UInt8
  deriving DecidableEq

/-- What lies behind the callbacks, and the transfers made so far. -/
structure World (σ : Type) where
  env : σ
  transfers : List Transfer

/-- A driver routine, run over the world. -/
abbrev BusM (σ : Type) := StateM (World σ)

variable {σ : Type}

namespace World

/-- The world before the first transfer. -/
def start (env : σ) : World σ := ⟨env, []⟩

/-- The bytes received so far. -/
def received (w : World σ) : List UInt8 := w.transfers.flatMap Transfer.rx

end World

/-! ## Calling them -/

/-- Bytes out, bytes in. -/
def exchange (name : Callback) (f : Exchange σ) (tx : List UInt8) (rxLen : ℕ) :
    BusM σ (List UInt8) := fun w =>
  let r := f w.env tx rxLen
  (r.2.toList, ⟨r.1, w.transfers ++ [⟨name, tx, r.2.toList⟩]⟩)

/-- Bytes out. -/
def send (name : Callback) (f : Send σ) (tx : List UInt8) : BusM σ Unit := fun w =>
  ((), ⟨f w.env tx, w.transfers ++ [⟨name, tx, []⟩]⟩)

/-- Bytes in. -/
def receive (name : Callback) (f : Receive σ) (rxLen : ℕ) : BusM σ (List UInt8) := fun w =>
  let r := f w.env rxLen
  (r.2.toList, ⟨r.1, w.transfers ++ [⟨name, [], r.2.toList⟩]⟩)

/-- A wait is not a transfer. -/
def delay (f : Delay σ) (ms : UInt16) : BusM σ Unit := fun w => ((), ⟨f w.env ms, w.transfers⟩)

section Run

variable {α : Type} (name : Callback) (tx : List UInt8) (rxLen : ℕ) (w : World σ)

@[simp] theorem exchange_bind (f : Exchange σ) (k : List UInt8 → BusM σ α) :
    (exchange name f tx rxLen >>= k) w
      = k (f w.env tx rxLen).2.toList
          ⟨(f w.env tx rxLen).1, w.transfers ++ [⟨name, tx, (f w.env tx rxLen).2.toList⟩]⟩ := rfl

@[simp] theorem send_bind (f : Send σ) (k : Unit → BusM σ α) :
    (send name f tx >>= k) w = k () ⟨f w.env tx, w.transfers ++ [⟨name, tx, []⟩]⟩ := rfl

@[simp] theorem receive_bind (f : Receive σ) (k : List UInt8 → BusM σ α) :
    (receive name f rxLen >>= k) w
      = k (f w.env rxLen).2.toList
          ⟨(f w.env rxLen).1, w.transfers ++ [⟨name, [], (f w.env rxLen).2.toList⟩]⟩ := rfl

@[simp] theorem delay_bind (f : Delay σ) (ms : UInt16) (k : Unit → BusM σ α) :
    (delay f ms >>= k) w = k () ⟨f w.env ms, w.transfers⟩ := rfl

@[simp] theorem pure_run (a : α) : (pure a : BusM σ α) w = (a, w) := rfl

@[simp] theorem World.received_nil (env : σ) : World.received ⟨env, []⟩ = [] := rfl

/-- The bytes of the first transfer come before those of the others. -/
@[simp] theorem World.received_cons (env : σ) (t : Transfer) (ts : List Transfer) :
    World.received ⟨env, t :: ts⟩ = t.rx ++ World.received ⟨env, ts⟩ := rfl

end Run

/-! ## The checks a routine begins with -/

/-- A routine that works on a driver struct: it returns `EEMPTY` at once on a null struct or a null
callback, and otherwise runs on the struct and the routines its pointers lead to. -/
def checked {D C : Type} (callbacks : D → Option C) (body : D → C → BusM σ (ReturnCode × D)) :
    Option D → BusM σ (ReturnCode × Option D)
  | none => pure (ReturnCode.EEMPTY, none)
  | some d =>
      match callbacks d with
      | none => pure (ReturnCode.EEMPTY, some d)
      | some c => do
          let (code, d) ← body d c
          pure (code, some d)

section Checked

variable {D C : Type} {callbacks : D → Option C} (body : D → C → BusM σ (ReturnCode × D)) {d : D}

/-- **A null callback**: nothing is transferred and nothing is changed. -/
theorem checked_of_eq_none (h : callbacks d = none) (w : World σ) :
    checked callbacks body (some d) w = ((ReturnCode.EEMPTY, some d), w) := by
  rw [checked, h]
  rfl

theorem checked_of_eq_some {c : C} (h : callbacks d = some c) (w : World σ) :
    checked callbacks body (some d) w
      = (((body d c w).1.1, some (body d c w).1.2), (body d c w).2) := by
  rw [checked, h]
  rfl

end Checked

end HardwareDriver

end EmbeddedMCU

import EmbeddedMCU.HardwareDriver.Bmi088
import EmbeddedMCU.HardwareDriver.Ist8310
import EmbeddedMCU.Machinery.Script

/-!
# HardwareDriver/RegisterLog — what a log of transfers says about the registers

    transfers  ──▸  accesses, one each  ──history──▸  the reads and writes of one register

A sensor is configured when its chip ID was right at the last look and each register of its table
was written once and read back (`Initialised`).  What an initialisation asks for, in order, is a
script of steps; a step is confirmed by an access or failed by it.
-/

namespace EmbeddedMCU

namespace HardwareDriver

variable {σ : Type}

/-! ## Accesses -/

/-- The sensors, each with registers of its own. -/
inductive Device
  | accel
  | gyro
  | magne
  deriving DecidableEq

/-- What is done to a register. -/
inductive Act
  | select
  | read (value : UInt8)
  | write (value : UInt8)
  deriving DecidableEq

/-- An access to a register. -/
structure Access where
  device : Device
  reg : UInt8
  act : Act
  deriving DecidableEq

/-- A register that is addressed with seven bits. -/
def Addressable (reg : UInt8) : Prop := reg &&& 0x7f = reg

instance (reg : UInt8) : Decidable (Addressable reg) := inferInstanceAs (Decidable (_ = _))

/-- The read bit does not change the address. -/
theorem Addressable.readBit {reg : UInt8} (h : Addressable reg) :
    (reg ||| 0x80) &&& 0x7f = reg := by
  have hbits : (0x80 : UInt8).toNat &&& (0x7f : UInt8).toNat = 0 := by decide
  rw [← UInt8.toNat_inj, UInt8.toNat_and, UInt8.toNat_or, Nat.and_or_distrib_right, hbits,
    Nat.or_zero, ← UInt8.toNat_and, h]

/-- A transfer of the BMI088: the register with the read bit, and the data to be written if any; the
accelerometer answers a read behind a dummy byte. -/
def bmi088Access (t : Transfer) : Access :=
  let device := if t.callback = .gryoDataTransfer then Device.gyro else Device.accel
  match t.tx with
  | [] => ⟨device, 0, .select⟩
  | [b] => ⟨device, b &&& 0x7f, .read (if device = .gyro then t.rx.getD 0 0 else t.rx.getD 1 0)⟩
  | b :: data :: _ => ⟨device, b &&& 0x7f, .write data⟩

/-- The transfers of the IST8310, from the register selected before: one byte sent selects a
register, two write one, and what is received is the selected one. -/
def ist8310Accesses : UInt8 → List Transfer → List Access
  | _, [] => []
  | selected, t :: ts =>
      match t.tx with
      | [] => ⟨.magne, selected, .read (t.rx.getD 0 0)⟩ :: ist8310Accesses selected ts
      | [reg] => ⟨.magne, reg, .select⟩ :: ist8310Accesses reg ts
      | reg :: data :: _ => ⟨.magne, reg, .write data⟩ :: ist8310Accesses reg ts

/-- **The history of a register**: how it was read and written, in order. -/
def history (device : Device) (reg : UInt8) (log : List Access) : List Access :=
  log.filter fun a => a.device = device ∧ a.reg = reg ∧ a.act ≠ .select

/-- **A sensor is initialised** when the last reading of its chip ID was right, and each register of
its table was written once and then read back. -/
structure Initialised (device : Device) (idReg id : UInt8) (table : List RegDataError)
    (log : List Access) : Prop where
  chipId : (history device idReg log).getLast? = some ⟨device, idReg, .read id⟩
  readBack : ∀ row ∈ table, history device row.reg log
    = [⟨device, row.reg, .write row.data⟩, ⟨device, row.reg, .read row.data⟩]

/-! ## Steps -/

/-- What a step expects of the access. -/
inductive Expect
  | select
  | read (value : Option UInt8)
  | write (value : UInt8)
  deriving DecidableEq

/-- A step of an initialisation. -/
structure Step where
  device : Device
  reg : UInt8
  expect : Expect
  deriving DecidableEq

/-- The access is the one asked for, and as expected. -/
inductive Confirmed : Step → Access → Prop
  | select (device : Device) (reg : UInt8) : Confirmed ⟨device, reg, .select⟩ ⟨device, reg, .select⟩
  | unchecked (device : Device) (reg v : UInt8) :
      Confirmed ⟨device, reg, .read none⟩ ⟨device, reg, .read v⟩
  | checked (device : Device) (reg v : UInt8) :
      Confirmed ⟨device, reg, .read (some v)⟩ ⟨device, reg, .read v⟩
  | write (device : Device) (reg v : UInt8) :
      Confirmed ⟨device, reg, .write v⟩ ⟨device, reg, .write v⟩

/-- The access is the read asked for, of another value. -/
inductive Failed : Step → Access → Prop
  | read (device : Device) (reg : UInt8) {v expected : UInt8} (h : v ≠ expected) :
      Failed ⟨device, reg, .read (some expected)⟩ ⟨device, reg, .read v⟩

/-- The steps that look at a value. -/
def Step.isCheck (step : Step) : Bool :=
  match step.expect with
  | .read (some _) => true
  | _ => false

/-- The steps of a script that read or write a register. -/
def planned (device : Device) (reg : UInt8) (script : List Step) : List Step :=
  script.filter fun s => s.device = device ∧ s.reg = reg ∧ s.expect ≠ .select

/-- The checks of a sensor: of its chip ID, and of the registers of its table. -/
def checks (device : Device) (idReg id : UInt8) (table : List RegDataError) : List Step :=
  ⟨device, idReg, .read (some id)⟩
    :: table.map fun row => ⟨device, row.reg, .read (some row.data)⟩

/-- **A script initialises a sensor**: it ends its dealings with the chip ID by a check, and writes
each register of the table once, and checks it. -/
structure Plan (device : Device) (idReg id : UInt8) (table : List RegDataError)
    (script : List Step) : Prop where
  chipId : (planned device idReg script).getLast? = some ⟨device, idReg, .read (some id)⟩
  readBack : ∀ row ∈ table, planned device row.reg script
    = [⟨device, row.reg, .write row.data⟩, ⟨device, row.reg, .read (some row.data)⟩]

/-! ## A confirmed script -/

/-- The history of a register confirms what was planned for it. -/
theorem forall₂_history {script : List Step} {log : List Access}
    (h : List.Forall₂ Confirmed script log) (device : Device) (reg : UInt8) :
    List.Forall₂ Confirmed (planned device reg script) (history device reg log) := by
  refine List.rel_filter (fun s a hsa => ?_) h
  cases hsa <;> simp

/-- **A confirmed script initialises the sensor.** -/
theorem Plan.initialised {device : Device} {idReg id : UInt8} {table : List RegDataError}
    {script : List Step} (hp : Plan device idReg id table script) {log : List Access}
    (h : List.Forall₂ Confirmed script log) : Initialised device idReg id table log := by
  constructor
  · obtain ⟨before, hbefore⟩ := List.getLast?_eq_some_iff.mp hp.chipId
    have hhist := forall₂_history h device idReg
    rw [hbefore, ← List.forall₂_reverse_iff, List.reverse_concat,
      List.forall₂_cons_left_iff] at hhist
    obtain ⟨a, rest, ha, -, hrev⟩ := hhist
    cases ha
    rw [← List.head?_reverse, hrev]
    rfl
  · intro row hrow
    have hhist := forall₂_history h device row.reg
    rw [hp.readBack row hrow] at hhist
    generalize history device row.reg log = hist at hhist ⊢
    obtain _ | ⟨hwrite, _ | ⟨hread, hnil⟩⟩ := hhist
    cases hnil
    cases hwrite
    cases hread
    rfl

theorem history_concat (device : Device) (reg v : UInt8) (acc : List Access) :
    history device reg (acc ++ [⟨device, reg, .read v⟩])
      = history device reg acc ++ [⟨device, reg, .read v⟩] := by
  rw [history, List.filter_append, List.filter_cons_of_pos (by simp), List.filter_nil]
  rfl

/-- **A failed check leaves a sensor that is not initialised**: its register was last read with
another value. -/
theorem not_initialised_of_failed {device : Device} {idReg id : UInt8} {table : List RegDataError}
    {q : Step} {r : Access} (hbad : Failed q r) (hq : q ∈ checks device idReg id table)
    (acc : List Access) : ¬ Initialised device idReg id table (acc ++ [r]) := by
  intro h
  cases hbad with
  | read dev reg hne =>
    rw [checks, List.mem_cons, List.mem_map] at hq
    obtain hq | ⟨row, hrow, hq⟩ := hq
    · cases hq
      have hlast := h.chipId
      rw [history_concat, List.getLast?_concat] at hlast
      cases hlast
      exact hne rfl
    · cases hq
      have hlast := congrArg List.getLast? (h.readBack row hrow)
      rw [history_concat, List.getLast?_concat] at hlast
      cases hlast
      exact hne rfl

end HardwareDriver

end EmbeddedMCU

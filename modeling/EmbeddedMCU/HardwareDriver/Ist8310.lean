import EmbeddedMCU.HardwareDriver.RegisterTable
import EmbeddedMCU.Machinery.Bytes
import Mathlib.Data.Rat.Defs

/-!
# HardwareDriver/Ist8310 — the magnetometer
-/

namespace EmbeddedMCU

namespace HardwareDriver

variable {σ : Type}

/-- `IST8310`, a pointer being `none` when it is null. -/
structure IST8310 (σ : Type) where
  /-- uT -/
  magne : Vector ℚ 3
  /-- Raw data. -/
  temperature : UInt16
  magneDataReadData : Option (Receive σ)
  magneDataWriteData : Option (Send σ)
  delayMs : Option (Delay σ)

namespace IST8310

/-- The routines the pointers lead to. -/
structure Callbacks (σ : Type) where
  magneDataReadData : Receive σ
  magneDataWriteData : Send σ
  delayMs : Delay σ

/-- The pointers, when none of them is null. -/
def callbacks (d : IST8310 σ) : Option (Callbacks σ) := do
  let delayMs ← d.delayMs
  let magneDataReadData ← d.magneDataReadData
  let magneDataWriteData ← d.magneDataWriteData
  some ⟨magneDataReadData, magneDataWriteData, delayMs⟩

/-- One of the pointers is null. -/
def HasNull (d : IST8310 σ) : Prop :=
  d.delayMs = none ∨ d.magneDataReadData = none ∨ d.magneDataWriteData = none

theorem callbacks_eq_none_iff (d : IST8310 σ) : d.callbacks = none ↔ d.HasNull := by
  obtain ⟨magne, temperature, _ | _, _ | _, _ | _⟩ := d <;> simp [callbacks, HasNull]

end IST8310

/-! ## Registers -/

/-- `IST8310_R_XL` -/
def ist8310RXL : UInt8 := 0x03
/-- `IST8310_AVGCNTL` -/
def ist8310Avgcntl : UInt8 := 0x41

/-- `IST8310_CHIP_ID` -/
def ist8310ChipId : UInt8 := 0x00
/-- `IST8310_CHIP_ID_VALUE` -/
def ist8310ChipIdValue : UInt8 := 0x10

/-- `ist8310_write_reg_data_error`: the interrupt, its pin low when active, and 200 Hz. -/
def ist8310WriteRegDataError : List RegDataError :=
  [⟨0x0B, 0x08, 0x01⟩,
   ⟨0x0A, 0x0B, 0x04⟩]

/-! ## Initialisation -/

section Init

variable (c : IST8310.Callbacks σ)

/-- A register of the table is written in one message, -/
def ist8310WriteReg (reg data : UInt8) : BusM σ Unit :=
  send .magneDataWriteData c.magneDataWriteData [reg, data]

/-- …and read back in two. -/
def ist8310ReadReg (reg : UInt8) : BusM σ UInt8 := do
  send .magneDataWriteData c.magneDataWriteData [reg]
  let rxBuf ← receive .magneDataReadData c.magneDataReadData 1
  pure (rxBuf.getD 0 0)

/-- The chip ID is read in two as well, with a wait in between. -/
def ist8310ReadChipId (reg : UInt8) : BusM σ UInt8 := do
  send .magneDataWriteData c.magneDataWriteData [reg]
  delay c.delayMs 1
  let rxBuf ← receive .magneDataReadData c.magneDataReadData 1
  pure (rxBuf.getD 0 0)

/-- The loop of `IST8310Init`, whose rows come with an error code that is not used. -/
def ist8310Config : BusM σ Report :=
  configure (ist8310WriteReg c) (ist8310ReadReg c) (pure ())
    (fun _ => ⟨ReturnCode.EERROR, ["set magne config is failed!!!\n"]⟩) ist8310WriteRegDataError

end Init

/-- `IST8310Init` -/
def ist8310Init : Option (IST8310 σ) → BusM σ Report :=
  initialise IST8310.callbacks fun c => do
    delay c.delayMs 10
    let res ← ist8310ReadChipId c ist8310ChipId
    if res ≠ ist8310ChipIdValue then
      pure ⟨ReturnCode.EERROR, ["magne chip ID error!!!\n"]⟩
    else ist8310Config c

/-! ## Reading -/

/-- `IST8310ReadMagne` -/
def ist8310ReadMagne : Option (IST8310 σ) → BusM σ (ReturnCode × Option (IST8310 σ)) :=
  checked IST8310.callbacks fun d c => do
    send .magneDataWriteData c.magneDataWriteData [ist8310RXL]
    delay c.delayMs 1
    let rxBuf ← receive .magneDataReadData c.magneDataReadData 6
    let magne := memcpy (List.replicate 6 0) rxBuf 6
    pure (ReturnCode.EOK,
      { d with magne := Vector.ofFn fun i => (loadInt16 magne i).toInt * 1600.0 / 32768.0 })

/-- `IST8310ReadTemp`: the copy goes from the struct to the buffer, and the buffer is dropped. -/
def ist8310ReadTemp : Option (IST8310 σ) → BusM σ (ReturnCode × Option (IST8310 σ)) :=
  checked IST8310.callbacks fun d c => do
    send .magneDataWriteData c.magneDataWriteData [ist8310Avgcntl]
    let rxBuf ← receive .magneDataReadData c.magneDataReadData 2
    let _rxBuf := memcpy rxBuf (storeUInt16 d.temperature) 2
    pure (ReturnCode.EOK, d)

end HardwareDriver

end EmbeddedMCU

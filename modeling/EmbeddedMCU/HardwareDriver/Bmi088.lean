import EmbeddedMCU.HardwareDriver.RegisterTable
import EmbeddedMCU.Machinery.Bytes
import EmbeddedMCU.Machinery.Fmod
import Mathlib.Data.Rat.Floor

/-!
# HardwareDriver/Bmi088 — the inertial sensor

Two sensors behind two callbacks.  The accelerometer answers with a dummy byte first, the gyroscope
does not.
-/

namespace EmbeddedMCU

namespace HardwareDriver

variable {σ : Type}

/-- `BMI088`, a pointer being `none` when it is null. -/
structure BMI088 (σ : Type) where
  /-- mg -/
  accel : Vector ℚ 3
  /-- °/s -/
  gyro : Vector ℚ 3
  /-- °C -/
  temperature : ℚ
  acceDataTransfer : Option (Exchange σ)
  gryoDataTransfer : Option (Exchange σ)
  delayMs : Option (Delay σ)

namespace BMI088

/-- The routines the pointers lead to. -/
structure Callbacks (σ : Type) where
  acceDataTransfer : Exchange σ
  gryoDataTransfer : Exchange σ
  delayMs : Delay σ

/-- The pointers, when none of them is null. -/
def callbacks (d : BMI088 σ) : Option (Callbacks σ) := do
  let acceDataTransfer ← d.acceDataTransfer
  let gryoDataTransfer ← d.gryoDataTransfer
  let delayMs ← d.delayMs
  some ⟨acceDataTransfer, gryoDataTransfer, delayMs⟩

/-- One of the pointers is null. -/
def HasNull (d : BMI088 σ) : Prop :=
  d.acceDataTransfer = none ∨ d.gryoDataTransfer = none ∨ d.delayMs = none

theorem callbacks_eq_none_iff (d : BMI088 σ) : d.callbacks = none ↔ d.HasNull := by
  obtain ⟨accel, gyro, temperature, _ | _, _ | _, _ | _⟩ := d <;> simp [callbacks, HasNull]

end BMI088

/-! ## Registers -/

/-- `BMI088_ACCEL_XOUT_L` -/
def bmi088AccelXoutL : UInt8 := 0x12
/-- `BMI088_GYRO_X_L` -/
def bmi088GyroXL : UInt8 := 0x02
/-- `BMI088_TEMP_M` -/
def bmi088TempM : UInt8 := 0x22
/-- `BMI088_ACC_RANGE_3G` -/
def bmi088AccRange3G : ℕ := 0x0

/-- `BMI088_ACC_CHIP_ID` -/
def bmi088AccChipId : UInt8 := 0x00
/-- `BMI088_ACC_CHIP_ID_VALUE` -/
def bmi088AccChipIdValue : UInt8 := 0x1E
/-- `BMI088_GYRO_CHIP_ID` -/
def bmi088GyroChipId : UInt8 := 0x00
/-- `BMI088_GYRO_CHIP_ID_VALUE` -/
def bmi088GyroChipIdValue : UInt8 := 0x0F
/-- `BMI088_ACC_SOFTRESET` -/
def bmi088AccSoftreset : UInt8 := 0x7E
/-- `BMI088_ACC_SOFTRESET_VALUE` -/
def bmi088AccSoftresetValue : UInt8 := 0xB6
/-- `BMI088_GYRO_SOFTRESET` -/
def bmi088GyroSoftreset : UInt8 := 0x14
/-- `BMI088_GYRO_SOFTRESET_VALUE` -/
def bmi088GyroSoftresetValue : UInt8 := 0xB6

/-- `g_write_bmi088_accel_reg_data_error`, its data put together from the fields of the register:
the accelerometer on, active, 1600 Hz, its range, the pin INT1, data ready on it. -/
def bmi088AccelRegDataError : List RegDataError :=
  [⟨0x7D, 0x04, 0x01⟩,
   ⟨0x7C, 0x00, 0x02⟩,
   ⟨0x40, .ofNat (0x8 <<< 0x4 ||| 0xC <<< 0x0 ||| 0x80), 0x03⟩,
   ⟨0x41, .ofNat bmi088AccRange3G, 0x05⟩,
   ⟨0x53, .ofNat (0x1 <<< 0x3 ||| 0x0 <<< 0x2 ||| 0x0 <<< 0x1), 0x06⟩,
   ⟨0x58, .ofNat (0x1 <<< 0x2), 0x07⟩]

/-- `g_write_BMI088_gyro_reg_data_error`: 2000 °/s, 100 Hz, normal mode, the data ready interrupt,
the pin INT3, data ready on it. -/
def bmi088GyroRegDataError : List RegDataError :=
  [⟨0x0F, .ofNat (0x0 <<< 0x0), 0x08⟩,
   ⟨0x10, 0x07 ||| 0x80, 0x09⟩,
   ⟨0x11, 0x00, 0x0A⟩,
   ⟨0x15, 0x80, 0x0B⟩,
   ⟨0x16, .ofNat (0x0 <<< 0x1 ||| 0x0 <<< 0x0), 0x0C⟩,
   ⟨0x18, 0x01, 0x0D⟩]

/-! ## Single registers -/

section SingleReg

variable (c : BMI088.Callbacks σ)

/-- `Bmi088AccelReadSingleReg`, behind the dummy byte. -/
def bmi088AccelReadSingleReg (reg : UInt8) : BusM σ UInt8 := do
  let tempData ← exchange .acceDataTransfer c.acceDataTransfer [reg ||| 0x80] 2
  pure (tempData.getD 1 0)

/-- `Bmi088AccelWriteSingleReg` -/
def bmi088AccelWriteSingleReg (reg data : UInt8) : BusM σ Unit := do
  let _tempData ← exchange .acceDataTransfer c.acceDataTransfer [reg &&& 0x7f, data] 0

/-- `Bmi088GryoReadSingleReg`, without a dummy byte. -/
def bmi088GryoReadSingleReg (reg : UInt8) : BusM σ UInt8 := do
  let tempData ← exchange .gryoDataTransfer c.gryoDataTransfer [reg ||| 0x80] 1
  pure (tempData.getD 0 0)

/-- `Bmi088GryoWriteSingleReg` -/
def bmi088GryoWriteSingleReg (reg data : UInt8) : BusM σ Unit := do
  let _tempData ← exchange .gryoDataTransfer c.gryoDataTransfer [reg &&& 0x7f, data] 0

/-! ## Initialisation -/

/-- `Bmi088AccelInit`: of the three chip IDs only the last is looked at. -/
def bmi088AccelInit : BusM σ Report := do
  let _res ← bmi088AccelReadSingleReg c bmi088AccChipId
  delay c.delayMs 1
  bmi088AccelWriteSingleReg c bmi088AccSoftreset bmi088AccSoftresetValue
  delay c.delayMs 1
  let _res ← bmi088AccelReadSingleReg c bmi088AccChipId
  delay c.delayMs 1
  let res ← bmi088AccelReadSingleReg c bmi088AccChipId
  delay c.delayMs 1
  if res ≠ bmi088AccChipIdValue then pure ⟨ReturnCode.EERROR, ["accel chip ID error!!!\n"]⟩
  else pure ⟨ReturnCode.EOK, []⟩

/-- `Bmi088GryoInit` -/
def bmi088GryoInit : BusM σ Report := do
  bmi088GryoWriteSingleReg c bmi088GyroSoftreset bmi088GyroSoftresetValue
  delay c.delayMs 1
  let _res ← bmi088GryoReadSingleReg c bmi088GyroChipId
  delay c.delayMs 1
  let res ← bmi088GryoReadSingleReg c bmi088GyroChipId
  delay c.delayMs 1
  if res ≠ bmi088GyroChipIdValue then pure ⟨ReturnCode.EERROR, ["gyro chip ID error!!!\n"]⟩
  else pure ⟨ReturnCode.EOK, []⟩

/-- `Bmi088AccelConfig` -/
def bmi088AccelConfig : BusM σ Report :=
  configure (bmi088AccelWriteSingleReg c) (bmi088AccelReadSingleReg c) (delay c.delayMs 1)
    (fun row => ⟨row.error, ["set accel config is failed!!!\n"]⟩) bmi088AccelRegDataError

/-- `Bmi088GryoConfig` -/
def bmi088GryoConfig : BusM σ Report :=
  configure (bmi088GryoWriteSingleReg c) (bmi088GryoReadSingleReg c) (delay c.delayMs 1)
    (fun row => ⟨row.error, ["set gryo config is failed!!!\n"]⟩) bmi088GyroRegDataError

end SingleReg

/-- `Bmi088Init` -/
def bmi088Init : Option (BMI088 σ) → BusM σ Report :=
  initialise BMI088.callbacks fun c =>
    orError (bmi088AccelInit c) <|
    orError (bmi088AccelConfig c) <|
    orError (bmi088GryoInit c) <|
    orError (bmi088GryoConfig c) <|
    pure ⟨ReturnCode.EOK, []⟩

/-! ## Reading -/

/-- `Bmi088ReadAccel` -/
def bmi088ReadAccel : Option (BMI088 σ) → BusM σ (ReturnCode × Option (BMI088 σ)) :=
  checked BMI088.callbacks fun d c => do
    let dataBuf ← exchange .acceDataTransfer c.acceDataTransfer [bmi088AccelXoutL ||| 0x80] 7
    let accel := memcpy (List.replicate 6 0) (dataBuf.drop 1) 6
    pure (ReturnCode.EOK,
      { d with
        accel := Vector.ofFn fun i =>
          (loadInt16 accel i).toInt / 32768.0 * 1000 * 2 ^ (bmi088AccRange3G + 1) * 1.5 })

/-- The `temp_int` of `Bmi088ReadTemp`, from the last two bytes of `data_buf`. -/
def tempIntOf (b1 b2 : UInt8) : Int16 :=
  let tempUint := UInt16.ofInt (ctrunc (b1.toNat * 8 + b2.toNat / 32.0 : ℚ))
  if tempUint > 1023 then Int16.ofInt (tempUint.toNat - 2048) else Int16.ofInt tempUint.toNat

/-- `Bmi088ReadTemp` -/
def bmi088ReadTemp : Option (BMI088 σ) → BusM σ (ReturnCode × Option (BMI088 σ)) :=
  checked BMI088.callbacks fun d c => do
    let dataBuf ← exchange .acceDataTransfer c.acceDataTransfer [bmi088TempM ||| 0x80] 3
    let tempInt := tempIntOf (dataBuf.getD 1 0) (dataBuf.getD 2 0)
    pure (ReturnCode.EOK, { d with temperature := tempInt.toInt * 0.125 + 23 })

/-- `Bmi088ReadGryo` -/
def bmi088ReadGryo : Option (BMI088 σ) → BusM σ (ReturnCode × Option (BMI088 σ)) :=
  checked BMI088.callbacks fun d c => do
    let dataBuf ← exchange .gryoDataTransfer c.gryoDataTransfer [bmi088GyroXL ||| 0x80] 6
    let gyro := memcpy (List.replicate 6 0) dataBuf 6
    pure (ReturnCode.EOK,
      { d with gyro := Vector.ofFn fun i => (loadInt16 gyro i).toInt / 32767.0 * 2000 })

end HardwareDriver

end EmbeddedMCU

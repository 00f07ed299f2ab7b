import EmbeddedMCU.HardwareDriver.RegisterLog

/-!
# HardwareDriver/RegisterFile — a sensor that is a plain register file

What is written is stored, what is read is what is stored, the chip ID is right, and a soft reset
clears the rest.  Against such a sensor every check succeeds, so an initialisation is a function of
the registers (`Yields`): a reset, and one update for each row of its table.
-/

namespace EmbeddedMCU

namespace HardwareDriver

variable {σ : Type}

/-! ## Registers -/

/-- The registers of all sensors. -/
abbrev Registers := Device → UInt8 → UInt8

namespace Registers

/-- A register, written. -/
def set (f : Registers) (device : Device) (reg data : UInt8) : Registers :=
  fun d r => if d = device ∧ r = reg then data else f d r

/-- The registers of a sensor, cleared, but for one. -/
def clear (f : Registers) (device : Device) (kept : UInt8) : Registers :=
  fun d r => if d = device ∧ r ≠ kept then 0 else f d r

/-- The registers of a table, written. -/
def setTable (f : Registers) (device : Device) (table : List RegDataError) : Registers :=
  table.foldl (fun f row => f.set device row.reg row.data) f

@[simp] theorem set_self (f : Registers) (device : Device) (reg data : UInt8) :
    f.set device reg data device reg = data := if_pos ⟨rfl, rfl⟩

theorem set_of_reg_ne (f : Registers) (device : Device) {reg r : UInt8} (h : r ≠ reg)
    (data : UInt8) : f.set device reg data device r = f device r := if_neg fun hr => h hr.2

theorem set_of_device_ne (f : Registers) {device d : Device} (h : d ≠ device) (reg data : UInt8) :
    f.set device reg data d = f d := funext fun _ => if_neg fun hd => h hd.1

theorem clear_of_device_ne (f : Registers) {device d : Device} (h : d ≠ device) (kept : UInt8) :
    f.clear device kept d = f d := funext fun _ => if_neg fun hd => h hd.1

theorem setTable_of_device_ne (f : Registers) {device d : Device} (h : d ≠ device)
    (table : List RegDataError) : f.setTable device table d = f d := by
  induction table generalizing f with
  | nil => rfl
  | cons row rows ih => exact (ih _).trans (set_of_device_ne f h _ _)

theorem setTable_of_not_mem (f : Registers) (device : Device) {table : List RegDataError}
    {r : UInt8} (h : ∀ row ∈ table, r ≠ row.reg) :
    f.setTable device table device r = f device r := by
  induction table generalizing f with
  | nil => rfl
  | cons row rows ih =>
    obtain ⟨hrow, hrows⟩ := List.forall_mem_cons.mp h
    exact (ih _ hrows).trans (set_of_reg_ne f device hrow _)

/-- **Every register of a table holds its value**, no later row writing it again. -/
theorem setTable_of_mem (f : Registers) (device : Device) {table : List RegDataError}
    (hdistinct : table.Pairwise fun row row' => row.reg ≠ row'.reg) {row : RegDataError}
    (h : row ∈ table) : f.setTable device table device row.reg = row.data := by
  induction table generalizing f with
  | nil => cases h
  | cons row' rows ih =>
    obtain ⟨hfirst, hrest⟩ := List.pairwise_cons.mp hdistinct
    obtain rfl | hmem := List.mem_cons.mp h
    · exact (setTable_of_not_mem _ device fun r hr => hfirst r hr).trans (set_self f device _ _)
    · exact ih _ hrest hmem

end Registers

/-! ## The laws -/

/-- **The BMI088 as a plain register file**, whatever its dummy bytes are. -/
structure BMI088.RegisterFile (c : BMI088.Callbacks σ) (regs : σ → Registers) : Prop where
  accel_read : ∀ s reg, Addressable reg →
    (c.acceDataTransfer s [reg ||| 0x80] 2).2.toList.getD 1 0 = regs s .accel reg
      ∧ regs (c.acceDataTransfer s [reg ||| 0x80] 2).1 = regs s
  gyro_read : ∀ s reg, Addressable reg →
    (c.gryoDataTransfer s [reg ||| 0x80] 1).2.toList.getD 0 0 = regs s .gyro reg
      ∧ regs (c.gryoDataTransfer s [reg ||| 0x80] 1).1 = regs s
  accel_write : ∀ s reg data, Addressable reg → reg ≠ bmi088AccChipId → reg ≠ bmi088AccSoftreset →
    regs (c.acceDataTransfer s [reg, data] 0).1 = (regs s).set .accel reg data
  gyro_write : ∀ s reg data, Addressable reg → reg ≠ bmi088GyroChipId → reg ≠ bmi088GyroSoftreset →
    regs (c.gryoDataTransfer s [reg, data] 0).1 = (regs s).set .gyro reg data
  accel_reset : ∀ s, regs (c.acceDataTransfer s [bmi088AccSoftreset, bmi088AccSoftresetValue] 0).1
    = (regs s).clear .accel bmi088AccChipId
  gyro_reset : ∀ s, regs (c.gryoDataTransfer s [bmi088GyroSoftreset, bmi088GyroSoftresetValue] 0).1
    = (regs s).clear .gyro bmi088GyroChipId
  delay : ∀ s ms, regs (c.delayMs s ms) = regs s
  accel_chipId : ∀ s, regs s .accel bmi088AccChipId = bmi088AccChipIdValue
  gyro_chipId : ∀ s, regs s .gyro bmi088GyroChipId = bmi088GyroChipIdValue

/-- **The IST8310 as a plain register file**, which answers with the register selected before. -/
structure IST8310.RegisterFile (c : IST8310.Callbacks σ) (regs : σ → Registers)
    (selected : σ → UInt8) : Prop where
  select : ∀ s reg, regs (c.magneDataWriteData s [reg]) = regs s
    ∧ selected (c.magneDataWriteData s [reg]) = reg
  read : ∀ s, (c.magneDataReadData s 1).2.toList.getD 0 0 = regs s .magne (selected s)
    ∧ regs (c.magneDataReadData s 1).1 = regs s
  write : ∀ s reg data, reg ≠ ist8310ChipId →
    regs (c.magneDataWriteData s [reg, data]) = (regs s).set .magne reg data
  delay : ∀ s ms, regs (c.delayMs s ms) = regs s ∧ selected (c.delayMs s ms) = selected s
  chipId : ∀ s, regs s .magne ist8310ChipId = ist8310ChipIdValue

/-! ## Initialisations as functions of the registers -/

/-- A stage that returns `EOK`, and what it makes of the registers. -/
def Yields (regs : σ → Registers) (m : BusM σ Report) (f : Registers → Registers) : Prop :=
  ∀ w, (m w).1.code = ReturnCode.EOK ∧ regs (m w).2.env = f (regs w.env)

section Yields

variable {regs : σ → Registers}

theorem yields_ok : Yields regs (pure ⟨ReturnCode.EOK, []⟩) id := fun _ => ⟨rfl, rfl⟩

/-- A routine in front of a stage. -/
theorem yields_bind {α : Type} {m : BusM σ α} {next : BusM σ Report} {f g : Registers → Registers}
    (hm : ∀ w, regs (m w).2.env = g (regs w.env)) (hnext : Yields regs next f) :
    Yields regs (do let _ ← m; next) (f ∘ g) := by
  intro w
  obtain ⟨hcode, hregs⟩ := hnext (m w).2
  exact ⟨hcode, hregs.trans (congrArg f (hm w))⟩

/-- …that leaves the registers alone. -/
theorem yields_skip {α : Type} {m : BusM σ α} {next : BusM σ Report} {f : Registers → Registers}
    (hm : ∀ w, regs (m w).2.env = regs w.env) (hnext : Yields regs next f) :
    Yields regs (do let _ ← m; next) f :=
  yields_bind (g := id) hm hnext

theorem yields_orError {stage next : BusM σ Report} {f g : Registers → Registers}
    (hstage : Yields regs stage f) (hnext : Yields regs next g) :
    Yields regs (orError stage next) (g ∘ f) := by
  intro w
  obtain ⟨hcode, hregs⟩ := hstage w
  obtain ⟨hcode', hregs'⟩ := hnext (stage w).2
  have hrun : orError stage next w
      = (⟨(next (stage w).2).1.code, (stage w).1.output ++ (next (stage w).2).1.output⟩,
          (next (stage w).2).2) := by
    change (if (stage w).1.code ≠ 0 then pure _ else _ : BusM σ Report) (stage w).2 = _
    have hgo : ¬ (stage w).1.code ≠ 0 := not_not.mpr hcode
    rw [if_neg hgo]
    rfl
  rw [hrun]
  exact ⟨hcode', by rw [hregs', hregs]; rfl⟩

/-- **What the register routines of a sensor make of the registers.** -/
structure Serves (regs : σ → Registers) (device : Device) (writable : UInt8 → Prop)
    (write : UInt8 → UInt8 → BusM σ Unit) (read : UInt8 → BusM σ UInt8) (wait : BusM σ Unit) :
    Prop where
  write_regs : ∀ reg data, writable reg → ∀ w,
    regs (write reg data w).2.env = (regs w.env).set device reg data
  read_regs : ∀ reg, Addressable reg → ∀ w,
    (read reg w).1 = regs w.env device reg ∧ regs (read reg w).2.env = regs w.env
  wait_regs : ∀ w, regs (wait w).2.env = regs w.env

namespace Serves

variable {device : Device} {writable : UInt8 → Prop} {write : UInt8 → UInt8 → BusM σ Unit}
  {read : UInt8 → BusM σ UInt8} {wait : BusM σ Unit}

/-- **A check of what is stored succeeds.** -/
theorem check (h : Serves regs device writable write read wait) {reg expected : UInt8}
    (hreg : Addressable reg) (failure : Report) {next : BusM σ Report} {w : World σ}
    (hstored : regs w.env device reg = expected) {f : Registers → Registers}
    (hnext : Yields regs next f) :
    let r := (do let res ← read reg
                 wait
                 if res ≠ expected then pure failure else next : BusM σ Report) w
    r.1.code = ReturnCode.EOK ∧ regs r.2.env = f (regs w.env) := by
  intro r
  obtain ⟨hvalue, hregs⟩ := h.read_regs reg hreg w
  have hrun : r = next (wait (read reg w).2).2 := by
    change (if (read reg w).1 ≠ expected then pure failure else next : BusM σ Report) _ = _
    rw [if_neg (not_not.mpr (hvalue.trans hstored))]
  obtain ⟨hcode, hregs'⟩ := hnext (wait (read reg w).2).2
  rw [hrun, hcode, hregs', h.wait_regs, hregs]
  exact ⟨rfl, rfl⟩

/-- **The loop over a table writes the table.** -/
theorem configure (h : Serves regs device writable write read wait)
    (failed : RegDataError → Report) {rows : List RegDataError}
    (hrows : ∀ row ∈ rows, Addressable row.reg ∧ writable row.reg) :
    Yields regs (HardwareDriver.configure write read wait failed rows)
      fun f => f.setTable device rows := by
  induction rows with
  | nil => exact yields_ok
  | cons row rows ih =>
    obtain ⟨⟨hreg, hwritable⟩, hrest⟩ := List.forall_mem_cons.mp hrows
    intro w
    have hwritten : regs (wait (write row.reg row.data w).2).2.env
        = (regs w.env).set device row.reg row.data := by
      rw [h.wait_regs, h.write_regs _ _ hwritable]
    have hstored := congrFun (congrFun hwritten device) row.reg
    rw [Registers.set_self] at hstored
    obtain ⟨hcode, hregs⟩ := h.check hreg (failed row) hstored (ih hrest)
    refine ⟨hcode, hregs.trans ?_⟩
    rw [hwritten]
    rfl

end Serves

end Yields

/-! ## The two sensors -/

section Bmi088

variable {c : BMI088.Callbacks σ} {regs : σ → Registers} (h : BMI088.RegisterFile c regs)

include h

theorem accel_serves :
    Serves regs .accel
      (fun reg => Addressable reg ∧ reg ≠ bmi088AccChipId ∧ reg ≠ bmi088AccSoftreset)
      (bmi088AccelWriteSingleReg c) (bmi088AccelReadSingleReg c) (delay c.delayMs 1) := by
  refine ⟨fun reg data hreg w => ?_, fun reg hreg w => h.accel_read w.env reg hreg,
    fun w => h.delay w.env 1⟩
  obtain ⟨haddr, hchip, hreset⟩ := hreg
  change regs (c.acceDataTransfer w.env [reg &&& 0x7f, data] 0).1 = _
  rw [haddr]
  exact h.accel_write w.env reg data haddr hchip hreset

theorem gyro_serves :
    Serves regs .gyro
      (fun reg => Addressable reg ∧ reg ≠ bmi088GyroChipId ∧ reg ≠ bmi088GyroSoftreset)
      (bmi088GryoWriteSingleReg c) (bmi088GryoReadSingleReg c) (delay c.delayMs 1) := by
  refine ⟨fun reg data hreg w => ?_, fun reg hreg w => h.gyro_read w.env reg hreg,
    fun w => h.delay w.env 1⟩
  obtain ⟨haddr, hchip, hreset⟩ := hreg
  change regs (c.gryoDataTransfer w.env [reg &&& 0x7f, data] 0).1 = _
  rw [haddr]
  exact h.gyro_write w.env reg data haddr hchip hreset

theorem bmi088AccelInit_yields :
    Yields regs (bmi088AccelInit c) fun f => f.clear .accel bmi088AccChipId := by
  have hs := accel_serves h
  have hid : Addressable bmi088AccChipId := by decide
  have hread : ∀ w, regs (bmi088AccelReadSingleReg c bmi088AccChipId w).2.env = regs w.env :=
    fun w => (hs.read_regs _ hid w).2
  have hreset : ∀ w, regs (bmi088AccelWriteSingleReg c bmi088AccSoftreset bmi088AccSoftresetValue
      w).2.env = (regs w.env).clear .accel bmi088AccChipId := fun w => h.accel_reset w.env
  exact yields_skip hread <| yields_skip hs.wait_regs <| yields_bind hreset <|
    yields_skip hs.wait_regs <| yields_skip hread <| yields_skip hs.wait_regs <|
    fun w => hs.check hid _ (h.accel_chipId w.env) yields_ok

theorem bmi088GryoInit_yields :
    Yields regs (bmi088GryoInit c) fun f => f.clear .gyro bmi088GyroChipId := by
  have hs := gyro_serves h
  have hid : Addressable bmi088GyroChipId := by decide
  have hread : ∀ w, regs (bmi088GryoReadSingleReg c bmi088GyroChipId w).2.env = regs w.env :=
    fun w => (hs.read_regs _ hid w).2
  have hreset : ∀ w, regs (bmi088GryoWriteSingleReg c bmi088GyroSoftreset bmi088GyroSoftresetValue
      w).2.env = (regs w.env).clear .gyro bmi088GyroChipId := fun w => h.gyro_reset w.env
  exact yields_bind hreset <| yields_skip hs.wait_regs <| yields_skip hread <|
    yields_skip hs.wait_regs <| fun w => hs.check hid _ (h.gyro_chipId w.env) yields_ok

/-- **`Bmi088Init` configures a register file.** -/
theorem bmi088Init_configures {d : BMI088 σ} (hc : d.callbacks = some c) (env : σ) :
    let r := bmi088Init (some d) (World.start env)
    r.1.code = ReturnCode.EOK
      ∧ (∀ row ∈ bmi088AccelRegDataError, regs r.2.env .accel row.reg = row.data)
      ∧ ∀ row ∈ bmi088GyroRegDataError, regs r.2.env .gyro row.reg = row.data := by
  intro r
  have haccel : ∀ row ∈ bmi088AccelRegDataError, Addressable row.reg
      ∧ Addressable row.reg ∧ row.reg ≠ bmi088AccChipId ∧ row.reg ≠ bmi088AccSoftreset := by
    decide
  have hgyro : ∀ row ∈ bmi088GyroRegDataError, Addressable row.reg
      ∧ Addressable row.reg ∧ row.reg ≠ bmi088GyroChipId ∧ row.reg ≠ bmi088GyroSoftreset := by
    decide
  have hrun := yields_orError (bmi088AccelInit_yields h) <|
    yields_orError ((accel_serves h).configure
      (fun row => ⟨row.error, ["set accel config is failed!!!\n"]⟩) haccel) <|
    yields_orError (bmi088GryoInit_yields h) <|
    yields_orError ((gyro_serves h).configure
      (fun row => ⟨row.error, ["set gryo config is failed!!!\n"]⟩) hgyro) yields_ok
  have hinit : bmi088Init (some d) = _ := initialise_of_eq_some _ hc
  obtain ⟨hcode, hregs⟩ := hrun (World.start env)
  have hfinal : regs r.2.env = (((((regs env).clear .accel bmi088AccChipId).setTable .accel
      bmi088AccelRegDataError).clear .gyro bmi088GyroChipId).setTable .gyro
      bmi088GyroRegDataError) := by
    change regs (bmi088Init (some d) (World.start env)).2.env = _
    rw [hinit]
    exact hregs
  refine ⟨?_, fun row hrow => ?_, fun row hrow => ?_⟩
  · change (bmi088Init (some d) (World.start env)).1.code = _
    rw [hinit]
    exact hcode
  · rw [hfinal, Registers.setTable_of_device_ne _ (by decide),
      Registers.clear_of_device_ne _ (by decide),
      Registers.setTable_of_mem _ _ (by decide) hrow]
  · rw [hfinal, Registers.setTable_of_mem _ _ (by decide) hrow]

end Bmi088

section Ist8310

variable {c : IST8310.Callbacks σ} {regs : σ → Registers} {selected : σ → UInt8}
  (h : IST8310.RegisterFile c regs selected)

include h

/-- A register, selected and read. -/
theorem ist8310ReadReg_regs (reg : UInt8) (w : World σ) :
    (ist8310ReadReg c reg w).1 = regs w.env .magne reg
      ∧ regs (ist8310ReadReg c reg w).2.env = regs w.env := by
  obtain ⟨hregs, hselected⟩ := h.select w.env reg
  obtain ⟨hvalue, hregs'⟩ := h.read (c.magneDataWriteData w.env [reg])
  rw [hregs, hselected] at hvalue
  exact ⟨hvalue, hregs'.trans hregs⟩

/-- …with a wait in between. -/
theorem ist8310ReadChipId_regs (reg : UInt8) (w : World σ) :
    (ist8310ReadChipId c reg w).1 = regs w.env .magne reg
      ∧ regs (ist8310ReadChipId c reg w).2.env = regs w.env := by
  obtain ⟨hregs, hselected⟩ := h.select w.env reg
  obtain ⟨hwait, hwait'⟩ := h.delay (c.magneDataWriteData w.env [reg]) 1
  obtain ⟨hvalue, hregs'⟩ := h.read (c.delayMs (c.magneDataWriteData w.env [reg]) 1)
  rw [hwait, hwait', hregs, hselected] at hvalue
  exact ⟨hvalue, hregs'.trans (hwait.trans hregs)⟩

theorem ist8310_serves {read : UInt8 → BusM σ UInt8}
    (hread : ∀ reg w, (read reg w).1 = regs w.env .magne reg
      ∧ regs (read reg w).2.env = regs w.env) :
    Serves regs .magne (fun reg => reg ≠ ist8310ChipId) (ist8310WriteReg c) read (pure ()) :=
  ⟨fun reg data hreg w => h.write w.env reg data hreg, fun reg _ w => hread reg w, fun _ => rfl⟩

/-- **`IST8310Init` configures a register file.** -/
theorem ist8310Init_configures {d : IST8310 σ} (hc : d.callbacks = some c) (env : σ) :
    let r := ist8310Init (some d) (World.start env)
    r.1.code = ReturnCode.EOK
      ∧ ∀ row ∈ ist8310WriteRegDataError, regs r.2.env .magne row.reg = row.data := by
  intro r
  have hrows : ∀ row ∈ ist8310WriteRegDataError, Addressable row.reg
      ∧ row.reg ≠ ist8310ChipId := by decide
  have hrun : Yields regs (ist8310Init (some d))
      fun f => f.setTable .magne ist8310WriteRegDataError := by
    rw [ist8310Init, initialise_of_eq_some _ hc]
    exact yields_skip (fun w => (h.delay w.env 10).1) fun w =>
      (ist8310_serves h (ist8310ReadChipId_regs h)).check (by decide)
        ⟨ReturnCode.EERROR, ["magne chip ID error!!!\n"]⟩ (h.chipId w.env)
        ((ist8310_serves h (ist8310ReadReg_regs h)).configure
          (fun _ => ⟨ReturnCode.EERROR, ["set magne config is failed!!!\n"]⟩) hrows)
  obtain ⟨hcode, hregs⟩ := hrun (World.start env)
  refine ⟨hcode, fun row hrow => ?_⟩
  rw [hregs]
  exact Registers.setTable_of_mem _ _ (by decide) hrow

end Ist8310

/-! ## A register file -/

/-- The registers, with the chip IDs in their places. -/
def Registers.withChipIds (f : Registers) : Registers := fun device reg =>
  if reg = 0 then
    match device with
    | .accel => bmi088AccChipIdValue
    | .gyro => bmi088GyroChipIdValue
    | .magne => ist8310ChipIdValue
  else f device reg

theorem Registers.withChipIds_set (f : Registers) (device : Device) {reg : UInt8} (h : reg ≠ 0)
    (data : UInt8) : (f.set device reg data).withChipIds = f.withChipIds.set device reg data := by
  funext d r
  by_cases hr : r = 0
  · subst hr
    simp [withChipIds, set, h.symm]
  · simp [withChipIds, set, hr]

theorem Registers.withChipIds_clear (f : Registers) (device : Device) :
    (f.clear device 0).withChipIds = f.withChipIds.clear device 0 := by
  funext d r
  by_cases hr : r = 0
  · subst hr
    simp [withChipIds, clear]
  · simp [withChipIds, clear, hr]

/-- A sensor of the BMI088 over its registers: it repeats the register it is asked for. -/
def Registers.serve (device : Device) (softreset resetValue : UInt8) : Exchange Registers :=
  fun f tx rxLen =>
    match tx with
    | [] => (f, Vector.replicate rxLen 0)
    | [b] => (f, Vector.replicate rxLen (f.withChipIds device (b &&& 0x7f)))
    | b :: data :: _ =>
        (if b = softreset ∧ data = resetValue then f.clear device 0 else f.set device b data,
          Vector.replicate rxLen 0)

/-- The BMI088 over its registers. -/
def BMI088.ofRegisters : BMI088 Registers where
  accel := Vector.replicate 3 0
  gyro := Vector.replicate 3 0
  temperature := 0
  acceDataTransfer := some (Registers.serve .accel bmi088AccSoftreset bmi088AccSoftresetValue)
  gryoDataTransfer := some (Registers.serve .gyro bmi088GyroSoftreset bmi088GyroSoftresetValue)
  delayMs := some fun f _ => f

/-- The IST8310 over its registers and the one selected. -/
def IST8310.ofRegisters : IST8310 (Registers × UInt8) where
  magne := Vector.replicate 3 0
  temperature := 0
  magneDataReadData := some fun s rxLen =>
    (s, Vector.replicate rxLen (s.1.withChipIds .magne s.2))
  magneDataWriteData := some fun s tx =>
    (if tx.length = 1 then s.1 else s.1.set .magne (tx.getD 0 0) (tx.getD 1 0), tx.getD 0 0)
  delayMs := some fun s _ => s

theorem BMI088.ofRegisters_registerFile :
    ∃ c, BMI088.ofRegisters.callbacks = some c ∧ BMI088.RegisterFile c Registers.withChipIds := by
  refine ⟨_, rfl, ⟨fun f reg hreg => ?_, fun f reg hreg => ?_, fun f reg data _ hid hreset => ?_,
    fun f reg data _ hid hreset => ?_, fun f => ?_, fun f => ?_, fun _ _ => rfl, fun _ => rfl,
    fun _ => rfl⟩⟩
  · change (f.withChipIds .accel ((reg ||| 0x80) &&& 0x7f) = _) ∧ _
    rw [hreg.readBit]
    exact ⟨rfl, rfl⟩
  · change (f.withChipIds .gyro ((reg ||| 0x80) &&& 0x7f) = _) ∧ _
    rw [hreg.readBit]
    exact ⟨rfl, rfl⟩
  · change Registers.withChipIds (if _ then _ else f.set .accel reg data) = _
    rw [if_neg fun h => hreset h.1]
    exact Registers.withChipIds_set f .accel hid data
  · change Registers.withChipIds (if _ then _ else f.set .gyro reg data) = _
    rw [if_neg fun h => hreset h.1]
    exact Registers.withChipIds_set f .gyro hid data
  · exact Registers.withChipIds_clear f .accel
  · exact Registers.withChipIds_clear f .gyro

theorem IST8310.ofRegisters_registerFile :
    ∃ c, IST8310.ofRegisters.callbacks = some c
      ∧ IST8310.RegisterFile c (fun s => s.1.withChipIds) Prod.snd := by
  refine ⟨_, rfl, ⟨fun s reg => ⟨rfl, rfl⟩, fun s => ⟨rfl, rfl⟩, fun s reg data hid => ?_,
    fun s ms => ⟨rfl, rfl⟩, fun s => rfl⟩⟩
  exact Registers.withChipIds_set s.1 .magne hid data

end HardwareDriver

end EmbeddedMCU

import EmbeddedMCU.HardwareDriver.RegisterFile

/-!
# HardwareDriver/Initialisation — an initialisation follows its script

    Bmi088AccelInit   Bmi088AccelConfig   Bmi088GryoInit   Bmi088GryoConfig       IST8310Init
          └──────────────── orError, configure, a checked read ────────────────────────┘

Each part follows the script of its stage whatever the sensor answers, and so does the whole
(`follows_bmi088Init`, `follows_ist8310Init`): it returns `EOK` on a log confirmed throughout, and
otherwise its last transfer is the read that failed.
-/

namespace EmbeddedMCU

namespace HardwareDriver

variable {σ : Type}

/-! ## Scripts -/

/-- Only the magnetometer is read by selecting the register first. -/
def selects : Device → UInt8 → List Step
  | .magne, reg => [⟨.magne, reg, .select⟩]
  | _, _ => []

/-- The steps that read a register. -/
def readScript (device : Device) (reg : UInt8) (value : Option UInt8) : List Step :=
  selects device reg ++ [⟨device, reg, .read value⟩]

/-- The steps that configure the registers of a table. -/
def configScript (device : Device) (table : List RegDataError) : List Step :=
  table.flatMap fun row =>
    ⟨device, row.reg, .write row.data⟩ :: readScript device row.reg (some row.data)

/-- The steps of `Bmi088AccelInit`. -/
def bmi088AccelInitScript : List Step :=
  [⟨.accel, bmi088AccChipId, .read none⟩,
   ⟨.accel, bmi088AccSoftreset, .write bmi088AccSoftresetValue⟩,
   ⟨.accel, bmi088AccChipId, .read none⟩,
   ⟨.accel, bmi088AccChipId, .read (some bmi088AccChipIdValue)⟩]

/-- The steps of `Bmi088GryoInit`. -/
def bmi088GryoInitScript : List Step :=
  [⟨.gyro, bmi088GyroSoftreset, .write bmi088GyroSoftresetValue⟩,
   ⟨.gyro, bmi088GyroChipId, .read none⟩,
   ⟨.gyro, bmi088GyroChipId, .read (some bmi088GyroChipIdValue)⟩]

/-- The steps of `Bmi088Init`. -/
def bmi088Script : List Step :=
  bmi088AccelInitScript ++ (configScript .accel bmi088AccelRegDataError
    ++ (bmi088GryoInitScript ++ configScript .gyro bmi088GyroRegDataError))

/-- The steps of `IST8310Init`. -/
def ist8310Script : List Step :=
  readScript .magne ist8310ChipId (some ist8310ChipIdValue)
    ++ configScript .magne ist8310WriteRegDataError

/-! ## The routines of a sensor -/

/-- The log of a world, access by access. -/
def bmi088Log (w : World σ) : List Access := w.transfers.map bmi088Access

/-- The log of a world, before which no register was selected. -/
def ist8310Log (w : World σ) : List Access := ist8310Accesses 0 w.transfers

/-- `EOK` means that the script was finished. -/
def Report.ok (r : Report) : Bool := r.code = ReturnCode.EOK

/-- The value read is the one expected, where one is. -/
def agrees (value : Option UInt8) (v : UInt8) : Bool := value.all (v = ·)

/-- **What the register routines of a sensor leave in the log.** -/
structure Logs (view : World σ → List Access) (device : Device)
    (write : UInt8 → UInt8 → BusM σ Unit) (read : UInt8 → BusM σ UInt8) (wait : BusM σ Unit) :
    Prop where
  write_follows : ∀ reg data, Addressable reg →
    Follows Confirmed Failed view [⟨device, reg, .write data⟩] (write reg data) fun _ => true
  read_follows : ∀ reg value, Addressable reg →
    Follows Confirmed Failed view (readScript device reg value) (read reg) (agrees value)
  wait_log : ∀ w, view (wait w).2 = view w

/-- A read leaves a log that is finished exactly when its value agrees. -/
theorem outcome_read (device : Device) (reg : UInt8) (value : Option UInt8) (v : UInt8) :
    Outcome Confirmed Failed [⟨device, reg, .read value⟩] [⟨device, reg, .read v⟩]
      (agrees value v) := by
  cases value with
  | none => exact .cons (.unchecked device reg v) .nil
  | some expected =>
    obtain rfl | hne := eq_or_ne v expected
    · have hagrees : agrees (some v) v = true := decide_eq_true rfl
      rw [hagrees]
      exact .cons (.checked device reg v) .nil
    · have hagrees : agrees (some expected) v = false := decide_eq_false hne
      rw [hagrees]
      exact .stop (.read device reg hne)

namespace Logs

variable {view : World σ → List Access} {device : Device} {write : UInt8 → UInt8 → BusM σ Unit}
  {read : UInt8 → BusM σ UInt8} {wait : BusM σ Unit}

/-- A routine, and the wait behind it. -/
theorem before_wait (h : Logs view device write read wait) {α : Type} {m : BusM σ Unit}
    {script script' : List Step} {next : BusM σ α} {finished : α → Bool}
    (hm : Follows Confirmed Failed view script m fun _ => true)
    (hnext : Follows Confirmed Failed view script' next finished) :
    Follows Confirmed Failed view (script ++ script')
      (do m; wait; next) finished :=
  hm.seq fun _ => (Follows.of_view_eq h.wait_log).seq fun _ => hnext

/-- A read whose value is not looked at. -/
theorem ignore (h : Logs view device write read wait) {reg : UInt8} (hreg : Addressable reg)
    {α : Type} {script : List Step} {next : BusM σ α} {finished : α → Bool}
    (hnext : Follows Confirmed Failed view script next finished) :
    Follows Confirmed Failed view (readScript device reg none ++ script)
      (do let _res ← read reg
          wait
          next) finished :=
  Follows.seq (h.read_follows reg none hreg) fun _ =>
    (Follows.of_view_eq h.wait_log).seq fun _ => hnext

/-- **A checked read**, and what follows where the value agrees. -/
theorem check (h : Logs view device write read wait) {reg expected : UInt8}
    (hreg : Addressable reg) {failure : Report} (hfailure : failure.ok = false)
    {script : List Step} {next : BusM σ Report}
    (hnext : Follows Confirmed Failed view script next Report.ok) :
    Follows Confirmed Failed view (readScript device reg (some expected) ++ script)
      (do let res ← read reg
          wait
          if res ≠ expected then pure failure else next) Report.ok := by
  refine (h.read_follows reg (some expected) hreg).bind (fun v hv => ?_) (fun v hv w => ?_)
  · refine (Follows.of_view_eq h.wait_log).seq fun _ => ?_
    rw [if_neg (not_not.mpr (of_decide_eq_true hv))]
    exact hnext
  · have hne : v ≠ expected := of_decide_eq_false hv
    change view ((if v ≠ expected then pure failure else next : BusM σ Report) (wait w).2).2
        = view w
      ∧ Report.ok ((if v ≠ expected then pure failure else next : BusM σ Report) (wait w).2).1
        = false
    rw [if_pos hne]
    exact ⟨h.wait_log w, hfailure⟩

/-- **The loop over a table** configures it row by row. -/
theorem configure (h : Logs view device write read wait) {failed : RegDataError → Report}
    {rows : List RegDataError}
    (hrows : ∀ row ∈ rows, Addressable row.reg ∧ (failed row).ok = false) :
    Follows Confirmed Failed view (configScript device rows)
      (HardwareDriver.configure write read wait failed rows) Report.ok := by
  induction rows with
  | nil => exact fun w => ⟨[], (List.append_nil _).symm, .nil⟩
  | cons row rows ih =>
    obtain ⟨⟨hreg, hfailed⟩, hrest⟩ := List.forall_mem_cons.mp hrows
    have hscript : configScript device (row :: rows)
        = [⟨device, row.reg, .write row.data⟩]
          ++ (readScript device row.reg (some row.data) ++ configScript device rows) := by
      rw [configScript, List.flatMap_cons]
      rfl
    rw [hscript]
    exact h.before_wait (h.write_follows _ _ hreg) (h.check hreg hfailed (ih hrest))

end Logs

/-- **One stage after the other**, and `EERROR` at the first that is not `EOK`. -/
theorem follows_orError {view : World σ → List Access} {script script' : List Step}
    {stage next : BusM σ Report} (hstage : Follows Confirmed Failed view script stage Report.ok)
    (hnext : Follows Confirmed Failed view script' next Report.ok) :
    Follows Confirmed Failed view (script ++ script') (orError stage next) Report.ok := by
  refine hstage.bind (fun r hr => ?_) (fun r hr w => ?_)
  · have hcode : ¬ r.code ≠ 0 := not_not.mpr (of_decide_eq_true hr)
    rw [if_neg hcode]
    exact fun w => hnext w
  · have hcode : r.code ≠ 0 := of_decide_eq_false hr
    rw [if_pos hcode]
    exact ⟨rfl, rfl⟩

/-! ## The two sensors -/

theorem bmi088Log_concat (env : σ) (ts : List Transfer) (t : Transfer) :
    bmi088Log ⟨env, ts ++ [t]⟩ = bmi088Log ⟨env, ts⟩ ++ [bmi088Access t] := List.map_append

theorem bmi088Access_write (callback : Callback) {reg : UInt8} (hreg : Addressable reg)
    (data : UInt8) (rx : List UInt8) :
    bmi088Access ⟨callback, [reg &&& 0x7f, data], rx⟩
      = ⟨if callback = .gryoDataTransfer then .gyro else .accel, reg, .write data⟩ := by
  change Access.mk _ (reg &&& 0x7f &&& 0x7f) _ = _
  rw [hreg, hreg]

theorem bmi088Access_read (callback : Callback) {reg : UInt8} (hreg : Addressable reg)
    (rx : List UInt8) :
    bmi088Access ⟨callback, [reg ||| 0x80], rx⟩
      = let device := if callback = .gryoDataTransfer then Device.gyro else .accel
        ⟨device, reg, .read (if device = .gyro then rx.getD 0 0 else rx.getD 1 0)⟩ := by
  change Access.mk _ ((reg ||| 0x80) &&& 0x7f) _ = _
  rw [hreg.readBit]

theorem accel_logs (c : BMI088.Callbacks σ) :
    Logs bmi088Log .accel (bmi088AccelWriteSingleReg c) (bmi088AccelReadSingleReg c)
      (delay c.delayMs 1) := by
  refine ⟨fun reg data hreg w => ⟨_, bmi088Log_concat _ _ _, ?_⟩,
    fun reg value hreg w => ⟨_, bmi088Log_concat _ _ _, ?_⟩, fun w => rfl⟩
  · rw [bmi088Access_write _ hreg]
    exact .cons (.write _ _ _) .nil
  · rw [bmi088Access_read _ hreg]
    exact outcome_read .accel reg value _

theorem gyro_logs (c : BMI088.Callbacks σ) :
    Logs bmi088Log .gyro (bmi088GryoWriteSingleReg c) (bmi088GryoReadSingleReg c)
      (delay c.delayMs 1) := by
  refine ⟨fun reg data hreg w => ⟨_, bmi088Log_concat _ _ _, ?_⟩,
    fun reg value hreg w => ⟨_, bmi088Log_concat _ _ _, ?_⟩, fun w => rfl⟩
  · rw [bmi088Access_write _ hreg]
    exact .cons (.write _ _ _) .nil
  · rw [bmi088Access_read _ hreg]
    exact outcome_read .gyro reg value _

theorem ist8310Accesses_append (selected : UInt8) (ts ts' : List Transfer) :
    ∃ selected', ist8310Accesses selected (ts ++ ts')
      = ist8310Accesses selected ts ++ ist8310Accesses selected' ts' := by
  induction ts generalizing selected with
  | nil => exact ⟨selected, rfl⟩
  | cons t ts ih =>
    obtain ⟨callback, _ | ⟨b, _ | ⟨data, tx⟩⟩, rx⟩ := t
    · obtain ⟨selected', h⟩ := ih selected
      exact ⟨selected', congrArg (List.cons _) h⟩
    · obtain ⟨selected', h⟩ := ih b
      exact ⟨selected', congrArg (List.cons _) h⟩
    · obtain ⟨selected', h⟩ := ih b
      exact ⟨selected', congrArg (List.cons _) h⟩

/-- The sensor is read in two messages, with or without a wait in between. -/
theorem ist8310_logs (c : IST8310.Callbacks σ) (read : UInt8 → BusM σ UInt8)
    (hread : ∀ reg w, ∃ env rx, read reg w
      = (rx.getD 0 0, ⟨env, w.transfers ++ [⟨.magneDataWriteData, [reg], []⟩]
          ++ [⟨.magneDataReadData, [], rx⟩]⟩)) :
    Logs ist8310Log .magne (ist8310WriteReg c) read (pure ()) := by
  refine ⟨fun reg data _ w => ?_, fun reg value _ w => ?_, fun w => rfl⟩
  · obtain ⟨selected, h⟩ :=
      ist8310Accesses_append 0 w.transfers [⟨.magneDataWriteData, [reg, data], []⟩]
    exact ⟨_, h, .cons (.write _ _ _) .nil⟩
  · obtain ⟨env, rx, hrx⟩ := hread reg w
    obtain ⟨selected, h⟩ := ist8310Accesses_append 0 w.transfers
      [⟨.magneDataWriteData, [reg], []⟩, ⟨.magneDataReadData, [], rx⟩]
    rw [hrx, List.append_assoc]
    exact ⟨_, h, .cons (.select _ _) (outcome_read .magne reg value _)⟩

/-! ## The initialisations -/

/-- A stage that asks for nothing. -/
theorem follows_ok (view : World σ → List Access) :
    Follows Confirmed Failed view [] (pure ⟨ReturnCode.EOK, []⟩ : BusM σ Report) Report.ok :=
  fun _ => ⟨[], (List.append_nil _).symm, .nil⟩

theorem follows_bmi088AccelInit (c : BMI088.Callbacks σ) :
    Follows Confirmed Failed bmi088Log bmi088AccelInitScript (bmi088AccelInit c) Report.ok := by
  have h := accel_logs c
  have hid : Addressable bmi088AccChipId := by decide
  exact h.ignore hid <| h.before_wait (h.write_follows _ _ (by decide)) <| h.ignore hid <|
    h.check hid (by decide) (follows_ok _)

theorem follows_bmi088GryoInit (c : BMI088.Callbacks σ) :
    Follows Confirmed Failed bmi088Log bmi088GryoInitScript (bmi088GryoInit c) Report.ok := by
  have h := gyro_logs c
  have hid : Addressable bmi088GyroChipId := by decide
  exact h.before_wait (h.write_follows _ _ (by decide)) <| h.ignore hid <|
    h.check hid (by decide) (follows_ok _)

/-- **`Bmi088Init` follows its script.** -/
theorem follows_bmi088Init {d : BMI088 σ} {c : BMI088.Callbacks σ} (hc : d.callbacks = some c) :
    Follows Confirmed Failed bmi088Log bmi088Script (bmi088Init (some d)) Report.ok := by
  have haccel : ∀ row ∈ bmi088AccelRegDataError, Addressable row.reg
      ∧ Report.ok ⟨row.error, ["set accel config is failed!!!\n"]⟩ = false := by decide
  have hgyro : ∀ row ∈ bmi088GyroRegDataError, Addressable row.reg
      ∧ Report.ok ⟨row.error, ["set gryo config is failed!!!\n"]⟩ = false := by decide
  have hscript : bmi088Script = bmi088AccelInitScript
      ++ (configScript .accel bmi088AccelRegDataError ++ (bmi088GryoInitScript
        ++ (configScript .gyro bmi088GyroRegDataError ++ []))) := by
    rw [List.append_nil, bmi088Script]
  rw [bmi088Init, initialise_of_eq_some _ hc, hscript]
  exact follows_orError (follows_bmi088AccelInit c) <|
    follows_orError ((accel_logs c).configure haccel) <|
    follows_orError (follows_bmi088GryoInit c) <|
    follows_orError ((gyro_logs c).configure hgyro) <| follows_ok _

/-- **`IST8310Init` follows its script.** -/
theorem follows_ist8310Init {d : IST8310 σ} {c : IST8310.Callbacks σ} (hc : d.callbacks = some c) :
    Follows Confirmed Failed ist8310Log ist8310Script (ist8310Init (some d)) Report.ok := by
  have hrows : ∀ row ∈ ist8310WriteRegDataError, Addressable row.reg
      ∧ Report.ok ⟨ReturnCode.EERROR, ["set magne config is failed!!!\n"]⟩ = false := by decide
  have hchip := ist8310_logs c (ist8310ReadChipId c) fun reg w => ⟨_, _, rfl⟩
  have hregs := ist8310_logs c (ist8310ReadReg c) fun reg w => ⟨_, _, rfl⟩
  rw [ist8310Init, initialise_of_eq_some _ hc]
  exact (Follows.of_view_eq fun w => rfl).seq fun _ =>
    hchip.check (by decide) (by decide) (hregs.configure hrows)

/-! ## What the return code means -/

theorem Report.ok_iff (r : Report) : r.ok = true ↔ r.code = ReturnCode.EOK := decide_eq_true_iff

/-- The codes an initialisation returns past its null check. -/
def OkOrError (m : BusM σ Report) : Prop :=
  ∀ w, (m w).1.code = ReturnCode.EOK ∨ (m w).1.code = ReturnCode.EERROR

theorem bind_okOrError {α : Type} (m : BusM σ α) {next : α → BusM σ Report}
    (h : ∀ a, OkOrError (next a)) : OkOrError (m >>= next) := fun w => h _ (m w).2

theorem ite_okOrError {p : Prop} [Decidable p] {m m' : BusM σ Report} (h : OkOrError m)
    (h' : OkOrError m') : OkOrError (if p then m else m') := by
  split_ifs
  · exact h
  · exact h'

/-- The error codes of the stages do not get out. -/
theorem orError_okOrError (stage : BusM σ Report) {next : BusM σ Report} (hnext : OkOrError next) :
    OkOrError (orError stage next) :=
  bind_okOrError stage fun _ => ite_okOrError (fun _ => .inr rfl) fun w => hnext w

theorem configure_okOrError (write : UInt8 → UInt8 → BusM σ Unit) (read : UInt8 → BusM σ UInt8)
    (wait : BusM σ Unit) {failed : RegDataError → Report}
    (hfailed : ∀ row, (failed row).code = ReturnCode.EERROR) (rows : List RegDataError) :
    OkOrError (configure write read wait failed rows) := by
  induction rows with
  | nil => exact fun _ => .inl rfl
  | cons row rows ih =>
    exact bind_okOrError _ fun _ => bind_okOrError _ fun _ => bind_okOrError _ fun _ =>
      bind_okOrError _ fun _ => ite_okOrError (fun _ => .inr (hfailed row)) ih

/-- **When a sensor reports success.**  What a sensor that follows a script returns is decided by
its log, when every check of the script is one of the sensors', and the script plans them all. -/
theorem code_of_outcome {script : List Step} {log : List Access} {r : Report}
    (initialised : List Access → Prop) (hout : Outcome Confirmed Failed script log r.ok)
    (hplan : ∀ log, List.Forall₂ Confirmed script log → initialised log)
    (hfailed : ∀ q a acc, q ∈ script → Failed q a → ¬ initialised (acc ++ [a])) :
    (r.code = ReturnCode.EOK ↔ initialised log)
      ∧ (r.code ≠ ReturnCode.EOK → StopsAtFirst Confirmed Failed script log) := by
  have hok := r.ok_iff
  cases h : r.ok with
  | true =>
    rw [h] at hout
    have hcode := hok.mp h
    exact ⟨iff_of_true hcode (hplan _ hout.forall₂), fun hne => absurd hcode hne⟩
  | false =>
    rw [h] at hout hok
    have hcode : r.code ≠ ReturnCode.EOK := fun hcode => Bool.noConfusion (hok.mpr hcode)
    refine ⟨iff_of_false hcode ?_, fun _ => hout.stopsAtFirst⟩
    obtain ⟨done, q, rest, acc, a, rfl, rfl, -, hbad⟩ := hout.stopsAtFirst
    exact hfailed q a acc (List.mem_append_right _ List.mem_cons_self) hbad

/-- The chip IDs and the registers of the BMI088, in a log. -/
def Bmi088Initialised (log : List Access) : Prop :=
  Initialised .accel bmi088AccChipId bmi088AccChipIdValue bmi088AccelRegDataError log
    ∧ Initialised .gyro bmi088GyroChipId bmi088GyroChipIdValue bmi088GyroRegDataError log

/-- The chip ID and the registers of the IST8310, in a log. -/
def Ist8310Initialised (log : List Access) : Prop :=
  Initialised .magne ist8310ChipId ist8310ChipIdValue ist8310WriteRegDataError log

theorem Failed.isCheck {q : Step} {r : Access} (h : Failed q r) : q.isCheck = true := by
  cases h
  rfl

/-- **`Bmi088Init` reports what the log says**, and stops at the first failure. -/
theorem bmi088Init_code {d : BMI088 σ} {c : BMI088.Callbacks σ} (hc : d.callbacks = some c)
    (env : σ) :
    let r := bmi088Init (some d) (World.start env)
    (r.1.code = ReturnCode.EOK ↔ Bmi088Initialised (bmi088Log r.2))
      ∧ (r.1.code ≠ ReturnCode.EOK → r.1.code = ReturnCode.EERROR
        ∧ StopsAtFirst Confirmed Failed bmi088Script (bmi088Log r.2)) := by
  intro r
  have haccel : Plan .accel bmi088AccChipId bmi088AccChipIdValue bmi088AccelRegDataError
      bmi088Script := ⟨by decide, by decide⟩
  have hgyro : Plan .gyro bmi088GyroChipId bmi088GyroChipIdValue bmi088GyroRegDataError
      bmi088Script := ⟨by decide, by decide⟩
  have hchecks : ∀ q ∈ bmi088Script, q.isCheck = true →
      q ∈ checks .accel bmi088AccChipId bmi088AccChipIdValue bmi088AccelRegDataError
        ∨ q ∈ checks .gyro bmi088GyroChipId bmi088GyroChipIdValue bmi088GyroRegDataError := by
    decide
  have hout := (follows_bmi088Init hc).outcome (w := World.start env) rfl
  obtain ⟨hiff, hstop⟩ := code_of_outcome Bmi088Initialised hout
    (fun _ h => ⟨haccel.initialised h, hgyro.initialised h⟩) fun q a acc hq hbad hinit => by
      obtain hmem | hmem := hchecks q hq hbad.isCheck
      · exact not_initialised_of_failed hbad hmem acc hinit.1
      · exact not_initialised_of_failed hbad hmem acc hinit.2
  have hcode : OkOrError (bmi088Init (some d)) := by
    rw [bmi088Init, initialise_of_eq_some _ hc]
    exact orError_okOrError _ <| orError_okOrError _ <| orError_okOrError _ <|
      orError_okOrError _ fun _ => .inl rfl
  exact ⟨hiff, fun hne => ⟨(hcode (World.start env)).resolve_left hne, hstop hne⟩⟩

/-- **`IST8310Init` reports what the log says**, and stops at the first failure. -/
theorem ist8310Init_code {d : IST8310 σ} {c : IST8310.Callbacks σ} (hc : d.callbacks = some c)
    (env : σ) :
    let r := ist8310Init (some d) (World.start env)
    (r.1.code = ReturnCode.EOK ↔ Ist8310Initialised (ist8310Log r.2))
      ∧ (r.1.code ≠ ReturnCode.EOK → r.1.code = ReturnCode.EERROR
        ∧ StopsAtFirst Confirmed Failed ist8310Script (ist8310Log r.2)) := by
  intro r
  have hplan : Plan .magne ist8310ChipId ist8310ChipIdValue ist8310WriteRegDataError
      ist8310Script := ⟨by decide, by decide⟩
  have hchecks : ∀ q ∈ ist8310Script, q.isCheck = true →
      q ∈ checks .magne ist8310ChipId ist8310ChipIdValue ist8310WriteRegDataError := by decide
  have hout := (follows_ist8310Init hc).outcome (w := World.start env) rfl
  obtain ⟨hiff, hstop⟩ := code_of_outcome Ist8310Initialised hout
    (fun _ h => hplan.initialised h) fun q a acc hq hbad =>
      not_initialised_of_failed hbad (hchecks q hq hbad.isCheck) acc
  have hcode : OkOrError (ist8310Init (some d)) := by
    rw [ist8310Init, initialise_of_eq_some _ hc]
    exact bind_okOrError _ fun _ => bind_okOrError _ fun _ => ite_okOrError (fun _ => .inr rfl)
      (configure_okOrError _ _ _ (fun _ => rfl) _)
  exact ⟨hiff, fun hne => ⟨(hcode (World.start env)).resolve_left hne, hstop hne⟩⟩

/-! ## The contract of the initialisations -/

/-- **Sensor initialisation**: against any sensor, success is reported exactly when the log shows
it, and otherwise the failed read is the last transfer; against a register file it succeeds, and
every configured register holds the value of its table. -/
theorem sensor_init :
    (∀ (d : BMI088 σ) (env : σ), ¬ d.HasNull →
      let r := bmi088Init (some d) (World.start env)
      (r.1.code = ReturnCode.EOK ↔ Bmi088Initialised (bmi088Log r.2))
        ∧ (r.1.code ≠ ReturnCode.EOK → r.1.code = ReturnCode.EERROR
          ∧ StopsAtFirst Confirmed Failed bmi088Script (bmi088Log r.2)))
    ∧ (∀ (d : IST8310 σ) (env : σ), ¬ d.HasNull →
      let r := ist8310Init (some d) (World.start env)
      (r.1.code = ReturnCode.EOK ↔ Ist8310Initialised (ist8310Log r.2))
        ∧ (r.1.code ≠ ReturnCode.EOK → r.1.code = ReturnCode.EERROR
          ∧ StopsAtFirst Confirmed Failed ist8310Script (ist8310Log r.2)))
    ∧ (∀ (d : BMI088 σ) (c : BMI088.Callbacks σ) (regs : σ → Registers) (env : σ),
      d.callbacks = some c → BMI088.RegisterFile c regs →
      let r := bmi088Init (some d) (World.start env)
      r.1.code = ReturnCode.EOK
        ∧ (∀ row ∈ bmi088AccelRegDataError, regs r.2.env .accel row.reg = row.data)
        ∧ ∀ row ∈ bmi088GyroRegDataError, regs r.2.env .gyro row.reg = row.data)
    ∧ ∀ (d : IST8310 σ) (c : IST8310.Callbacks σ) (regs : σ → Registers) (selected : σ → UInt8)
        (env : σ), d.callbacks = some c → IST8310.RegisterFile c regs selected →
      let r := ist8310Init (some d) (World.start env)
      r.1.code = ReturnCode.EOK
        ∧ ∀ row ∈ ist8310WriteRegDataError, regs r.2.env .magne row.reg = row.data := by
  refine ⟨fun d env hnull => ?_, fun d env hnull => ?_,
    fun d c regs env hc hfile => bmi088Init_configures hfile hc env,
    fun d c regs selected env hc hfile => ist8310Init_configures hfile hc env⟩
  · obtain ⟨c, hc⟩ := Option.ne_none_iff_exists'.mp fun h =>
      hnull ((BMI088.callbacks_eq_none_iff d).mp h)
    exact bmi088Init_code hc env
  · obtain ⟨c, hc⟩ := Option.ne_none_iff_exists'.mp fun h =>
      hnull ((IST8310.callbacks_eq_none_iff d).mp h)
    exact ist8310Init_code hc env

/-- Both sensors, over registers that are all zero. -/
theorem sensor_init_zero :
    let r := bmi088Init (some BMI088.ofRegisters) (World.start fun _ _ => 0)
    let r' := ist8310Init (some IST8310.ofRegisters) (World.start (fun _ _ => 0, 0))
    (r.1.code = ReturnCode.EOK ∧ Bmi088Initialised (bmi088Log r.2))
      ∧ r'.1.code = ReturnCode.EOK ∧ Ist8310Initialised (ist8310Log r'.2) := by
  obtain ⟨c, hc, hfile⟩ := BMI088.ofRegisters_registerFile
  obtain ⟨c', hc', hfile'⟩ := IST8310.ofRegisters_registerFile
  have hnull : ¬ BMI088.ofRegisters.HasNull := by simp [BMI088.HasNull, BMI088.ofRegisters]
  have hnull' : ¬ IST8310.ofRegisters.HasNull := by simp [IST8310.HasNull, IST8310.ofRegisters]
  have hok := (sensor_init.2.2.1 _ c _ (fun _ _ => 0) hc hfile).1
  have hok' := (sensor_init.2.2.2 _ c' _ _ (fun _ _ => 0, 0) hc' hfile').1
  exact ⟨⟨hok, (sensor_init.1 _ _ hnull).1.mp hok⟩, hok', (sensor_init.2.1 _ _ hnull').1.mp hok'⟩

end HardwareDriver

end EmbeddedMCU

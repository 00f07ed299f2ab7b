import EmbeddedMCU.HardwareDriver.Bmi088
import EmbeddedMCU.HardwareDriver.Ist8310
import Mathlib.Algebra.Order.Floor.Ring

/-!
# HardwareDriver/Readings — what the read operations store

Each operation is compared with the decoding of the bytes it received, written with `leNat`,
`beNat` and `twosComplement` where the drivers copy memory, shift and truncate.
-/

namespace EmbeddedMCU

namespace HardwareDriver

variable {σ : Type}

/-! ## The angle sensor

Its callbacks take the address of the device on the bus as well. -/

/-- `AS5600`, a pointer being `none` when it is null. -/
structure AS5600 (σ : Type) where
  angle : UInt16
  as5600Transmit : Option (UInt8 → Send σ)
  as5600Receive : Option (UInt8 → Receive σ)

/-- One of the pointers is null. -/
def AS5600.HasNull (d : AS5600 σ) : Prop := d.as5600Receive = none ∨ d.as5600Transmit = none

/-- `AS5600_RAW_ADDR` -/
def as5600RawAddr : UInt8 := 0x36
/-- `AS5600_ADDR` -/
def as5600Addr : UInt8 := as5600RawAddr <<< 1
/-- `AS5600_RAW_ANGLE_REGISTER` -/
def as5600RawAngleRegister : UInt8 := 0x0E

/-- `AS5600GetAngle` -/
def as5600GetAngle (d : AS5600 σ) : BusM σ (AS5600 σ) :=
  match d.as5600Receive, d.as5600Transmit with
  | some rx, some tx => do
      send (.as5600Transmit as5600Addr) (tx as5600Addr) [as5600RawAngleRegister]
      let buf ← receive (.as5600Receive as5600Addr) (rx as5600Addr) 2
      pure { d with
        angle := UInt16.ofNat ((buf.getD 0 0).toNat <<< 8 ||| (buf.getD 1 0).toNat) }
  | _, _ => pure d

/-! ## Decoding -/

/-- Three signed half-words, little-endian, of so much each. -/
def decodeAxes (unit : ℚ) (rx : List UInt8) : Vector ℚ 3 :=
  Vector.ofFn fun i => twosComplement 16 (leNat ((rx.drop (2 * i)).take 2)) * unit

/-- The 11-bit temperature in the last two bytes, an eighth of a degree each, from 23 degrees. -/
def decodeBmi088Temp (rx : List UInt8) : ℚ :=
  twosComplement 11 (beNat ((rx.drop 1).take 2) / 32) * 0.125 + 23

/-- **The bytes of a copied buffer, as axes.** -/
theorem ofFn_loadInt16 {rx : List UInt8} (h : rx.length = 6) {f : ℤ → ℚ} {unit : ℚ}
    (hf : ∀ n, f n = n * unit) :
    (Vector.ofFn fun i : Fin 3 => f (loadInt16 (memcpy (List.replicate 6 0) rx 6) i).toInt)
      = decodeAxes unit rx := by
  have hcopy : memcpy (List.replicate 6 0) rx 6 = rx := by
    rw [← h]
    exact memcpy_self (by rw [List.length_replicate])
  rw [hcopy, decodeAxes]
  congr 1
  funext i
  rw [hf, toInt_loadInt16]

/-- The truncated quotient is the number the upper eleven bits stand for. -/
theorem ctrunc_temp (b1 b2 : UInt8) :
    ctrunc (b1.toNat * 8 + b2.toNat / 32.0 : ℚ) = ((b1.toNat * 8 + b2.toNat / 32 : ℕ) : ℤ) := by
  have h32 : (32.0 : ℚ) = 32 := by norm_num
  have hdiv : (b2.toNat : ℚ) = 32 * (b2.toNat / 32 : ℕ) + (b2.toNat % 32 : ℕ) := by
    exact_mod_cast (Nat.div_add_mod b2.toNat 32).symm
  have hmod : ((b2.toNat % 32 : ℕ) : ℚ) < 32 := by
    exact_mod_cast Nat.mod_lt b2.toNat (by norm_num)
  have hmod0 : (0 : ℚ) ≤ (b2.toNat % 32 : ℕ) := Nat.cast_nonneg _
  rw [h32, ctrunc_eq_iff (by positivity), Int.cast_natCast, Nat.cast_add, Nat.cast_mul]
  push_cast at hdiv ⊢
  constructor <;> linarith

/-- **The temperature word is the two's complement reading of the upper eleven bits.** -/
theorem toInt_tempIntOf (b1 b2 : UInt8) :
    (tempIntOf b1 b2).toInt = twosComplement 11 (beNat [b1, b2] / 32) := by
  have h1 := b1.toNat_lt
  have h2 := b2.toNat_lt
  have hbits : beNat [b1, b2] / 32 = b1.toNat * 8 + b2.toNat / 32 := by
    change (b2.toNat + 256 * (b1.toNat + 256 * 0)) / 32 = _
    omega
  have huint : (UInt16.ofInt (ctrunc (b1.toNat * 8 + b2.toNat / 32.0 : ℚ))).toNat
      = b1.toNat * 8 + b2.toNat / 32 := by
    rw [ctrunc_temp, UInt16.ofInt, UInt16.toNat_ofNat']
    omega
  rw [tempIntOf, hbits, twosComplement]
  simp only [gt_iff_lt, UInt16.lt_iff_toNat_lt, huint]
  have h1023 : (1023 : UInt16).toNat = 1023 := rfl
  rw [h1023]
  split_ifs
  · omega
  · rw [Int16.toInt_ofInt_of_le (by omega) (by omega)]
    omega
  · rw [Int16.toInt_ofInt_of_le (by omega) (by omega)]
  · omega

/-! ## The contract -/

section Contract

variable {D C : Type}

/-- **The contract of a read operation**: when it returns `EOK` the struct is as `store` makes it of
the bytes received, and on a null pointer it is as before and nothing was transferred. -/
structure ReadsInto (op : Option D → BusM σ (ReturnCode × Option D)) (hasNull : D → Prop)
    (store : D → List UInt8 → D) (d : D) (env : σ) : Prop where
  stored : (op (some d) (World.start env)).1.1 = ReturnCode.EOK →
    (op (some d) (World.start env)).1.2
      = some (store d (op (some d) (World.start env)).2.received)
  untouched : hasNull d →
    (op (some d) (World.start env)).1.2 = some d
      ∧ (op (some d) (World.start env)).2 = World.start env

variable {callbacks : D → Option C} {body : D → C → BusM σ (ReturnCode × D)} {hasNull : D → Prop}
  (hnull : ∀ d, callbacks d = none ↔ hasNull d)
  (hcode : ∀ d c w, (body d c w).1.1 = ReturnCode.EOK)

include hnull hcode

/-- **A checked operation meets it exactly when its body stores what is expected.** -/
theorem readsInto_checked_iff (store : D → List UInt8 → D) (d : D) (env : σ) :
    ReadsInto (checked callbacks body) hasNull store d env
      ↔ ∀ c, callbacks d = some c →
          (body d c (World.start env)).1.2 = store d (body d c (World.start env)).2.received := by
  cases hc : callbacks d with
  | none =>
    have hr := checked_of_eq_none body hc (World.start env)
    refine iff_of_true ⟨fun hok => ?_, fun _ => ?_⟩ fun c hc => by cases hc
    · rw [hr] at hok
      exact absurd hok (show ReturnCode.EEMPTY ≠ ReturnCode.EOK by decide)
    · rw [hr]
      exact ⟨rfl, rfl⟩
  | some c =>
    have hr := checked_of_eq_some body hc (World.start env)
    have hnot : ¬ hasNull d := fun h => by
      rw [(hnull d).mpr h] at hc
      cases hc
    constructor
    · intro h c' hc'
      obtain rfl := Option.some.inj hc'
      have hstored := h.stored (by rw [hr]; exact hcode d c _)
      rw [hr] at hstored
      exact Option.some.inj hstored
    · intro h
      refine ⟨fun _ => ?_, fun hn => absurd hn hnot⟩
      rw [hr]
      exact congrArg some (h c rfl)

end Contract

/-! ## The operations -/

/-- `IST8310ReadMagne` stores the three axes, at 1600 uT full scale. -/
theorem readsInto_ist8310ReadMagne (d : IST8310 σ) (env : σ) :
    ReadsInto ist8310ReadMagne IST8310.HasNull
      (fun d rx => { d with magne := decodeAxes (1600 / 32768) rx }) d env := by
  refine (readsInto_checked_iff IST8310.callbacks_eq_none_iff (fun _ _ _ => rfl) _ d env).mpr
    fun c _ => ?_
  have hunit : ∀ n : ℤ, (n : ℚ) * 1600.0 / 32768.0 = n * (1600 / 32768) := fun n => by
    norm_num [mul_div_assoc]
  simp only [World.start, send_bind, delay_bind, receive_bind, pure_run, List.cons_append,
    World.received_cons, World.received_nil, List.nil_append, List.append_nil]
  rw [ofFn_loadInt16 Vector.length_toList hunit]

/-- `Bmi088ReadAccel` stores the three axes behind the dummy byte, at 3000 mg full scale. -/
theorem readsInto_bmi088ReadAccel (d : BMI088 σ) (env : σ) :
    ReadsInto bmi088ReadAccel BMI088.HasNull
      (fun d rx => { d with accel := decodeAxes (3000 / 32768) (rx.drop 1) }) d env := by
  refine (readsInto_checked_iff BMI088.callbacks_eq_none_iff (fun _ _ _ => rfl) _ d env).mpr
    fun c _ => ?_
  have hunit : ∀ n : ℤ, (n : ℚ) / 32768.0 * 1000 * 2 ^ (bmi088AccRange3G + 1) * 1.5
      = n * (3000 / 32768) := fun n => by
    have h15 : (1.5 : ℚ) = 3 / 2 := by norm_num
    have h32768 : (32768.0 : ℚ) = 32768 := by norm_num
    rw [h15, h32768, bmi088AccRange3G]
    ring
  have hlen : ((c.acceDataTransfer env [bmi088AccelXoutL ||| 0x80] 7).2.toList.drop 1).length
      = 6 := by
    rw [List.length_drop, Vector.length_toList]
  simp only [World.start, exchange_bind, pure_run, World.received_cons, World.received_nil,
    List.nil_append, List.append_nil]
  rw [ofFn_loadInt16 hlen hunit]

/-- `Bmi088ReadGryo` stores the three axes, at 2000 °/s full scale. -/
theorem readsInto_bmi088ReadGryo (d : BMI088 σ) (env : σ) :
    ReadsInto bmi088ReadGryo BMI088.HasNull
      (fun d rx => { d with gyro := decodeAxes (2000 / 32767) rx }) d env := by
  refine (readsInto_checked_iff BMI088.callbacks_eq_none_iff (fun _ _ _ => rfl) _ d env).mpr
    fun c _ => ?_
  have hunit : ∀ n : ℤ, (n : ℚ) / 32767.0 * 2000 = n * (2000 / 32767) := fun n => by
    have h32767 : (32767.0 : ℚ) = 32767 := by norm_num
    rw [h32767]
    ring
  simp only [World.start, exchange_bind, pure_run, World.received_cons, World.received_nil,
    List.nil_append, List.append_nil]
  rw [ofFn_loadInt16 Vector.length_toList hunit]

/-- `Bmi088ReadTemp` stores the 11-bit temperature behind the dummy byte. -/
theorem readsInto_bmi088ReadTemp (d : BMI088 σ) (env : σ) :
    ReadsInto bmi088ReadTemp BMI088.HasNull
      (fun d rx => { d with temperature := decodeBmi088Temp rx }) d env := by
  refine (readsInto_checked_iff BMI088.callbacks_eq_none_iff (fun _ _ _ => rfl) _ d env).mpr
    fun c _ => ?_
  simp only [World.start, exchange_bind, pure_run, World.received_cons, World.received_nil,
    List.nil_append, List.append_nil]
  obtain ⟨b0, b1, b2, hrx⟩ := List.length_eq_three.mp
    (c.acceDataTransfer env [bmi088TempM ||| 0x80] 3).2.length_toList
  rw [hrx, toInt_tempIntOf, decodeBmi088Temp]
  rfl

/-- The device answers the request for the temperature with the one the struct holds. -/
def IST8310.AnswersPrior (d : IST8310 σ) (env : σ) : Prop :=
  ∀ c, d.callbacks = some c →
    UInt16.ofNat
        (leNat (c.magneDataReadData (c.magneDataWriteData env [ist8310Avgcntl]) 2).2.toList)
      = d.temperature

/-- **`IST8310ReadTemp` stores the temperature exactly when it is there already.** -/
theorem readsInto_ist8310ReadTemp_iff (d : IST8310 σ) (env : σ) :
    ReadsInto ist8310ReadTemp IST8310.HasNull
        (fun d rx => { d with temperature := UInt16.ofNat (leNat rx) }) d env
      ↔ d.AnswersPrior env := by
  refine (readsInto_checked_iff IST8310.callbacks_eq_none_iff (fun _ _ _ => rfl) _ d env).trans
    (forall_congr' fun c => imp_congr_right fun _ => ?_)
  simp only [World.start, send_bind, receive_bind, pure_run, List.cons_append,
    World.received_cons, World.received_nil, List.nil_append, List.append_nil]
  constructor
  · intro h
    exact (congrArg IST8310.temperature h).symm
  · intro h
    rw [h]

/-- Two bytes shifted together are the number they stand for. -/
theorem shiftLeft_or_eq_beNat (b0 b1 : UInt8) :
    b0.toNat <<< 8 ||| b1.toNat = beNat [b0, b1] := by
  rw [← Nat.shiftLeft_add_eq_or_of_lt b1.toNat_lt, Nat.shiftLeft_eq]
  change _ = b1.toNat + 256 * (b0.toNat + 256 * 0)
  omega

/-- `AS5600GetAngle` stores the angle past its null check, and does nothing on a null pointer. -/
theorem as5600GetAngle_reads (d : AS5600 σ) (env : σ) :
    (¬ d.HasNull →
        (as5600GetAngle d (World.start env)).1
          = { d with
              angle := UInt16.ofNat (beNat (as5600GetAngle d (World.start env)).2.received) })
      ∧ (d.HasNull → as5600GetAngle d (World.start env) = (d, World.start env)) := by
  obtain ⟨angle, _ | tx, _ | rx⟩ := d
  · exact ⟨fun h => absurd (.inl rfl) h, fun _ => rfl⟩
  · exact ⟨fun h => absurd (.inr rfl) h, fun _ => rfl⟩
  · exact ⟨fun h => absurd (.inl rfl) h, fun _ => rfl⟩
  · refine ⟨fun _ => ?_, fun h => ?_⟩
    · simp only [as5600GetAngle, World.start, send_bind, receive_bind, pure_run, List.cons_append,
        World.received_cons, World.received_nil, List.nil_append, List.append_nil]
      obtain ⟨b0, b1, hrx⟩ := List.length_eq_two.mp
        (rx as5600Addr (tx as5600Addr env [as5600RawAngleRegister]) 2).2.length_toList
      rw [hrx, ← shiftLeft_or_eq_beNat]
      rfl
    · obtain h | h := h <;> cases h

/-- **When every sensor read stores what it received**: always, but for `IST8310ReadTemp`, which
copies the other way and so does only when the device answers what the struct already holds. -/
theorem sensor_reads_iff :
    (∀ (d : IST8310 σ) (env : σ),
      ReadsInto ist8310ReadMagne IST8310.HasNull
        (fun d rx => { d with magne := decodeAxes (1600 / 32768) rx }) d env)
    ∧ (∀ (d : IST8310 σ) (env : σ),
      ReadsInto ist8310ReadTemp IST8310.HasNull
        (fun d rx => { d with temperature := UInt16.ofNat (leNat rx) }) d env
        ↔ d.AnswersPrior env)
    ∧ (∀ (d : BMI088 σ) (env : σ),
      ReadsInto bmi088ReadAccel BMI088.HasNull
          (fun d rx => { d with accel := decodeAxes (3000 / 32768) (rx.drop 1) }) d env
        ∧ ReadsInto bmi088ReadGryo BMI088.HasNull
          (fun d rx => { d with gyro := decodeAxes (2000 / 32767) rx }) d env
        ∧ ReadsInto bmi088ReadTemp BMI088.HasNull
          (fun d rx => { d with temperature := decodeBmi088Temp rx }) d env)
    ∧ ∀ (d : AS5600 σ) (env : σ),
      (¬ d.HasNull →
          (as5600GetAngle d (World.start env)).1
            = { d with
                angle := UInt16.ofNat (beNat (as5600GetAngle d (World.start env)).2.received) })
        ∧ (d.HasNull → as5600GetAngle d (World.start env) = (d, World.start env)) :=
  ⟨readsInto_ist8310ReadMagne, readsInto_ist8310ReadTemp_iff,
    fun d env => ⟨readsInto_bmi088ReadAccel d env, readsInto_bmi088ReadGryo d env,
      readsInto_bmi088ReadTemp d env⟩,
    as5600GetAngle_reads⟩

/-- A magnetometer that answers every read with a one and zeros, its struct still zero. -/
def IST8310.answeringOne : IST8310 Unit where
  magne := #v[0, 0, 0]
  temperature := 0
  magneDataReadData := some fun _ _ => ((), Vector.ofFn fun i => if i.val = 0 then 1 else 0)
  magneDataWriteData := some fun _ _ => ()
  delayMs := some fun _ _ => ()

/-- **A temperature of one is read, and zero is kept**, with `EOK`. -/
theorem ist8310ReadTemp_keeps_zero :
    let r := ist8310ReadTemp (some IST8310.answeringOne) (World.start ())
    r.1.1 = ReturnCode.EOK ∧ UInt16.ofNat (leNat r.2.received) = 1
      ∧ r.1.2.map IST8310.temperature = some 0 := by
  decide +kernel

end HardwareDriver

end EmbeddedMCU

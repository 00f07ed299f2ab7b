import Mathlib.Data.List.GetD
import Mathlib.Order.MinMax
import Mathlib.Tactic.SplitIfs

/-!
# Common/Log — `log_put` and the length it transmits

    msg ──vsnprintf──▸ log_buf, n ──(size_t)──▸ length ──▸ log_buf[0 .. length-1] on the wire

`vsnprintf` stores at most 254 characters but reports the length the message *would* have had, and
`log_put` transmits the reported length.  `transmitted_eq_iff` says when the two agree: up to 254
characters, or when the conversion of the length happens to produce 254.
-/

namespace EmbeddedMCU

/-- `RETURN_CODE`, with the codes the drivers here return. -/
abbrev ReturnCode := UInt8

namespace ReturnCode

def EOK : ReturnCode := 0
def EERROR : ReturnCode := 1
def EEMPTY : ReturnCode := 4
def EBUSY : ReturnCode := 8

end ReturnCode

namespace Log

/-- `CONSOLEBUF_SIZE` -/
def consoleBufSize : ℕ := 256

/-- The static `log_buf`, and whatever the linker placed behind it. -/
structure Memory where
  logBuf : Vector UInt8 consoleBufSize
  beyond : ℕ → UInt8

namespace Memory

/-- The byte `i` places after the start of `log_buf`. -/
def read (m : Memory) (i : ℕ) : UInt8 :=
  if h : i < consoleBufSize then m.logBuf[i] else m.beyond i

end Memory

/-- The builds of `log_put`: the byte loop of the `AT32`, or `HAL_UART_Transmit`. -/
inductive Port
  | at32
  | hal
  deriving DecidableEq

/-- A byte on the wire, with the place it was read from. -/
structure Sent where
  index : ℕ
  byte : UInt8
  deriving DecidableEq

/-! ## `log_put` -/

/-- `vsnprintf(log_buf, size, …)` for `0 < size`, as the C standard has it: at most `size - 1`
characters and a NUL are stored, and the length of the whole message is returned. -/
def vsnprintf (buf : Vector UInt8 consoleBufSize) (size : ℕ) (msg : List UInt8) :
    Vector UInt8 consoleBufSize × ℕ :=
  let stored := min msg.length (size - 1)
  (Vector.ofFn fun i =>
    if i.val < stored then msg.getD i.val 0 else if i.val = stored then 0 else buf[i],
    msg.length)

/-- The transmit loop of either port: `count` bytes, the pointer moving up from `p`. -/
def transmit (m : Memory) (p : ℕ) : ℕ → List Sent
  | 0 => []
  | count + 1 => ⟨p, m.read p⟩ :: transmit m (p + 1) count

/-- The number of bytes a port is told to send.  `length` is a 32-bit `size_t`; the `Size` of
`HAL_UART_Transmit` is 16 bits wide. -/
def portCount (port : Port) (length : UInt32) : ℕ :=
  match port with
  | .at32 => length.toNat
  | .hal => length.toUInt16.toNat

/-- What a call of `log_put` leaves behind: the buffer, the bytes sent on the serial port, and with
`USING_USB` the length handed to `CDC_Transmit_FS`. -/
structure LogResult where
  mem : Memory
  usbLength : Option UInt32
  sent : List Sent

/-- `log_put`, for the message `vsnprintf` formats. -/
def logPut (port : Port) (usingUsb : Bool) (m : Memory) (msg : List UInt8) : LogResult :=
  let (buf, n) := vsnprintf m.logBuf (consoleBufSize - 1) msg
  let m : Memory := { m with logBuf := buf }
  let length := UInt32.ofNat n
  { mem := m
    usbLength := if usingUsb then some length else none
    sent := transmit m 0 (portCount port length) }

/-! ## What goes over the wire -/

/-- The characters of a message `log_buf` can hold. -/
def storedText (msg : List UInt8) : List UInt8 := msg.take 254

/-- **The contract of the logger**: the stored text is sent, and read from inside `log_buf`. -/
def Faithful (sent : List Sent) (msg : List UInt8) : Prop :=
  sent.map Sent.byte = storedText msg ∧ ∀ s ∈ sent, s.index < consoleBufSize

/-- How many values the length parameter of a port can take. -/
def lengthRange : Port → ℕ
  | .at32 => UInt32.size
  | .hal => UInt16.size

theorem portCount_ofNat (port : Port) (n : ℕ) :
    portCount port (UInt32.ofNat n) = n % lengthRange port := by
  cases port with
  | at32 => simp [portCount, lengthRange]
  | hal => simp [portCount, lengthRange]

theorem transmit_eq (m : Memory) (p count : ℕ) :
    transmit m p count = (List.range' p count).map fun i => ⟨i, m.read i⟩ := by
  induction count generalizing p with
  | zero => rfl
  | succ count ih => rw [transmit, ih, List.range'_succ, List.map_cons]

theorem length_transmit (m : Memory) (p count : ℕ) : (transmit m p count).length = count := by
  rw [transmit_eq, List.length_map, List.length_range']

/-- The memory once `log_put` has formatted a message. -/
def Memory.formatted (m : Memory) (msg : List UInt8) : Memory :=
  { m with logBuf := (vsnprintf m.logBuf (consoleBufSize - 1) msg).1 }

/-- The characters `vsnprintf` stores are read back. -/
theorem read_formatted (m : Memory) (msg : List UInt8) {i : ℕ} (hi : i < msg.length)
    (h254 : i < 254) : (m.formatted msg).read i = msg[i] := by
  have h256 : i < consoleBufSize := by
    rw [consoleBufSize]
    omega
  have hstored : i < min msg.length (consoleBufSize - 1 - 1) := by
    rw [consoleBufSize]
    omega
  rw [Memory.read, dif_pos h256]
  simp only [Memory.formatted, vsnprintf, Vector.getElem_ofFn]
  rw [if_pos hstored, List.getD_eq_getElem _ _ hi]

/-- **A transmission that stays inside the stored text sends a prefix of the message.** -/
theorem transmit_stored (m : Memory) (msg : List UInt8) {count : ℕ} (hc : count ≤ 254)
    (hn : count ≤ msg.length) :
    (transmit (m.formatted msg) 0 count).map Sent.byte = msg.take count := by
  rw [transmit_eq, List.map_map]
  refine List.ext_getElem ?_ fun i h1 h2 => ?_
  · rw [List.length_map, List.length_range', List.length_take, min_eq_left hn]
  · rw [List.length_map, List.length_range'] at h1
    rw [List.getElem_map, List.getElem_range', List.getElem_take]
    simp only [Function.comp_apply, Nat.zero_add, Nat.one_mul]
    exact read_formatted m msg (h1.trans_le hn) (h1.trans_le hc)

/-- What `log_put` sends: as many bytes of the refilled buffer as the converted length says. -/
theorem logPut_sent (port : Port) (usingUsb : Bool) (m : Memory) (msg : List UInt8) :
    (logPut port usingUsb m msg).sent
      = transmit (m.formatted msg) 0 (msg.length % lengthRange port) := by
  rw [← portCount_ofNat]
  rfl

theorem length_logPut_sent (port : Port) (usingUsb : Bool) (m : Memory) (msg : List UInt8) :
    (logPut port usingUsb m msg).sent.length = msg.length % lengthRange port := by
  rw [logPut_sent, length_transmit]

/-- **When the logger sends exactly what it formatted**: the message fits, or its length converts
to that of the stored text. -/
theorem transmitted_eq_iff (port : Port) (usingUsb : Bool) (m : Memory) (msg : List UInt8) :
    Faithful (logPut port usingUsb m msg).sent msg
      ↔ msg.length ≤ 254 ∨ msg.length % lengthRange port = 254 := by
  have hrange : 254 < lengthRange port := by cases port <;> decide
  constructor
  · rintro ⟨hbytes, -⟩
    have hlen := congrArg List.length hbytes
    rw [List.length_map, length_logPut_sent, storedText, List.length_take] at hlen
    omega
  · intro h
    have hcount : msg.length % lengthRange port = min 254 msg.length := by
      obtain h | h := h
      · rw [Nat.mod_eq_of_lt (by omega), min_eq_right h]
      · have := Nat.mod_le msg.length (lengthRange port)
        omega
    rw [logPut_sent, hcount, Faithful, storedText]
    refine ⟨?_, fun s hs => ?_⟩
    · rw [transmit_stored m msg (min_le_left _ _) (min_le_right _ _), List.take_eq_take_min,
        List.take_eq_take_min (i := 254)]
      congr 1
      omega
    · rw [transmit_eq, List.mem_map] at hs
      obtain ⟨i, hi, rfl⟩ := hs
      have hlt := (List.mem_range'_1.mp hi).2
      change i < 256
      omega

/-- A message of 255 characters is sent with the NUL that ends the stored text, on either port. -/
theorem logPut_255_not_faithful :
    ¬ Faithful (logPut .hal false ⟨Vector.replicate 256 0, fun _ => 0⟩ (List.replicate 255 97)).sent
        (List.replicate 255 97)
      ∧ ¬ Faithful
        (logPut .at32 false ⟨Vector.replicate 256 0, fun _ => 0⟩ (List.replicate 255 97)).sent
        (List.replicate 255 97) := by
  constructor <;>
  · rintro ⟨hbytes, -⟩
    have hlen := congrArg List.length hbytes
    rw [List.length_map, length_logPut_sent, storedText, List.length_take,
      List.length_replicate] at hlen
    exact absurd hlen (by decide)

end Log

end EmbeddedMCU

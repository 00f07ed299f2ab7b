import EmbeddedMCU.Machinery.Bytes
import EmbeddedMCU.Machinery.Ring
import EmbeddedMCU.Machinery.Run

/-!
# FreeRTOS/StreamBuffer — `stream_buffer.c`, one writer and one reader

    writer ──store──▸ xHead ▸ [ ring of xLength bytes ] ▸ xTail ──load──▸ reader
           ◂──────────── xTaskWaitingToSend ◂── notify ──
            ── notify ─▸ xTaskWaitingToReceive ──────────▸

The two sides are interleaved in any order.  A step of a side is one access to what they share, or
one critical section; what it has read stays in its locals and may be out of date when it is used.
`Choice` is what the code leaves open: which byte `memcpy` moves next, and whether a wait has run
out of time.
-/

namespace EmbeddedMCU

namespace StreamBuffer

/-! ## The buffer -/

/-- What a stream buffer is created with.  Sums of two indices fit a `size_t`. -/
structure Config where
  xLength : ℕ
  xTriggerLevelBytes : ℕ
  isMessageBuffer : Bool
  trigger_pos : 0 < xTriggerLevelBytes
  trigger_lt : xTriggerLevelBytes < xLength
  length_le : 2 * xLength ≤ 2 ^ 32

/-- `sbBYTES_TO_STORE_MESSAGE_LENGTH` -/
def bytesToStoreMessageLength : ℕ := 4

/-- `sizeof( StreamBuffer_t )` -/
def sizeofStreamBuffer : ℕ := 32

/-- `xStreamBufferGenericCreate`: the assertions, the trigger level that may not be zero, the byte
more than was asked for.  A heap has less than `2 ^ 31` bytes. -/
def xStreamBufferGenericCreate (pvPortMalloc : ℕ → Bool) (xBufferSizeBytes xTriggerLevelBytes : ℕ)
    (xIsMessageBuffer : Bool) : Option Config :=
  let least := if xIsMessageBuffer then bytesToStoreMessageLength else 0
  let xTriggerLevel := if xTriggerLevelBytes = 0 then 1 else xTriggerLevelBytes
  let xWantedSize := xBufferSizeBytes + 1 + sizeofStreamBuffer
  if h : least < xBufferSizeBytes ∧ xTriggerLevelBytes ≤ xBufferSizeBytes ∧ xWantedSize < 2 ^ 31
      ∧ pvPortMalloc xWantedSize then
    some
      { xLength := xBufferSizeBytes + 1
        xTriggerLevelBytes := xTriggerLevel
        isMessageBuffer := xIsMessageBuffer
        trigger_pos := by grind
        trigger_lt := by grind
        length_le := by grind }
  else none

/-- `StreamBuffer_t` without what `Config` fixes, and the notification state of the two tasks. -/
structure Shared where
  xTail : ℕ
  xHead : ℕ
  xTaskWaitingToReceive : Bool
  xTaskWaitingToSend : Bool
  pucBuffer : ℕ → UInt8
  receiverNotified : Bool
  senderNotified : Bool

/-- What the code leaves open at a step. -/
structure Choice where
  /-- Which of the pending bytes `memcpy` moves. -/
  byte : ℕ
  /-- Whether the time to wait is over. -/
  timedOut : Bool

/-- What a call returns. -/
inductive Out
  | sent (pvTxData : List UInt8) (xReturn : ℕ)
  | received (pvRxData : List UInt8)

variable (c : Config)

/-- `prvBytesInBuffer` -/
def prvBytesInBuffer (s : Shared) : ℕ := ringDistance c.xLength s.xTail s.xHead

/-- `xStreamBufferSpacesAvailable`, with the tail it has settled on. -/
def xStreamBufferSpacesAvailable (xTail xHead : ℕ) : ℕ := ringSpace c.xLength xTail xHead

/-- `prvWriteBytesToBuffer`: the stores of its one or two `memcpy`s, and the head it returns. -/
def prvWriteBytesToBuffer (pucData : List UInt8) (xHead : ℕ) : List (ℕ × UInt8) × ℕ :=
  ((ringCells c.xLength xHead pucData.length).zip pucData,
    ringNext c.xLength xHead pucData.length)

/-- `prvReadBytesFromBuffer`: the loads of its one or two `memcpy`s, each with the place it goes to,
and the tail it returns. -/
def prvReadBytesFromBuffer (xCount xTail : ℕ) : List (ℕ × ℕ) × ℕ :=
  ((List.range xCount).zip (ringCells c.xLength xTail xCount), ringNext c.xLength xTail xCount)

/-! ## The writer -/

/-- The locals of a send that do not change. -/
structure SendCall where
  pvTxData : List UInt8
  xRequiredSpace : ℕ

/-- Where the writer is. -/
inductive Writer
  | idle
  /-- The critical section that looks for space. -/
  | waitLoop (call : SendCall)
  /-- In `xTaskNotifyWait`. -/
  | asleep (call : SendCall) (xSpace : ℕ)
  | woken (call : SendCall) (xSpace : ℕ)
  | checkTimeOut (call : SendCall) (xSpace : ℕ)
  /-- The loop of `xStreamBufferSpacesAvailable`. -/
  | readOriginalTail (call : SendCall)
  | readTail (call : SendCall) (xOriginalTail : ℕ)
  | recheckTail (call : SendCall) (xOriginalTail xTail : ℕ)
  /-- `prvWriteMessageToBuffer` -/
  | write (call : SendCall) (xSpace : ℕ)
  | copy (pvTxData : List UInt8) (xReturn : ℕ) (pending : List (ℕ × UInt8)) (xHead : Option ℕ)
  /-- The head is stored; whether a reader waits for the trigger level. -/
  | complete (pvTxData : List UInt8) (xReturn : ℕ)
  /-- `sbSEND_COMPLETED` -/
  | notify (pvTxData : List UInt8) (xReturn : ℕ)

/-- `xStreamBufferSend`, up to its first look at the space.  A message that never fits is not waited
for. -/
def xStreamBufferSend (pvTxData : List UInt8) (wait : Bool) : Writer :=
  let xMaxReportedSpace := c.xLength - 1
  if c.isMessageBuffer then
    let call := ⟨pvTxData, pvTxData.length + bytesToStoreMessageLength⟩
    if wait ∧ ¬ call.xRequiredSpace > xMaxReportedSpace then .waitLoop call
    else .readOriginalTail call
  else
    let call := ⟨pvTxData, min pvTxData.length xMaxReportedSpace⟩
    if wait then .waitLoop call else .readOriginalTail call

/-- `xStreamBufferSendFromISR`, up to its look at the space. -/
def xStreamBufferSendFromISR (pvTxData : List UInt8) : Writer :=
  .readOriginalTail ⟨pvTxData,
    if c.isMessageBuffer then pvTxData.length + bytesToStoreMessageLength else pvTxData.length⟩

/-- Behind the wait loop: the space is read again when it was none. -/
def afterWait (call : SendCall) (xSpace : ℕ) : Writer :=
  if xSpace = 0 then .readOriginalTail call else .write call xSpace

/-- `prvWriteMessageToBuffer`, up to its first store. -/
def prvWriteMessageToBuffer (s : Shared) (call : SendCall) (xSpace : ℕ) : Writer :=
  if c.isMessageBuffer then
    if xSpace ≥ call.xRequiredSpace then
      let length := prvWriteBytesToBuffer c (leBytes call.pvTxData.length) s.xHead
      let data := prvWriteBytesToBuffer c call.pvTxData length.2
      if call.pvTxData.length ≠ 0 then
        .copy call.pvTxData call.pvTxData.length (length.1 ++ data.1) (some data.2)
      else .copy call.pvTxData 0 length.1 none
    else .copy call.pvTxData 0 [] none
  else
    let xDataLengthBytes := min call.pvTxData.length xSpace
    if xDataLengthBytes ≠ 0 then
      let data := prvWriteBytesToBuffer c (call.pvTxData.take xDataLengthBytes) s.xHead
      .copy call.pvTxData xDataLengthBytes data.1 (some data.2)
    else .copy call.pvTxData 0 [] none

/-- One step of the writer. -/
def writerStep (choice : Choice) (s : Shared) : Writer → (Shared × Writer) × Option Out
  | .idle => ((s, .idle), none)
  | .waitLoop call =>
      let xSpace := xStreamBufferSpacesAvailable c s.xTail s.xHead
      if xSpace < call.xRequiredSpace then
        (({ s with senderNotified := false, xTaskWaitingToSend := true }, .asleep call xSpace),
          none)
      else ((s, afterWait call xSpace), none)
  | .asleep call xSpace =>
      if s.senderNotified ∨ choice.timedOut then
        (({ s with senderNotified := false }, .woken call xSpace), none)
      else ((s, .asleep call xSpace), none)
  | .woken call xSpace =>
      (({ s with xTaskWaitingToSend := false }, .checkTimeOut call xSpace), none)
  | .checkTimeOut call xSpace =>
      ((s, if choice.timedOut then afterWait call xSpace else .waitLoop call), none)
  | .readOriginalTail call => ((s, .readTail call s.xTail), none)
  | .readTail call xOriginalTail => ((s, .recheckTail call xOriginalTail s.xTail), none)
  | .recheckTail call xOriginalTail xTail =>
      if xOriginalTail ≠ s.xTail then ((s, .readOriginalTail call), none)
      else ((s, .write call (xStreamBufferSpacesAvailable c xTail s.xHead)), none)
  | .write call xSpace => ((s, prvWriteMessageToBuffer c s call xSpace), none)
  | .copy pvTxData xReturn [] xHead =>
      match xHead with
      | some xHead => (({ s with xHead := xHead }, .complete pvTxData xReturn), none)
      | none => ((s, .idle), some (.sent pvTxData xReturn))
  | .copy pvTxData xReturn (p :: ps) xHead =>
      match (p :: ps)[choice.byte]? with
      | some q =>
          (({ s with pucBuffer := Function.update s.pucBuffer q.1 q.2 },
            .copy pvTxData xReturn ((p :: ps).eraseIdx choice.byte) xHead), none)
      | none => ((s, .copy pvTxData xReturn (p :: ps) xHead), none)
  | .complete pvTxData xReturn =>
      if prvBytesInBuffer c s ≥ c.xTriggerLevelBytes then ((s, .notify pvTxData xReturn), none)
      else ((s, .idle), some (.sent pvTxData xReturn))
  | .notify pvTxData xReturn =>
      let s' := if s.xTaskWaitingToReceive then
          { s with receiverNotified := true, xTaskWaitingToReceive := false } else s
      ((s', .idle), some (.sent pvTxData xReturn))

/-! ## The reader -/

/-- Where the reader is. -/
inductive Reader
  | idle
  /-- The critical section that looks for data. -/
  | check (xBufferLengthBytes : ℕ)
  /-- In `xTaskNotifyWait`. -/
  | asleep (xBufferLengthBytes : ℕ)
  | woken (xBufferLengthBytes : ℕ)
  | readBytesAvailable (xBufferLengthBytes : ℕ)
  /-- `prvReadMessageFromBuffer` -/
  | read (xBufferLengthBytes xBytesAvailable : ℕ)
  | copyLength (xBufferLengthBytes xBytesAvailable : ℕ) (pending : List (ℕ × ℕ)) (got : ℕ → UInt8)
      (xNextTail : ℕ)
  | copy (xCount : ℕ) (pending : List (ℕ × ℕ)) (got : ℕ → UInt8) (xNextTail : ℕ)
  /-- `sbRECEIVE_COMPLETED` -/
  | notify (pvRxData : List UInt8)

/-- `xStreamBufferReceive`, up to its first look at the data; `xStreamBufferReceiveFromISR` is the
one that does not wait. -/
def xStreamBufferReceive (xBufferLengthBytes : ℕ) (wait : Bool) : Reader :=
  if wait then .check xBufferLengthBytes else .readBytesAvailable xBufferLengthBytes

/-- `xBytesToStoreMessageLength` -/
def xBytesToStoreMessageLength : ℕ := if c.isMessageBuffer then bytesToStoreMessageLength else 0

/-- Behind the look at the data. -/
def afterCheck (xBufferLengthBytes xBytesAvailable : ℕ) : Reader × Option Out :=
  if xBytesAvailable > xBytesToStoreMessageLength c then
    (.read xBufferLengthBytes xBytesAvailable, none)
  else (.idle, some (.received []))

/-- The second half of `prvReadMessageFromBuffer`, from the minimum of the wanted and the available
bytes on, up to its first load. -/
def readData (xNextMessageLength xBytesAvailable xNextTail : ℕ) : Reader × Option Out :=
  let xCount := min xNextMessageLength xBytesAvailable
  if xCount ≠ 0 then
    let data := prvReadBytesFromBuffer c xCount xNextTail
    (.copy xCount data.1 (fun _ => 0) data.2, none)
  else (.idle, some (.received []))

/-- One step of the reader. -/
def readerStep (choice : Choice) (s : Shared) : Reader → (Shared × Reader) × Option Out
  | .idle => ((s, .idle), none)
  | .check xBufferLengthBytes =>
      let xBytesAvailable := prvBytesInBuffer c s
      if xBytesAvailable ≤ xBytesToStoreMessageLength c then
        (({ s with receiverNotified := false, xTaskWaitingToReceive := true },
          .asleep xBufferLengthBytes), none)
      else
        let r := afterCheck c xBufferLengthBytes xBytesAvailable
        ((s, r.1), r.2)
  | .asleep xBufferLengthBytes =>
      if s.receiverNotified ∨ choice.timedOut then
        (({ s with receiverNotified := false }, .woken xBufferLengthBytes), none)
      else ((s, .asleep xBufferLengthBytes), none)
  | .woken xBufferLengthBytes =>
      (({ s with xTaskWaitingToReceive := false }, .readBytesAvailable xBufferLengthBytes), none)
  | .readBytesAvailable xBufferLengthBytes =>
      let r := afterCheck c xBufferLengthBytes (prvBytesInBuffer c s)
      ((s, r.1), r.2)
  | .read xBufferLengthBytes xBytesAvailable =>
      if c.isMessageBuffer then
        let length := prvReadBytesFromBuffer c bytesToStoreMessageLength s.xTail
        ((s, .copyLength xBufferLengthBytes xBytesAvailable length.1 (fun _ => 0) length.2), none)
      else
        let r := readData c xBufferLengthBytes xBytesAvailable s.xTail
        ((s, r.1), r.2)
  | .copyLength xBufferLengthBytes xBytesAvailable [] got xNextTail =>
      let xNextMessageLength := leNat ((List.range bytesToStoreMessageLength).map got)
      let r := readData c
        (if xNextMessageLength > xBufferLengthBytes then 0 else xNextMessageLength)
        (xBytesAvailable - bytesToStoreMessageLength) xNextTail
      ((s, r.1), r.2)
  | .copyLength xBufferLengthBytes xBytesAvailable (p :: ps) got xNextTail =>
      match (p :: ps)[choice.byte]? with
      | some q =>
          ((s, .copyLength xBufferLengthBytes xBytesAvailable ((p :: ps).eraseIdx choice.byte)
            (Function.update got q.1 (s.pucBuffer q.2)) xNextTail), none)
      | none => ((s, .copyLength xBufferLengthBytes xBytesAvailable (p :: ps) got xNextTail), none)
  | .copy xCount [] got xNextTail =>
      (({ s with xTail := xNextTail }, .notify ((List.range xCount).map got)), none)
  | .copy xCount (p :: ps) got xNextTail =>
      match (p :: ps)[choice.byte]? with
      | some q =>
          ((s, .copy xCount ((p :: ps).eraseIdx choice.byte)
            (Function.update got q.1 (s.pucBuffer q.2)) xNextTail), none)
      | none => ((s, .copy xCount (p :: ps) got xNextTail), none)
  | .notify pvRxData =>
      let s' := if s.xTaskWaitingToSend then
          { s with senderNotified := true, xTaskWaitingToSend := false } else s
      ((s', .idle), some (.received pvRxData))

/-! ## Both -/

/-- The buffer and its two sides. -/
structure System where
  shared : Shared
  writer : Writer
  reader : Reader

/-- What happens next: a call of an idle side, a step of a side, or a notification of one of the
tasks that has nothing to do with the buffer. -/
inductive Action
  | send (pvTxData : List UInt8) (wait : Bool)
  | sendFromISR (pvTxData : List UInt8)
  | receive (xBufferLengthBytes : ℕ) (wait : Bool)
  | writer (choice : Choice)
  | reader (choice : Choice)
  | notifySender
  | notifyReceiver

/-- A writer that is idle starts a call. -/
def startSend (sys : System) (w : Writer) : System × Option Out :=
  match sys.writer with
  | .idle => ({ sys with writer := w }, none)
  | _ => (sys, none)

/-- A reader that is idle starts a call. -/
def startReceive (sys : System) (r : Reader) : System × Option Out :=
  match sys.reader with
  | .idle => ({ sys with reader := r }, none)
  | _ => (sys, none)

/-- One step of the two sides together. -/
def step (sys : System) : Action → System × Option Out
  | .send pvTxData wait => startSend sys (xStreamBufferSend c pvTxData wait)
  | .sendFromISR pvTxData => startSend sys (xStreamBufferSendFromISR c pvTxData)
  | .receive xBufferLengthBytes wait =>
      startReceive sys (xStreamBufferReceive xBufferLengthBytes wait)
  | .writer choice =>
      let w := writerStep c choice sys.shared sys.writer
      (⟨w.1.1, w.1.2, sys.reader⟩, w.2)
  | .reader choice =>
      let r := readerStep c choice sys.shared sys.reader
      (⟨r.1.1, sys.writer, r.1.2⟩, r.2)
  | .notifySender => ({ sys with shared := { sys.shared with senderNotified := true } }, none)
  | .notifyReceiver => ({ sys with shared := { sys.shared with receiverNotified := true } }, none)

/-- `prvInitialiseNewStreamBuffer`: the indices and the handles are cleared, the storage area and
the notification states are as they were. -/
def prvInitialiseNewStreamBuffer (pucBuffer : ℕ → UInt8) (receiverNotified senderNotified : Bool) :
    System where
  shared :=
    { xTail := 0
      xHead := 0
      xTaskWaitingToReceive := false
      xTaskWaitingToSend := false
      pucBuffer := pucBuffer
      receiverNotified := receiverNotified
      senderNotified := senderNotified }
  writer := .idle
  reader := .idle

end StreamBuffer

end EmbeddedMCU

import EmbeddedMCU.FreeRTOS.StreamBufferLossless

/-!
# FreeRTOS/StreamBufferWakeup — no side sleeps on what the other has done

    reader:  … store xTail ── notify ──▸        writer asleep ⇒ no room, or the reader is at notify
    writer:  … store xHead ── complete ── notify ──▸        and the other way round

A side registers its handle in the critical section that found nothing for it, so whatever comes
after that comes before the other side's look at the handle.
-/

namespace EmbeddedMCU

namespace StreamBuffer

variable (c : Config)

/-! ## Who sleeps, and who is on the way to wake him -/

/-- The send the writer sleeps in. -/
def Writer.asleep? : Writer → Option SendCall
  | .asleep call _ => some call
  | _ => none

/-- The send whose wait loop the writer is in. -/
def Writer.waiting? : Writer → Option SendCall
  | .waitLoop call => some call
  | .asleep call _ => some call
  | .woken call _ => some call
  | .checkTimeOut call _ => some call
  | _ => none

/-- The writer has registered its handle, and not taken it back. -/
def Writer.registered : Writer → Bool
  | .asleep _ _ => true
  | .woken _ _ => true
  | _ => false

/-- The writer has stored the head and not told the reader yet. -/
def Writer.finishing : Writer → Bool
  | .complete _ _ => true
  | .notify _ _ => true
  | _ => false

/-- The reader sleeps. -/
def Reader.isAsleep : Reader → Bool
  | .asleep _ => true
  | _ => false

/-- The reader has registered its handle, and not taken it back. -/
def Reader.registered : Reader → Bool
  | .asleep _ => true
  | .woken _ => true
  | _ => false

/-- The reader has stored the tail and not told the writer yet. -/
def Reader.finishing : Reader → Bool
  | .notify _ => true
  | _ => false

/-- **A writer that sleeps has no room, or is about to be told.** -/
structure SenderAwake (s : Shared) (w : Writer) (r : Reader) : Prop where
  registered : s.xTaskWaitingToSend → w.registered
  required : ∀ call, w.waiting? = some call → call.xRequiredSpace < c.xLength
  awake : ∀ call, w.asleep? = some call → s.senderNotified = false →
    s.xTaskWaitingToSend
      ∧ (xStreamBufferSpacesAvailable c s.xTail s.xHead < call.xRequiredSpace ∨ r.finishing)

/-- **A reader that sleeps has less than the trigger level, or is about to be told.** -/
structure ReceiverAwake (s : Shared) (w : Writer) (r : Reader) : Prop where
  registered : s.xTaskWaitingToReceive → r.registered
  awake : r.isAsleep → s.receiverNotified = false →
    s.xTaskWaitingToReceive
      ∧ (prvBytesInBuffer c s < c.xTriggerLevelBytes ∨ w.finishing)

section Steps

variable {c} {s : Shared} {w : Writer} {r : Reader}

theorem waiting?_afterWait (call : SendCall) (xSpace : ℕ) :
    (afterWait call xSpace).waiting? = none := by
  rw [afterWait]
  split_ifs <;> rfl

theorem registered_afterWait (call : SendCall) (xSpace : ℕ) :
    (afterWait call xSpace).registered = false := by
  rw [afterWait]
  split_ifs <;> rfl

theorem waiting?_prvWriteMessageToBuffer (s : Shared) (call : SendCall) (xSpace : ℕ) :
    (prvWriteMessageToBuffer c s call xSpace).waiting? = none := by
  simp only [prvWriteMessageToBuffer]
  split_ifs <;> rfl

theorem registered_prvWriteMessageToBuffer (s : Shared) (call : SendCall) (xSpace : ℕ) :
    (prvWriteMessageToBuffer c s call xSpace).registered = false := by
  simp only [prvWriteMessageToBuffer]
  split_ifs <;> rfl

/-- One that sleeps is in its wait loop. -/
theorem waiting?_of_asleep? {call : SendCall} (h : w.asleep? = some call) :
    w.waiting? = some call := by
  cases w <;> simp_all [Writer.asleep?, Writer.waiting?]

/-- **A step of the writer leaves the reader awake**: the head is stored before `complete`, and what
comes of that is less than the trigger level or a notification. -/
theorem writerStep_receiverAwake (choice : Choice) (h : ReceiverAwake c s w r) :
    ReceiverAwake c (writerStep c choice s w).1.1 (writerStep c choice s w).1.2 r := by
  obtain ⟨hregistered, hawake⟩ := h
  fun_cases writerStep c choice s w
  all_goals
    refine ⟨?_, ?_⟩
    · grind -ring -linarith -order [Writer.finishing]
    · grind -ring -linarith -order [Writer.finishing, prvBytesInBuffer]

/-- A handle that is registered is that of a writer in its wait loop. -/
theorem registered_writerStep (choice : Choice) (h : SenderAwake c s w r) :
    (writerStep c choice s w).1.1.xTaskWaitingToSend →
      (writerStep c choice s w).1.2.registered := by
  obtain ⟨hregistered, -, -⟩ := h
  fun_cases writerStep c choice s w
  all_goals
    grind -ring -linarith -order [Writer.registered, registered_afterWait,
      registered_prvWriteMessageToBuffer]

/-- A writer in its wait loop sends what fits the buffer. -/
theorem waiting?_writerStep (choice : Choice) (h : SenderAwake c s w r) :
    ∀ call, (writerStep c choice s w).1.2.waiting? = some call →
      call.xRequiredSpace < c.xLength := by
  obtain ⟨-, hrequired, -⟩ := h
  fun_cases writerStep c choice s w
  all_goals
    grind -ring -linarith -order [Writer.waiting?, waiting?_afterWait,
      waiting?_prvWriteMessageToBuffer]

/-- **A step of the writer lets it sleep only when there is no room.** -/
theorem writerStep_senderAwake (choice : Choice) (h : SenderAwake c s w r) :
    SenderAwake c (writerStep c choice s w).1.1 (writerStep c choice s w).1.2 r := by
  refine ⟨registered_writerStep choice h, waiting?_writerStep choice h, ?_⟩
  obtain ⟨-, -, hawake⟩ := h
  fun_cases writerStep c choice s w
  all_goals
    grind -ring -linarith -order [Writer.asleep?, waiting?_of_asleep?, waiting?_afterWait,
      waiting?_prvWriteMessageToBuffer]

theorem finishing_afterCheck (n xBytesAvailable : ℕ) :
    (afterCheck c n xBytesAvailable).1.finishing = false
      ∧ (afterCheck c n xBytesAvailable).1.isAsleep = false
      ∧ (afterCheck c n xBytesAvailable).1.registered = false := by
  rw [afterCheck]
  split_ifs
  · exact ⟨rfl, rfl, rfl⟩
  · exact ⟨rfl, rfl, rfl⟩

theorem finishing_readData (n xBytesAvailable xNextTail : ℕ) :
    (readData c n xBytesAvailable xNextTail).1.finishing = false
      ∧ (readData c n xBytesAvailable xNextTail).1.isAsleep = false
      ∧ (readData c n xBytesAvailable xNextTail).1.registered = false := by
  simp only [readData]
  split_ifs
  · exact ⟨rfl, rfl, rfl⟩
  · exact ⟨rfl, rfl, rfl⟩

/-- **A step of the reader leaves the writer awake**: the tail is stored before `notify`. -/
theorem readerStep_senderAwake (choice : Choice) (h : SenderAwake c s w r) :
    SenderAwake c (readerStep c choice s r).1.1 w (readerStep c choice s r).1.2 := by
  obtain ⟨hregistered, hrequired, hawake⟩ := h
  fun_cases readerStep c choice s r
  all_goals
    refine ⟨?_, hrequired, ?_⟩
    · grind -ring -linarith -order
    · grind -ring -linarith -order [Reader.finishing]

/-- **A step of the reader lets it sleep only when there is nothing to read.** -/
theorem readerStep_receiverAwake (choice : Choice)
    (hempty : prvBytesInBuffer c s ≤ xBytesToStoreMessageLength c → prvBytesInBuffer c s = 0)
    (h : ReceiverAwake c s w r) :
    ReceiverAwake c (readerStep c choice s r).1.1 w (readerStep c choice s r).1.2 := by
  obtain ⟨hregistered, hawake⟩ := h
  have hpos := c.trigger_pos
  fun_cases readerStep c choice s r
  all_goals
    refine ⟨?_, ?_⟩
    · grind -ring -linarith -order [Reader.registered, finishing_afterCheck, finishing_readData]
    · grind -ring -linarith -order [Reader.isAsleep, finishing_afterCheck, finishing_readData,
        prvBytesInBuffer]

end Steps

/-! ## Runs -/

/-- What a run keeps: the channel, and both sides awake. -/
structure Awake (outs : List (Option Out)) (sys : System) : Prop where
  inv : Inv c outs sys
  sender : SenderAwake c sys.shared sys.writer sys.reader
  receiver : ReceiverAwake c sys.shared sys.writer sys.reader

section Runs

variable {c} {outs : List (Option Out)} {sys : System}

/-- A message buffer holds whole messages, so it is empty when no length fits. -/
theorem Inv.empty (h : Inv c outs sys)
    (hle : prvBytesInBuffer c sys.shared ≤ xBytesToStoreMessageLength c) :
    prvBytesInBuffer c sys.shared = 0 := by
  have hbytes := h.channel.bytes
  rw [prvBytesInBuffer, hbytes] at hle ⊢
  by_cases hc : c.isMessageBuffer
  · by_contra hne
    have := h.channel.front_fits hc (Nat.pos_of_ne_zero hne)
    rw [xBytesToStoreMessageLength_eq hc] at hle
    omega
  · rw [xBytesToStoreMessageLength, if_neg hc] at hle
    omega

/-- A send that starts has not registered, and waits for no more than there can be. -/
theorem xStreamBufferSend_awake (pvTxData : List UInt8) (wait : Bool) :
    (xStreamBufferSend c pvTxData wait).asleep? = none
      ∧ ∀ call, (xStreamBufferSend c pvTxData wait).waiting? = some call →
        call.xRequiredSpace < c.xLength := by
  have hpos := c.trigger_pos.trans c.trigger_lt
  simp only [xStreamBufferSend]
  split_ifs with hmessage hwait hwait
  · refine ⟨rfl, fun call hcall => ?_⟩
    obtain rfl := Option.some.inj hcall
    have hfits : pvTxData.length + bytesToStoreMessageLength ≤ c.xLength - 1 :=
      not_lt.mp hwait.2
    show pvTxData.length + bytesToStoreMessageLength < c.xLength
    omega
  · exact ⟨rfl, fun call hcall => absurd hcall (by simp [Writer.waiting?])⟩
  · refine ⟨rfl, fun call hcall => ?_⟩
    obtain rfl := Option.some.inj hcall
    exact lt_of_le_of_lt (min_le_right _ _) (by omega)
  · exact ⟨rfl, fun call hcall => absurd hcall (by simp [Writer.waiting?])⟩

/-- A writer that is idle starts a call awake. -/
theorem startSend_awake (h : Awake c outs sys) {w : Writer}
    (hw : w.asleep? = none ∧ ∀ call, w.waiting? = some call → call.xRequiredSpace < c.xLength) :
    SenderAwake c (startSend sys w).1.shared (startSend sys w).1.writer (startSend sys w).1.reader
      ∧ ReceiverAwake c (startSend sys w).1.shared (startSend sys w).1.writer
        (startSend sys w).1.reader := by
  obtain ⟨hregistered, hrequired, hawake⟩ := h.sender
  obtain ⟨hregistered', hawake'⟩ := h.receiver
  rw [startSend]
  split
  · next hidle =>
    rw [hidle] at hregistered hawake'
    refine ⟨⟨fun hs => absurd (hregistered hs) (by simp [Writer.registered]), hw.2, ?_⟩,
      hregistered', ?_⟩
    · intro call hcall
      simp [hw.1] at hcall
    · intro hasleep hnotified
      obtain ⟨hhandle, hless⟩ := hawake' hasleep hnotified
      exact ⟨hhandle, .inl (hless.resolve_right (by simp [Writer.finishing]))⟩
  · exact ⟨h.sender, h.receiver⟩

/-- A reader that is idle starts a call awake. -/
theorem startReceive_awake (h : Awake c outs sys) (n : ℕ) (wait : Bool) :
    SenderAwake c (startReceive sys (xStreamBufferReceive n wait)).1.shared
        (startReceive sys (xStreamBufferReceive n wait)).1.writer
        (startReceive sys (xStreamBufferReceive n wait)).1.reader
      ∧ ReceiverAwake c (startReceive sys (xStreamBufferReceive n wait)).1.shared
        (startReceive sys (xStreamBufferReceive n wait)).1.writer
        (startReceive sys (xStreamBufferReceive n wait)).1.reader := by
  obtain ⟨hregistered, hrequired, hawake⟩ := h.sender
  obtain ⟨hregistered', hawake'⟩ := h.receiver
  rw [startReceive]
  split
  · next hidle =>
    rw [hidle] at hregistered' hawake
    have hstart : (xStreamBufferReceive n wait).isAsleep = false := by
      rw [xStreamBufferReceive]
      split_ifs <;> rfl
    refine ⟨⟨hregistered, hrequired, ?_⟩,
      fun hs => absurd (hregistered' hs) (by simp [Reader.registered]), ?_⟩
    · intro call hcall hnotified
      obtain ⟨hhandle, hless⟩ := hawake call hcall hnotified
      exact ⟨hhandle, .inl (hless.resolve_right (by simp [Reader.finishing]))⟩
    · intro hasleep
      simp [hstart] at hasleep
  · exact ⟨h.sender, h.receiver⟩

/-- **Whatever happens next, both sides stay awake.** -/
theorem awake_step (h : Awake c outs sys) (a : Action) :
    Awake c (outs ++ [(step c sys a).2]) (step c sys a).1 := by
  have hinv := inv_step h.inv a
  cases a with
  | writer choice =>
    exact ⟨hinv, writerStep_senderAwake choice h.sender, writerStep_receiverAwake choice h.receiver⟩
  | reader choice =>
    exact ⟨hinv, readerStep_senderAwake choice h.sender,
      readerStep_receiverAwake choice h.inv.empty h.receiver⟩
  | send pvTxData wait =>
    obtain ⟨hsender, hreceiver⟩ := startSend_awake h (xStreamBufferSend_awake pvTxData wait)
    exact ⟨hinv, hsender, hreceiver⟩
  | sendFromISR pvTxData =>
    obtain ⟨hsender, hreceiver⟩ :=
      startSend_awake (w := xStreamBufferSendFromISR c pvTxData) h ⟨rfl, fun _ hcall => by
        simp [xStreamBufferSendFromISR, Writer.waiting?] at hcall⟩
    exact ⟨hinv, hsender, hreceiver⟩
  | receive n wait =>
    obtain ⟨hsender, hreceiver⟩ := startReceive_awake h n wait
    exact ⟨hinv, hsender, hreceiver⟩
  | notifySender =>
    exact ⟨hinv, ⟨h.sender.registered, h.sender.required, fun _ _ hn => by simp [step] at hn⟩,
      ⟨h.receiver.registered, h.receiver.awake⟩⟩
  | notifyReceiver =>
    exact ⟨hinv, ⟨h.sender.registered, h.sender.required, h.sender.awake⟩,
      ⟨h.receiver.registered, fun _ hn => by simp [step] at hn⟩⟩

theorem awake_run (buf : ℕ → UInt8) (receiverNotified senderNotified : Bool) (xs : List Action) :
    let r := run (step c) (prvInitialiseNewStreamBuffer buf receiverNotified senderNotified) xs
    Awake c r.2 r.1 := by
  refine run_outputs (Awake c) (fun _ _ a h => awake_step h a) ⟨inv_initial _ _ _, ?_, ?_⟩ xs
  · exact ⟨fun h => by simp [prvInitialiseNewStreamBuffer] at h,
      fun _ h => by simp [prvInitialiseNewStreamBuffer, Writer.waiting?] at h,
      fun _ h => by simp [prvInitialiseNewStreamBuffer, Writer.asleep?] at h⟩
  · exact ⟨fun h => by simp [prvInitialiseNewStreamBuffer] at h,
      fun h => by simp [prvInitialiseNewStreamBuffer, Reader.isAsleep] at h⟩

end Runs

/-- **No wake-up is lost**, in whatever order the two sides make their steps.  A writer that sleeps
and has not been notified has no room for what it sends, or the reader is on the way to notify it; a
reader that sleeps and has not been notified has less than the trigger level to read, or the writer
is on the way.  Both can sleep at once only when what the one sends and what the other waits for do
not fit together.  A side that registers its handle finds none registered. -/
theorem streamBuffer_wakeup (c : Config) (buf : ℕ → UInt8) (receiverNotified senderNotified : Bool)
    (xs : List Action) :
    let sys :=
      (run (step c) (prvInitialiseNewStreamBuffer buf receiverNotified senderNotified) xs).1
    (∀ call xSpace, sys.writer = .asleep call xSpace → sys.shared.senderNotified = false →
        sys.shared.xTaskWaitingToSend
          ∧ (xStreamBufferSpacesAvailable c sys.shared.xTail sys.shared.xHead < call.xRequiredSpace
            ∨ sys.reader.finishing))
      ∧ (∀ n, sys.reader = .asleep n → sys.shared.receiverNotified = false →
        sys.shared.xTaskWaitingToReceive
          ∧ (prvBytesInBuffer c sys.shared < c.xTriggerLevelBytes ∨ sys.writer.finishing))
      ∧ (∀ call xSpace n, sys.writer = .asleep call xSpace → sys.shared.senderNotified = false →
        sys.reader = .asleep n → sys.shared.receiverNotified = false →
          c.xLength < call.xRequiredSpace + c.xTriggerLevelBytes ∧ 1 < c.xTriggerLevelBytes)
      ∧ (∀ call, sys.writer = .waitLoop call → sys.shared.xTaskWaitingToSend = false)
      ∧ ∀ n, sys.reader = .check n → sys.shared.xTaskWaitingToReceive = false := by
  intro sys
  obtain ⟨hinv, hsender, hreceiver⟩ := awake_run (c := c) buf receiverNotified senderNotified xs
  have hwriter : ∀ call xSpace, sys.writer = .asleep call xSpace →
      sys.shared.senderNotified = false → sys.shared.xTaskWaitingToSend
        ∧ (xStreamBufferSpacesAvailable c sys.shared.xTail sys.shared.xHead < call.xRequiredSpace
          ∨ sys.reader.finishing) := fun call xSpace hasleep =>
    hsender.awake call (by rw [hasleep]; rfl)
  have hreader : ∀ n, sys.reader = .asleep n → sys.shared.receiverNotified = false →
      sys.shared.xTaskWaitingToReceive
        ∧ (prvBytesInBuffer c sys.shared < c.xTriggerLevelBytes ∨ sys.writer.finishing) :=
    fun n hasleep => hreceiver.awake (by rw [hasleep]; rfl)
  refine ⟨hwriter, hreader, ?_, ?_, ?_⟩
  · intro call xSpace n hasleep hnotified hasleep' hnotified'
    have hspace := (hwriter call xSpace hasleep hnotified).2.resolve_right
      (by rw [hasleep']; simp [Reader.finishing])
    have hbytes := (hreader n hasleep' hnotified').2.resolve_right
      (by rw [hasleep]; simp [Writer.finishing])
    have hrequired := hsender.required call (by rw [hasleep]; rfl)
    rw [xStreamBufferSpacesAvailable, hinv.channel.tail, hinv.channel.head,
      ringSpace_eq hinv.channel.position_le hinv.channel.room] at hspace
    rw [prvBytesInBuffer, hinv.channel.bytes] at hbytes
    omega
  · intro call hcheck
    by_contra h
    have := hsender.registered (Bool.eq_true_of_not_eq_false h)
    rw [hcheck] at this
    simp [Writer.registered] at this
  · intro n hcheck
    by_contra h
    have := hreceiver.registered (Bool.eq_true_of_not_eq_false h)
    rw [hcheck] at this
    simp [Reader.registered] at this

end StreamBuffer

end EmbeddedMCU

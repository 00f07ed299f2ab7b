import EmbeddedMCU.FreeRTOS.StreamBuffer

/-!
# FreeRTOS/StreamBufferLossless — what goes in comes out, however the two sides interleave

    accepted bytes   ────────────────────────────────
    delivered bytes  ──────────────┐└── the window ──┘
                                   R                 W

`R` bytes have been taken out and `W` put in, all in all; the indices are these two modulo the
length (`Channel`).  The writer knows a tail that was (`SeenTail`), so it knows less space than
there is; the reader knows less bytes than there are.  What the writer copies goes to free cells,
what the reader copies comes from full ones, and neither is the other's business until the index is
stored.
-/

namespace EmbeddedMCU

namespace StreamBuffer

variable (c : Config)

/-! ## What was sent and what was received -/

/-- What a message takes in the buffer. -/
def frameOf (m : List UInt8) : List UInt8 := if c.isMessageBuffer then frame m else m

/-- What a returning send has put in. -/
def Out.sent? : Option Out → List (List UInt8)
  | some (.sent pvTxData xReturn) => if xReturn = 0 then [] else [pvTxData.take xReturn]
  | _ => []

/-- What a returning receive has taken out. -/
def Out.received? : Option Out → List (List UInt8)
  | some (.received pvRxData) => if pvRxData = [] then [] else [pvRxData]
  | _ => []

/-- What a send has put in that has not returned yet. -/
def Writer.committed : Writer → List (List UInt8)
  | .complete pvTxData xReturn => [pvTxData.take xReturn]
  | .notify pvTxData xReturn => [pvTxData.take xReturn]
  | _ => []

/-- What a receive has taken out that has not returned yet. -/
def Reader.taken : Reader → List (List UInt8)
  | .notify pvRxData => [pvRxData]
  | _ => []

/-- What the sends have put in, in order. -/
def accepted (outs : List (Option Out)) (w : Writer) : List (List UInt8) :=
  outs.flatMap Out.sent? ++ w.committed

/-- What the receives have taken out, in order. -/
def delivered (outs : List (Option Out)) (r : Reader) : List (List UInt8) :=
  outs.flatMap Out.received? ++ r.taken

/-- What is in the buffer, from the tail to the head. -/
def contents (s : Shared) : List UInt8 :=
  window c.xLength s.pucBuffer s.xTail (prvBytesInBuffer c s)

/-! ## The channel -/

/-- How many bytes so many messages take. -/
def position (ms : List (List UInt8)) : ℕ := (ms.flatMap (frameOf c)).length

/-- **The buffer holds what was put in and not taken out**, at the positions the indices say. -/
structure Channel (acc del : List (List UInt8)) (xTail xHead : ℕ) (buf : ℕ → UInt8) : Prop where
  stream : del.flatMap (frameOf c)
      ++ window c.xLength buf (position c del) (position c acc - position c del)
    = acc.flatMap (frameOf c)
  tail : xTail = position c del % c.xLength
  head : xHead = position c acc % c.xLength
  room : position c acc < position c del + c.xLength
  messages : c.isMessageBuffer → del <+: acc
  bounds : ∀ m ∈ acc, m ≠ [] ∧ m.length < 2 ^ 32

section Channel

variable {c} {acc del : List (List UInt8)} {xTail xHead : ℕ} {buf : ℕ → UInt8}

theorem position_append (ms : List (List UInt8)) (m : List UInt8) :
    position c (ms ++ [m]) = position c ms + (frameOf c m).length := by
  simp [position]

theorem position_le_append (ms new : List (List UInt8)) :
    position c ms ≤ position c (ms ++ new) := by
  simp [position]

theorem length_frameOf (m : List UInt8) :
    (frameOf c m).length = xBytesToStoreMessageLength c + m.length := by
  rw [frameOf, xBytesToStoreMessageLength]
  split_ifs
  · exact length_frame m
  · rw [zero_add]

theorem Channel.position_le (h : Channel c acc del xTail xHead buf) :
    position c del ≤ position c acc := by
  have hlength := congrArg List.length h.stream
  rw [List.length_append, length_window] at hlength
  simp only [position]
  omega

/-- The indices tell how much is in the buffer. -/
theorem Channel.bytes (h : Channel c acc del xTail xHead buf) :
    ringDistance c.xLength xTail xHead = position c acc - position c del := by
  rw [h.tail, h.head]
  exact ringDistance_eq h.position_le h.room

/-- **A block is put in**: it stands in the free cells, and the head is moved behind it. -/
theorem Channel.accept (h : Channel c acc del xTail xHead buf) {m : List UInt8}
    (hm : m ≠ [] ∧ m.length < 2 ^ 32)
    (hroom : position c acc + (frameOf c m).length < position c del + c.xLength)
    (hstored : window c.xLength buf (position c acc) (frameOf c m).length = frameOf c m) :
    Channel c (acc ++ [m]) del xTail ((position c acc + (frameOf c m).length) % c.xLength) buf where
  stream := by
    have hle := h.position_le
    rw [position_append, Nat.sub_add_comm hle, window_add, ← List.append_assoc, h.stream,
      Nat.add_sub_cancel' hle, hstored]
    simp
  tail := h.tail
  head := by rw [position_append]
  room := by rwa [position_append]
  messages := fun hc => (h.messages hc).trans (List.prefix_append _ _)
  bounds := fun x hx => by
    obtain hx | hx := List.mem_append.mp hx
    · exact h.bounds x hx
    · rwa [List.mem_singleton.mp hx]

/-- **A block is taken out**: it was read at the tail, and the tail is moved behind it. -/
theorem Channel.deliver (h : Channel c acc del xTail xHead buf) {m : List UInt8}
    (hm : m.length < 2 ^ 32)
    (hle : position c del + (frameOf c m).length ≤ position c acc)
    (hread : window c.xLength buf (position c del) (frameOf c m).length = frameOf c m) :
    Channel c acc (del ++ [m]) ((position c del + (frameOf c m).length) % c.xLength) xHead buf := by
  have hstream : (del ++ [m]).flatMap (frameOf c)
        ++ window c.xLength buf (position c (del ++ [m])) (position c acc - position c (del ++ [m]))
      = acc.flatMap (frameOf c) := by
    have hsplit : position c acc - position c del
        = (frameOf c m).length + (position c acc - position c (del ++ [m])) := by
      rw [position_append]
      omega
    rw [← h.stream, hsplit, window_add, hread, position_append]
    simp
  refine ⟨hstream, by rw [position_append], h.head, ?_, fun hc => ?_, h.bounds⟩
  · have := h.room
    rw [position_append]
    omega
  · obtain ⟨rest, rfl⟩ := h.messages hc
    have hframe : frameOf c = frame := by
      funext x
      rw [frameOf, if_pos hc]
    rw [hframe, List.flatMap_append, List.flatMap_append, List.append_assoc] at hstream
    have hprefix : frame m <+: rest.flatMap frame :=
      ⟨_, by simpa using List.append_cancel_left hstream⟩
    obtain ⟨rest', rfl⟩ := exists_cons_of_frame_prefix hm
      (fun x hx => (h.bounds x (List.mem_append_right _ hx)).2) hprefix
    exact ⟨rest', by simp⟩

end Channel

/-! ## The writer -/

/-- What a send of a message asks for. -/
def CallOk (call : SendCall) : Prop :=
  c.isMessageBuffer → call.xRequiredSpace = call.pvTxData.length + bytesToStoreMessageLength

/-- The block is what `xReturn` bytes take, and the head to be stored is behind it. -/
structure Block (W : ℕ) (block pvTxData : List UInt8) (xReturn xHead : ℕ) : Prop where
  eq : block = frameOf c (pvTxData.take xReturn)
  head : xHead = (W + block.length) % c.xLength
  pos : xReturn ≠ 0
  bounds : pvTxData.take xReturn ≠ [] ∧ (pvTxData.take xReturn).length < 2 ^ 32

/-- **What the writer relies on**, when `R` bytes have been taken out and `W` put in: the tail it
has seen was one, the space it has found is there, and what it has stored is in free cells. -/
def WriterOk (R W : ℕ) (buf : ℕ → UInt8) : Writer → Prop
  | .idle => True
  | .waitLoop call => CallOk c call
  | .asleep call xSpace => CallOk c call ∧ W + xSpace < R + c.xLength
  | .woken call xSpace => CallOk c call ∧ W + xSpace < R + c.xLength
  | .checkTimeOut call xSpace => CallOk c call ∧ W + xSpace < R + c.xLength
  | .readOriginalTail call => CallOk c call
  | .readTail call xOriginalTail =>
      CallOk c call ∧ ∃ R₀ ≤ R, W < R₀ + c.xLength ∧ xOriginalTail = R₀ % c.xLength
  | .recheckTail call xOriginalTail xTail =>
      CallOk c call ∧ ∃ R₀ R₁, R₀ ≤ R₁ ∧ R₁ ≤ R ∧ W < R₀ + c.xLength
        ∧ xOriginalTail = R₀ % c.xLength ∧ xTail = R₁ % c.xLength
  | .write call xSpace => CallOk c call ∧ W + xSpace < R + c.xLength
  | .copy pvTxData xReturn pending xHead =>
      ∃ block : List UInt8, W + block.length < R + c.xLength
        ∧ Copying ((cells c.xLength W block.length).zip block) pending (fun q => buf q.1 = q.2)
        ∧ match xHead with
          | none => xReturn = 0
          | some xHead => Block c W block pvTxData xReturn xHead
  | .complete _ xReturn => xReturn ≠ 0
  | .notify _ xReturn => xReturn ≠ 0

section Writer

variable {c} {R R' W : ℕ} {buf : ℕ → UInt8}

/-- **The reader only makes room.** -/
theorem WriterOk.mono {w : Writer} (hR : R ≤ R') (h : WriterOk c R W buf w) :
    WriterOk c R' W buf w := by
  cases w with
  | idle => trivial
  | waitLoop call => exact h
  | asleep call xSpace => exact ⟨h.1, h.2.trans_le (by omega)⟩
  | woken call xSpace => exact ⟨h.1, h.2.trans_le (by omega)⟩
  | checkTimeOut call xSpace => exact ⟨h.1, h.2.trans_le (by omega)⟩
  | readOriginalTail call => exact h
  | readTail call xOriginalTail =>
    obtain ⟨hcall, R₀, hR₀, hseen⟩ := h
    exact ⟨hcall, R₀, hR₀.trans hR, hseen⟩
  | recheckTail call xOriginalTail xTail =>
    obtain ⟨hcall, R₀, R₁, hle, hR₁, hseen⟩ := h
    exact ⟨hcall, R₀, R₁, hle, hR₁.trans hR, hseen⟩
  | write call xSpace => exact ⟨h.1, h.2.trans_le (by omega)⟩
  | copy pvTxData xReturn pending xHead =>
    obtain ⟨block, hroom, hcopy⟩ := h
    exact ⟨block, hroom.trans_le (by omega), hcopy⟩
  | complete pvTxData xReturn => exact h
  | notify pvTxData xReturn => exact h

theorem prvWriteBytesToBuffer_eq {pucData : List UInt8} (h : pucData.length < c.xLength) (i : ℕ) :
    prvWriteBytesToBuffer c pucData (i % c.xLength)
      = ((cells c.xLength i pucData.length).zip pucData, (i + pucData.length) % c.xLength) := by
  rw [prvWriteBytesToBuffer, ringCells_eq h, ringNext_eq h]

/-- With nothing to store, nothing is put in. -/
theorem writerOk_nothing (hroom : W < R + c.xLength) (pvTxData : List UInt8) :
    WriterOk c R W buf (.copy pvTxData 0 [] none) :=
  ⟨[], hroom, Copying.start _ _, rfl⟩

/-- **`prvWriteMessageToBuffer` plans its stores in free cells.** -/
theorem prvWriteMessageToBuffer_ok {s : Shared} {call : SendCall} {xSpace : ℕ}
    (hhead : s.xHead = W % c.xLength) (hRW : R ≤ W) (hcall : CallOk c call)
    (hroom : W + xSpace < R + c.xLength) :
    WriterOk c R W buf (prvWriteMessageToBuffer c s call xSpace) := by
  have hlength := c.length_le
  simp only [prvWriteMessageToBuffer, hhead]
  split_ifs with hmessage hspace hzero hzero
  · have hrequired := hcall hmessage
    rw [bytesToStoreMessageLength] at hrequired
    have hhdr := length_leBytes call.pvTxData.length
    rw [prvWriteBytesToBuffer_eq (by omega), prvWriteBytesToBuffer_eq (by omega)]
    refine ⟨frame call.pvTxData, ?_, ?_, ?_⟩
    · rw [length_frame]
      omega
    · rw [length_frame, cells_add, frame, ← hhdr, ← List.zip_append (length_cells _ _)]
      exact Copying.start _ _
    · refine ⟨?_, ?_, hzero, ?_⟩
      · rw [frameOf, if_pos hmessage, List.take_length]
      · rw [length_frame, hhdr, Nat.add_assoc]
      · rw [List.take_length, ← List.length_pos_iff]
        omega
  · have hhdr := length_leBytes call.pvTxData.length
    have hrequired := hcall hmessage
    rw [bytesToStoreMessageLength] at hrequired
    rw [prvWriteBytesToBuffer_eq (by omega)]
    exact ⟨leBytes call.pvTxData.length, by omega, Copying.start _ _, rfl⟩
  · exact writerOk_nothing (by omega) _
  · have htake : (call.pvTxData.take (min call.pvTxData.length xSpace)).length
        = min call.pvTxData.length xSpace := by simp
    rw [prvWriteBytesToBuffer_eq (by omega)]
    refine ⟨call.pvTxData.take (min call.pvTxData.length xSpace), by omega, Copying.start _ _, ?_⟩
    refine ⟨?_, rfl, hzero, ?_⟩
    · rw [frameOf, if_neg hmessage]
    · rw [← List.length_pos_iff]
      omega
  · exact writerOk_nothing (by omega) _

theorem prvWriteMessageToBuffer_committed (s : Shared) (call : SendCall) (xSpace : ℕ) :
    (prvWriteMessageToBuffer c s call xSpace).committed = [] := by
  simp only [prvWriteMessageToBuffer]
  split_ifs <;> rfl

/-- Behind the wait loop, the space that was found is still there. -/
theorem afterWait_ok (buf : ℕ → UInt8) {call : SendCall} {xSpace : ℕ} (hcall : CallOk c call)
    (hroom : W + xSpace < R + c.xLength) :
    WriterOk c R W buf (afterWait call xSpace) ∧ (afterWait call xSpace).committed = [] := by
  rw [afterWait]
  split_ifs
  · exact ⟨hcall, rfl⟩
  · exact ⟨⟨hcall, hroom⟩, rfl⟩

/-- A send that starts. -/
theorem xStreamBufferSend_ok (pvTxData : List UInt8) (wait : Bool) :
    WriterOk c R W buf (xStreamBufferSend c pvTxData wait)
      ∧ (xStreamBufferSend c pvTxData wait).committed = [] := by
  simp only [xStreamBufferSend]
  split_ifs with hmessage
  · exact ⟨fun _ => rfl, rfl⟩
  · exact ⟨fun _ => rfl, rfl⟩
  · exact ⟨fun h => absurd h hmessage, rfl⟩
  · exact ⟨fun h => absurd h hmessage, rfl⟩

theorem xStreamBufferSendFromISR_ok (pvTxData : List UInt8) :
    WriterOk c R W buf (xStreamBufferSendFromISR c pvTxData)
      ∧ (xStreamBufferSendFromISR c pvTxData).committed = [] :=
  ⟨fun h => if_pos h, rfl⟩

/-- **What a step of the writer leaves**: the channel, with what it has put in, and what the reader
relies on. -/
structure WriterStep (c : Config) (acc acc' del : List (List UInt8)) (s : Shared) (w : Writer)
    (r : (Shared × Writer) × Option Out) : Prop where
  adds : ∃ new, acc' = acc ++ new ∧ Out.sent? r.2 ++ r.1.2.committed = w.committed ++ new
  window : ∀ cell ∈ cells c.xLength (position c del) (position c acc - position c del),
    r.1.1.pucBuffer cell = s.pucBuffer cell
  channel : Channel c acc' del r.1.1.xTail r.1.1.xHead r.1.1.pucBuffer
  ok : WriterOk c (position c del) (position c acc') r.1.1.pucBuffer r.1.2

variable {acc del : List (List UInt8)} {s s' : Shared} {w w' : Writer}

/-- A step that touches neither the indices nor the buffer. -/
theorem WriterStep.quiet {o : Option Out} (h : Channel c acc del s.xTail s.xHead s.pucBuffer)
    (htail : s'.xTail = s.xTail) (hhead : s'.xHead = s.xHead) (hbuf : s'.pucBuffer = s.pucBuffer)
    (hadds : Out.sent? o ++ w'.committed = w.committed)
    (hok : WriterOk c (position c del) (position c acc) s.pucBuffer w') :
    WriterStep c acc acc del s w ((s', w'), o) := by
  refine ⟨⟨[], by simp, by simpa using hadds⟩, fun _ _ => congrFun hbuf _, ?_, ?_⟩
  · rw [htail, hhead, hbuf]
    exact h
  · rw [hbuf]
    exact hok

/-- **A byte is stored**, in a free cell. -/
theorem writerStep_store {pvTxData : List UInt8} {xReturn : ℕ} {pending : List (ℕ × UInt8)}
    {xHead : Option ℕ} {k : ℕ} {q : ℕ × UInt8} (hk : pending[k]? = some q)
    (h : Channel c acc del s.xTail s.xHead s.pucBuffer)
    (hok : WriterOk c (position c del) (position c acc) s.pucBuffer
      (.copy pvTxData xReturn pending xHead)) :
    WriterStep c acc acc del s (.copy pvTxData xReturn pending xHead)
      (({ s with pucBuffer := Function.update s.pucBuffer q.1 q.2 },
        .copy pvTxData xReturn (pending.eraseIdx k) xHead), none) := by
  obtain ⟨block, hroom, hcopy, hblock⟩ := hok
  have hle := h.position_le
  have hcell : q.1 ∈ cells c.xLength (position c acc) block.length :=
    (List.of_mem_zip (hcopy.planned q (List.mem_of_getElem? hk))).1
  obtain ⟨j, hj, hq⟩ := mem_cells.mp hcell
  have hkeys :
      (((cells c.xLength (position c acc) block.length).zip block).map Prod.fst).Nodup := by
    rw [List.map_fst_zip (length_cells _ _).le]
    exact nodup_cells (by omega)
  have hwindow : window c.xLength (Function.update s.pucBuffer q.1 q.2) (position c del)
        (position c acc - position c del)
      = window c.xLength s.pucBuffer (position c del) (position c acc - position c del) := by
    rw [← hq]
    exact window_update (by omega) (by omega) _
  refine ⟨⟨[], by simp, rfl⟩, fun cell hmem => ?_, { h with stream := ?_ }, ?_⟩
  · exact List.map_eq_map_iff.mp hwindow cell hmem
  · rw [hwindow]
    exact h.stream
  · exact ⟨block, hroom, hcopy.update hkeys hk, hblock⟩

/-- **The head is stored**: the block is put in. -/
theorem writerStep_commit {pvTxData : List UInt8} {xReturn xHead : ℕ}
    (h : Channel c acc del s.xTail s.xHead s.pucBuffer)
    (hok : WriterOk c (position c del) (position c acc) s.pucBuffer
      (.copy pvTxData xReturn [] (some xHead))) :
    WriterStep c acc (acc ++ [pvTxData.take xReturn]) del s
      (.copy pvTxData xReturn [] (some xHead))
      (({ s with xHead := xHead }, .complete pvTxData xReturn), none) := by
  obtain ⟨block, hroom, hcopy, hblock⟩ := hok
  have hstored : window c.xLength s.pucBuffer (position c acc) block.length = block.map id :=
    hcopy.map_eq (length_cells _ _)
  rw [List.map_id, hblock.eq] at hstored
  have hchannel := h.accept hblock.bounds (hblock.eq ▸ hroom) hstored
  refine ⟨⟨_, rfl, rfl⟩, fun _ _ => rfl, ?_, hblock.pos⟩
  rw [hblock.head, hblock.eq]
  exact hchannel

/-- **Every step of the writer keeps the channel**, whatever is left open.  A tail that reads as
before has not moved: it cannot have gone round in between. -/
theorem writerStep_ok (choice : Choice) (h : Channel c acc del s.xTail s.xHead s.pucBuffer)
    (hw : WriterOk c (position c del) (position c acc) s.pucBuffer w) :
    ∃ acc', WriterStep c acc acc' del s w (writerStep c choice s w) := by
  have hle := h.position_le
  have hroom := h.room
  cases w with
  | idle => exact ⟨acc, .quiet h rfl rfl rfl rfl trivial⟩
  | waitLoop call =>
    have hspace : xStreamBufferSpacesAvailable c s.xTail s.xHead
        = c.xLength - 1 - (position c acc - position c del) := by
      rw [xStreamBufferSpacesAvailable, h.tail, h.head, ringSpace_eq hle hroom]
    refine ⟨acc, ?_⟩
    rw [writerStep]
    split_ifs
    · exact .quiet h rfl rfl rfl rfl ⟨hw, by omega⟩
    · have hroom' : position c acc + xStreamBufferSpacesAvailable c s.xTail s.xHead
          < position c del + c.xLength := by omega
      obtain ⟨hok, hcommitted⟩ := afterWait_ok s.pucBuffer hw hroom'
      exact .quiet h rfl rfl rfl hcommitted hok
  | asleep call xSpace =>
    refine ⟨acc, ?_⟩
    rw [writerStep]
    split_ifs
    · exact .quiet h rfl rfl rfl rfl hw
    · exact .quiet h rfl rfl rfl rfl hw
  | woken call xSpace => exact ⟨acc, .quiet h rfl rfl rfl rfl hw⟩
  | checkTimeOut call xSpace =>
    obtain ⟨hok, hcommitted⟩ := afterWait_ok s.pucBuffer hw.1 hw.2
    refine ⟨acc, ?_⟩
    rw [writerStep]
    split_ifs
    · exact .quiet h rfl rfl rfl hcommitted hok
    · exact .quiet h rfl rfl rfl rfl hw.1
  | readOriginalTail call =>
    exact ⟨acc, .quiet h rfl rfl rfl rfl ⟨hw, position c del, le_rfl, hroom, h.tail⟩⟩
  | readTail call xOriginalTail =>
    obtain ⟨hcall, R₀, hR₀, hW, hseen⟩ := hw
    exact ⟨acc, .quiet h rfl rfl rfl rfl
      ⟨hcall, R₀, position c del, hR₀, le_rfl, hW, hseen, h.tail⟩⟩
  | recheckTail call xOriginalTail xTail =>
    obtain ⟨hcall, R₀, R₁, hR, hR₁, hW, rfl, rfl⟩ := hw
    refine ⟨acc, ?_⟩
    rw [writerStep]
    split_ifs with hmoved
    · exact .quiet h rfl rfl rfl rfl hcall
    · have hstill : R₀ = position c del := by
        by_contra hne
        rw [h.tail, not_not] at hmoved
        exact mod_ne_mod (by omega) (by omega) hmoved
      have hspace := ringSpace_eq hle hroom
      rw [← h.head, show position c del = R₁ by omega] at hspace
      refine .quiet h rfl rfl rfl rfl ⟨hcall, ?_⟩
      rw [xStreamBufferSpacesAvailable, hspace]
      omega
  | write call xSpace =>
    exact ⟨acc, .quiet h rfl rfl rfl (prvWriteMessageToBuffer_committed _ _ _)
      (prvWriteMessageToBuffer_ok h.head hle hw.1 hw.2)⟩
  | copy pvTxData xReturn pending xHead =>
    match pending, xHead with
    | [], some xHead => exact ⟨_, writerStep_commit h hw⟩
    | [], none =>
      obtain ⟨_, _, _, hzero⟩ := hw
      exact ⟨acc, .quiet h rfl rfl rfl (by rw [Out.sent?, if_pos hzero]; rfl) trivial⟩
    | p :: ps, xHead =>
      refine ⟨acc, ?_⟩
      rw [writerStep]
      cases hk : (p :: ps)[choice.byte]? with
      | some q => exact writerStep_store hk h hw
      | none => exact .quiet h rfl rfl rfl rfl hw
  | complete pvTxData xReturn =>
    have hsent : Out.sent? (some (.sent pvTxData xReturn)) = [pvTxData.take xReturn] := if_neg hw
    refine ⟨acc, ?_⟩
    rw [writerStep]
    split_ifs
    · exact .quiet h rfl rfl rfl rfl hw
    · exact .quiet h rfl rfl rfl (by rw [hsent]; rfl) trivial
  | notify pvTxData xReturn =>
    have hsent : Out.sent? (some (.sent pvTxData xReturn)) = [pvTxData.take xReturn] := if_neg hw
    refine ⟨acc, ?_⟩
    rw [writerStep]
    split_ifs
    · exact .quiet h rfl rfl rfl (by rw [hsent]; rfl) trivial
    · exact .quiet h rfl rfl rfl (by rw [hsent]; rfl) trivial

end Writer

/-! ## The reader -/

/-- **What the reader relies on**: the bytes it has found are there, the message in front is whole,
and what it loads is part of it. -/
def ReaderOk (R W : ℕ) (buf : ℕ → UInt8) : Reader → Prop
  | .read _ xBytesAvailable =>
      R + xBytesAvailable ≤ W ∧ xBytesToStoreMessageLength c < xBytesAvailable
        ∧ (c.isMessageBuffer → 4 + leNat (window c.xLength buf R 4) ≤ xBytesAvailable)
  | .copyLength _ xBytesAvailable pending got xNextTail =>
      c.isMessageBuffer ∧ R + xBytesAvailable ≤ W
        ∧ 4 + leNat (window c.xLength buf R 4) ≤ xBytesAvailable
        ∧ xNextTail = (R + 4) % c.xLength
        ∧ Copying ((List.range 4).zip (cells c.xLength R 4)) pending (fun q => got q.1 = buf q.2)
  | .copy xCount pending got xNextTail =>
      xCount ≠ 0 ∧ R + (xBytesToStoreMessageLength c + xCount) ≤ W
        ∧ xNextTail = (R + (xBytesToStoreMessageLength c + xCount)) % c.xLength
        ∧ Copying ((List.range xCount).zip
            (cells c.xLength (R + xBytesToStoreMessageLength c) xCount)) pending
            (fun q => got q.1 = buf q.2)
        ∧ (c.isMessageBuffer → leNat (window c.xLength buf R 4) = xCount)
  | .notify pvRxData => pvRxData ≠ []
  | _ => True

section Reader

variable {c} {R W W' : ℕ} {buf buf' : ℕ → UInt8}

theorem xBytesToStoreMessageLength_eq (h : c.isMessageBuffer) : xBytesToStoreMessageLength c = 4 :=
  if_pos h

/-- **The writer only adds**: what is there stays as it is. -/
theorem ReaderOk.mono {r : Reader} (hW : W ≤ W')
    (hbuf : ∀ cell ∈ cells c.xLength R (W - R), buf' cell = buf cell) (h : ReaderOk c R W buf r) :
    ReaderOk c R W' buf' r := by
  have hfront : ∀ n ≤ W - R, window c.xLength buf' R n = window c.xLength buf R n := fun n hn =>
    window_congr fun cell hcell => hbuf cell (mem_cells_of_mem (a := 0) (by omega) hcell)
  cases r with
  | read n xBytesAvailable =>
    obtain ⟨hle, hlt, hfits⟩ := h
    refine ⟨hle.trans hW, hlt, fun hc => ?_⟩
    rw [xBytesToStoreMessageLength_eq hc] at hlt
    rw [hfront 4 (by omega)]
    exact hfits hc
  | copyLength n xBytesAvailable pending got xNextTail =>
    obtain ⟨hc, hle, hfits, hnext, hcopy⟩ := h
    refine ⟨hc, hle.trans hW, ?_, hnext, hcopy.mono fun q hq hgot => ?_⟩
    · rw [hfront 4 (by omega)]
      exact hfits
    · rw [hgot, hbuf q.2 (mem_cells_of_mem (a := 0) (by omega) (List.of_mem_zip hq).2)]
  | copy xCount pending got xNextTail =>
    obtain ⟨hpos, hle, hnext, hcopy, hlength⟩ := h
    refine ⟨hpos, hle.trans hW, hnext, hcopy.mono fun q hq hgot => ?_, fun hc => ?_⟩
    · rw [hgot, hbuf q.2 (mem_cells_of_mem (by omega) (List.of_mem_zip hq).2)]
    · have hhdr := xBytesToStoreMessageLength_eq hc
      rw [hfront 4 (by omega)]
      exact hlength hc
  | notify pvRxData => exact h
  | idle => trivial
  | check n => trivial
  | asleep n => trivial
  | woken n => trivial
  | readBytesAvailable n => trivial

theorem prvReadBytesFromBuffer_eq {xCount : ℕ} (h : xCount < c.xLength) (i : ℕ) :
    prvReadBytesFromBuffer c xCount (i % c.xLength)
      = ((List.range xCount).zip (cells c.xLength i xCount), (i + xCount) % c.xLength) := by
  rw [prvReadBytesFromBuffer, ringCells_eq h, ringNext_eq h]

variable {acc del : List (List UInt8)} {xTail xHead : ℕ}

/-- **What is in a message buffer starts with a whole message.** -/
theorem Channel.front_fits (h : Channel c acc del xTail xHead buf) (hc : c.isMessageBuffer)
    (hpos : 0 < position c acc - position c del) :
    4 < position c acc - position c del
      ∧ 4 + leNat (window c.xLength buf (position c del) 4) ≤ position c acc - position c del := by
  obtain ⟨rest, rfl⟩ := h.messages hc
  have hframe : frameOf c = frame := by
    funext x
    rw [frameOf, if_pos hc]
  have hstream := h.stream
  rw [List.flatMap_append] at hstream
  have hwindow := List.append_cancel_left hstream
  cases rest with
  | nil => simp at hpos
  | cons m rest =>
    obtain ⟨hne, hlt⟩ := h.bounds m (by simp)
    have hmpos := List.length_pos_iff.mpr hne
    rw [List.flatMap_cons, hframe] at hwindow
    have hlength := congrArg List.length hwindow
    rw [length_window, List.length_append, length_frame] at hlength
    rw [← take_window buf _ (show 4 ≤ position c (del ++ m :: rest) - position c del by omega),
      hwindow, leNat_take_frame hlt]
    omega

/-- **What a step of the reader leaves**: the channel, without what it has taken out. -/
structure ReaderStep (c : Config) (acc del del' : List (List UInt8)) (s : Shared) (r : Reader)
    (res : (Shared × Reader) × Option Out) : Prop where
  adds : ∃ new, del' = del ++ new ∧ Out.received? res.2 ++ res.1.2.taken = r.taken ++ new
  buffer : res.1.1.pucBuffer = s.pucBuffer
  channel : Channel c acc del' res.1.1.xTail res.1.1.xHead res.1.1.pucBuffer
  ok : ReaderOk c (position c del') (position c acc) res.1.1.pucBuffer res.1.2

variable {s s' : Shared} {r r' : Reader}

/-- A step that touches no index. -/
theorem ReaderStep.quiet {o : Option Out} (h : Channel c acc del s.xTail s.xHead s.pucBuffer)
    (htail : s'.xTail = s.xTail) (hhead : s'.xHead = s.xHead) (hbuf : s'.pucBuffer = s.pucBuffer)
    (hadds : Out.received? o ++ r'.taken = r.taken)
    (hok : ReaderOk c (position c del) (position c acc) s.pucBuffer r') :
    ReaderStep c acc del del s r ((s', r'), o) := by
  refine ⟨⟨[], by simp, by simpa using hadds⟩, hbuf, ?_, ?_⟩
  · rw [htail, hhead, hbuf]
    exact h
  · rw [hbuf]
    exact hok

/-- **The reader plans its loads in full cells**, when there is something to read. -/
theorem readData_ok {xNextMessageLength xBytesAvailable xNextTail : ℕ} (hWL : W < R + c.xLength)
    (hnext : xNextTail = (R + xBytesToStoreMessageLength c) % c.xLength)
    (hle : R + (xBytesToStoreMessageLength c + xBytesAvailable) ≤ W)
    (hlength : c.isMessageBuffer → xNextMessageLength ≠ 0 →
      xNextMessageLength ≤ xBytesAvailable
        ∧ leNat (window c.xLength buf R 4) = xNextMessageLength) :
    let res := readData c xNextMessageLength xBytesAvailable xNextTail
    ReaderOk c R W buf res.1 ∧ Out.received? res.2 ++ res.1.taken = [] := by
  simp only [readData]
  split_ifs with hzero
  · rw [hnext, prvReadBytesFromBuffer_eq (by omega)]
    refine ⟨⟨hzero, by omega, by rw [Nat.add_assoc], Copying.start _ _, fun hc => ?_⟩, rfl⟩
    obtain ⟨hmin, heq⟩ := hlength hc (by omega)
    rw [heq, min_eq_left hmin]
  · exact ⟨trivial, rfl⟩

/-- Behind the look at the data. -/
theorem afterCheck_ok (h : Channel c acc del s.xTail s.xHead s.pucBuffer) (n : ℕ) :
    let res := afterCheck c n (prvBytesInBuffer c s)
    ReaderOk c (position c del) (position c acc) s.pucBuffer res.1
      ∧ Out.received? res.2 ++ res.1.taken = [] := by
  have hbytes := h.bytes
  have hle := h.position_le
  simp only [afterCheck, prvBytesInBuffer, hbytes]
  split_ifs with hmore
  · exact ⟨⟨by omega, hmore, fun hc => (h.front_fits hc (by omega)).2⟩, rfl⟩
  · exact ⟨trivial, rfl⟩

/-- What is read behind the length is the message the frame holds. -/
theorem frameOf_window {xCount : ℕ}
    (hlength : c.isMessageBuffer → leNat (window c.xLength buf R 4) = xCount) :
    window c.xLength buf R (xBytesToStoreMessageLength c + xCount)
      = frameOf c (window c.xLength buf (R + xBytesToStoreMessageLength c) xCount) := by
  rw [window_add, frameOf]
  split_ifs with hc
  · rw [xBytesToStoreMessageLength_eq hc, frame, length_window, ← hlength hc,
      leBytes_leNat (length_window _ _ _)]
  · rw [xBytesToStoreMessageLength, if_neg hc, window_zero, List.nil_append, Nat.add_zero]

/-- **The tail is stored**: the block is taken out. -/
theorem readerStep_deliver {xCount xNextTail : ℕ} {got : ℕ → UInt8}
    (h : Channel c acc del s.xTail s.xHead s.pucBuffer)
    (hok : ReaderOk c (position c del) (position c acc) s.pucBuffer
      (.copy xCount [] got xNextTail)) :
    ReaderStep c acc del (del ++ [(List.range xCount).map got]) s (.copy xCount [] got xNextTail)
      (({ s with xTail := xNextTail }, .notify ((List.range xCount).map got)), none) := by
  obtain ⟨hpos, hle, hnext, hcopy, hlength⟩ := hok
  have hroom := h.room
  have hsize := c.length_le
  have hgot : (List.range xCount).map got
      = window c.xLength s.pucBuffer (position c del + xBytesToStoreMessageLength c) xCount :=
    hcopy.map_eq (by simp)
  have hframe := frameOf_window hlength
  have hframeLength : (frameOf c ((List.range xCount).map got)).length
      = xBytesToStoreMessageLength c + xCount := by rw [length_frameOf]; simp
  have hne : (List.range xCount).map got ≠ [] := by
    rw [← List.length_pos_iff]
    simpa using Nat.pos_of_ne_zero hpos
  have hlt : ((List.range xCount).map got).length < 2 ^ 32 := by
    rw [List.length_map, List.length_range]
    omega
  have hdeliver := h.deliver hlt (by rwa [hframeLength]) (by rw [hframeLength, hframe, hgot])
  rw [hframeLength, ← hnext] at hdeliver
  exact ⟨⟨_, rfl, rfl⟩, rfl, hdeliver, hne⟩

/-- The length that is wanted is the one in front, unless it is too much. -/
theorem wanted_eq {front xBytesAvailable : ℕ} (hfits : 4 + front ≤ xBytesAvailable) (n : ℕ)
    (hne : (if front > n then 0 else front) ≠ 0) :
    (if front > n then 0 else front) ≤ xBytesAvailable - bytesToStoreMessageLength
      ∧ front = if front > n then 0 else front := by
  rw [bytesToStoreMessageLength]
  split_ifs at hne ⊢ with htoo
  · exact absurd rfl hne
  · exact ⟨by omega, rfl⟩

/-- Each load goes to a place of its own. -/
theorem nodup_places (i n : ℕ) :
    (((List.range n).zip (cells c.xLength i n)).map Prod.fst).Nodup := by
  rw [List.map_fst_zip (by simp)]
  exact List.nodup_range

/-- **Every step of the reader keeps the channel**, whatever is left open. -/
theorem readerStep_ok (choice : Choice) (h : Channel c acc del s.xTail s.xHead s.pucBuffer)
    (hr : ReaderOk c (position c del) (position c acc) s.pucBuffer r) :
    ∃ del', ReaderStep c acc del del' s r (readerStep c choice s r) := by
  have hroom := h.room
  cases r with
  | idle => exact ⟨del, .quiet h rfl rfl rfl rfl trivial⟩
  | check n =>
    obtain ⟨hok, hadds⟩ := afterCheck_ok h n
    refine ⟨del, ?_⟩
    simp only [readerStep]
    split_ifs
    · exact .quiet h rfl rfl rfl rfl trivial
    · exact .quiet h rfl rfl rfl hadds hok
  | asleep n =>
    refine ⟨del, ?_⟩
    rw [readerStep]
    split_ifs
    · exact .quiet h rfl rfl rfl rfl trivial
    · exact .quiet h rfl rfl rfl rfl trivial
  | woken n => exact ⟨del, .quiet h rfl rfl rfl rfl trivial⟩
  | readBytesAvailable n =>
    obtain ⟨hok, hadds⟩ := afterCheck_ok h n
    exact ⟨del, .quiet h rfl rfl rfl hadds hok⟩
  | read n xBytesAvailable =>
    obtain ⟨hle, hlt, hfits⟩ := hr
    refine ⟨del, ?_⟩
    simp only [readerStep]
    split_ifs with hc
    · refine .quiet h rfl rfl rfl rfl ?_
      rw [xBytesToStoreMessageLength_eq hc] at hlt
      rw [h.tail, bytesToStoreMessageLength, prvReadBytesFromBuffer_eq (by omega)]
      exact ⟨hc, hle, hfits hc, rfl, Copying.start _ _⟩
    · have hhdr : xBytesToStoreMessageLength c = 0 := if_neg hc
      have hwanted : c.isMessageBuffer → n ≠ 0 → n ≤ xBytesAvailable
          ∧ leNat (window c.xLength s.pucBuffer (position c del) 4) = n := fun hc' => absurd hc' hc
      have hnext : s.xTail = (position c del + xBytesToStoreMessageLength c) % c.xLength := by
        rw [hhdr, Nat.add_zero, h.tail]
      obtain ⟨hok, hadds⟩ := readData_ok hroom hnext (by omega) hwanted
      exact .quiet h rfl rfl rfl hadds hok
  | copyLength n xBytesAvailable pending got xNextTail =>
    refine ⟨del, ?_⟩
    match pending with
    | [] =>
      obtain ⟨hc, hle, hfits, hnext, hcopy⟩ := hr
      have hgot : (List.range bytesToStoreMessageLength).map got
          = window c.xLength s.pucBuffer (position c del) 4 :=
        hcopy.map_eq (List.length_range.trans (length_cells _ _).symm)
      have hhdr := xBytesToStoreMessageLength_eq hc
      have htail : xNextTail
          = (position c del + xBytesToStoreMessageLength c) % c.xLength := by rw [hnext, hhdr]
      simp only [readerStep, hgot]
      obtain ⟨hok, hadds⟩ := readData_ok hroom htail
        (by rw [hhdr, bytesToStoreMessageLength]; omega) fun _ => wanted_eq hfits n
      generalize readData c _ _ _ = res at hok hadds ⊢
      exact .quiet h rfl rfl rfl hadds hok
    | p :: ps =>
      obtain ⟨hc, hle, hfits, hnext, hcopy⟩ := hr
      rw [readerStep]
      cases hk : (p :: ps)[choice.byte]? with
      | some q =>
        exact .quiet h rfl rfl rfl rfl
          ⟨hc, hle, hfits, hnext, hcopy.update (nodup_places _ _) hk⟩
      | none => exact .quiet h rfl rfl rfl rfl ⟨hc, hle, hfits, hnext, hcopy⟩
  | copy xCount pending got xNextTail =>
    match pending with
    | [] => exact ⟨_, readerStep_deliver h hr⟩
    | p :: ps =>
      obtain ⟨hpos, hle, hnext, hcopy, hlength⟩ := hr
      refine ⟨del, ?_⟩
      rw [readerStep]
      cases hk : (p :: ps)[choice.byte]? with
      | some q =>
        exact .quiet h rfl rfl rfl rfl
          ⟨hpos, hle, hnext, hcopy.update (nodup_places _ _) hk, hlength⟩
      | none => exact .quiet h rfl rfl rfl rfl ⟨hpos, hle, hnext, hcopy, hlength⟩
  | notify pvRxData =>
    have hreceived : Out.received? (some (.received pvRxData)) = [pvRxData] := if_neg hr
    refine ⟨del, ?_⟩
    simp only [readerStep]
    split_ifs
    · exact .quiet h rfl rfl rfl (by rw [hreceived]; rfl) trivial
    · exact .quiet h rfl rfl rfl (by rw [hreceived]; rfl) trivial

end Reader

/-! ## Both -/

/-- **The invariant of the two sides.** -/
structure Inv (outs : List (Option Out)) (sys : System) : Prop where
  channel : Channel c (accepted outs sys.writer) (delivered outs sys.reader) sys.shared.xTail
    sys.shared.xHead sys.shared.pucBuffer
  writer : WriterOk c (position c (delivered outs sys.reader))
    (position c (accepted outs sys.writer)) sys.shared.pucBuffer sys.writer
  reader : ReaderOk c (position c (delivered outs sys.reader))
    (position c (accepted outs sys.writer)) sys.shared.pucBuffer sys.reader

section Both

variable {c} {outs : List (Option Out)} {sys : System}

/-- Nothing has gone through an empty buffer. -/
theorem inv_initial (buf : ℕ → UInt8) (receiverNotified senderNotified : Bool) :
    Inv c [] (prvInitialiseNewStreamBuffer buf receiverNotified senderNotified) := by
  have hpos := c.trigger_pos.trans c.trigger_lt
  refine ⟨⟨rfl, (Nat.zero_mod _).symm, (Nat.zero_mod _).symm, ?_, fun _ => List.prefix_rfl, ?_⟩,
    trivial, trivial⟩
  · exact Nat.lt_add_of_pos_right hpos
  · intro m hm
    exact absurd hm List.not_mem_nil

theorem accepted_concat_none (w : Writer) : accepted (outs ++ [none]) w = accepted outs w := by
  simp [accepted, Out.sent?]

theorem delivered_concat_none (r : Reader) : delivered (outs ++ [none]) r = delivered outs r := by
  simp [delivered, Out.received?]

/-- A step that only changes handles, or starts a call. -/
theorem Inv.quiet {sys' : System} (h : Inv c outs sys)
    (htail : sys'.shared.xTail = sys.shared.xTail) (hhead : sys'.shared.xHead = sys.shared.xHead)
    (hbuf : sys'.shared.pucBuffer = sys.shared.pucBuffer)
    (hacc : sys'.writer.committed = sys.writer.committed)
    (hdel : sys'.reader.taken = sys.reader.taken)
    (hwriter : WriterOk c (position c (delivered outs sys.reader))
      (position c (accepted outs sys.writer)) sys.shared.pucBuffer sys'.writer)
    (hreader : ReaderOk c (position c (delivered outs sys.reader))
      (position c (accepted outs sys.writer)) sys.shared.pucBuffer sys'.reader) :
    Inv c (outs ++ [none]) sys' := by
  have haccepted : accepted (outs ++ [none]) sys'.writer = accepted outs sys.writer := by
    rw [accepted_concat_none, accepted, accepted, hacc]
  have hdelivered : delivered (outs ++ [none]) sys'.reader = delivered outs sys.reader := by
    rw [delivered_concat_none, delivered, delivered, hdel]
  refine ⟨?_, ?_, ?_⟩
  · rw [haccepted, hdelivered, htail, hhead, hbuf]
    exact h.channel
  · rw [haccepted, hdelivered, hbuf]
    exact hwriter
  · rw [haccepted, hdelivered, hbuf]
    exact hreader

/-- The writer receives nothing. -/
theorem received?_writerStep (choice : Choice) (s : Shared) (w : Writer) :
    Out.received? (writerStep c choice s w).2 = [] := by
  fun_cases writerStep c choice s w <;> rfl

theorem sent?_afterCheck (n xBytesAvailable : ℕ) :
    Out.sent? (afterCheck c n xBytesAvailable).2 = [] := by
  rw [afterCheck]
  split_ifs <;> rfl

theorem sent?_readData (n xBytesAvailable xNextTail : ℕ) :
    Out.sent? (readData c n xBytesAvailable xNextTail).2 = [] := by
  simp only [readData]
  split_ifs <;> rfl

/-- The reader sends nothing. -/
theorem sent?_readerStep (choice : Choice) (s : Shared) (r : Reader) :
    Out.sent? (readerStep c choice s r).2 = [] := by
  fun_cases readerStep c choice s r with
  | case3 => exact sent?_afterCheck _ _
  | case7 => exact sent?_afterCheck _ _
  | case9 => exact sent?_readData _ _ _
  | case10 => exact sent?_readData _ _ _
  | _ => rfl

/-- **A step of the writer is a step of both.** -/
theorem inv_writer (h : Inv c outs sys) (choice : Choice) :
    Inv c (outs ++ [(step c sys (.writer choice)).2]) (step c sys (.writer choice)).1 := by
  obtain ⟨_, ⟨new, rfl, hnew⟩, hwindow, hchannel, hok⟩ :=
    writerStep_ok choice h.channel h.writer
  have haccepted : accepted (outs ++ [(step c sys (.writer choice)).2])
      (step c sys (.writer choice)).1.writer = accepted outs sys.writer ++ new := by
    simp only [accepted, step, List.flatMap_append, List.flatMap_singleton, List.append_assoc]
    rw [hnew]
  have hdelivered : delivered (outs ++ [(step c sys (.writer choice)).2])
      (step c sys (.writer choice)).1.reader = delivered outs sys.reader := by
    simp only [delivered, step, List.flatMap_append, List.flatMap_singleton]
    rw [received?_writerStep, List.append_nil]
  refine ⟨?_, ?_, ?_⟩
  · rw [haccepted, hdelivered]
    exact hchannel
  · rw [haccepted, hdelivered]
    exact hok
  · rw [haccepted, hdelivered]
    exact h.reader.mono (position_le_append _ _) hwindow

/-- **A step of the reader is a step of both.** -/
theorem inv_reader (h : Inv c outs sys) (choice : Choice) :
    Inv c (outs ++ [(step c sys (.reader choice)).2]) (step c sys (.reader choice)).1 := by
  obtain ⟨_, ⟨new, rfl, hnew⟩, hbuffer, hchannel, hok⟩ :=
    readerStep_ok choice h.channel h.reader
  have hdelivered : delivered (outs ++ [(step c sys (.reader choice)).2])
      (step c sys (.reader choice)).1.reader = delivered outs sys.reader ++ new := by
    simp only [delivered, step, List.flatMap_append, List.flatMap_singleton, List.append_assoc]
    rw [hnew]
  have haccepted : accepted (outs ++ [(step c sys (.reader choice)).2])
      (step c sys (.reader choice)).1.writer = accepted outs sys.writer := by
    simp only [accepted, step, List.flatMap_append, List.flatMap_singleton]
    rw [sent?_readerStep, List.append_nil]
  refine ⟨?_, ?_, ?_⟩
  · rw [haccepted, hdelivered]
    exact hchannel
  · rw [haccepted, hdelivered]
    have hbuf : (step c sys (.reader choice)).1.shared.pucBuffer = sys.shared.pucBuffer := hbuffer
    rw [hbuf]
    exact h.writer.mono (position_le_append _ _)
  · rw [haccepted, hdelivered]
    exact hok

/-- A call that finds the writer idle starts, another changes nothing. -/
theorem inv_startSend (h : Inv c outs sys) {w : Writer}
    (hw : WriterOk c (position c (delivered outs sys.reader))
      (position c (accepted outs sys.writer)) sys.shared.pucBuffer w ∧ w.committed = []) :
    Inv c (outs ++ [(startSend sys w).2]) (startSend sys w).1 := by
  rw [startSend]
  split
  · next hidle => exact h.quiet rfl rfl rfl (by rw [hidle, hw.2]; rfl) rfl hw.1 h.reader
  · exact h.quiet rfl rfl rfl rfl rfl h.writer h.reader

theorem inv_startReceive (h : Inv c outs sys) (n : ℕ) (wait : Bool) :
    Inv c (outs ++ [(startReceive sys (xStreamBufferReceive n wait)).2])
      (startReceive sys (xStreamBufferReceive n wait)).1 := by
  rw [startReceive]
  split
  · next hidle =>
    rw [xStreamBufferReceive]
    split_ifs
    · exact h.quiet rfl rfl rfl rfl (by rw [hidle]; rfl) h.writer trivial
    · exact h.quiet rfl rfl rfl rfl (by rw [hidle]; rfl) h.writer trivial
  · exact h.quiet rfl rfl rfl rfl rfl h.writer h.reader

/-- **Whatever happens next keeps the invariant.** -/
theorem inv_step (h : Inv c outs sys) (a : Action) :
    Inv c (outs ++ [(step c sys a).2]) (step c sys a).1 := by
  cases a with
  | writer choice => exact inv_writer h choice
  | reader choice => exact inv_reader h choice
  | send pvTxData wait => exact inv_startSend h (xStreamBufferSend_ok pvTxData wait)
  | sendFromISR pvTxData => exact inv_startSend h (xStreamBufferSendFromISR_ok pvTxData)
  | receive n wait => exact inv_startReceive h n wait
  | notifySender => exact h.quiet rfl rfl rfl rfl rfl h.writer h.reader
  | notifyReceiver => exact h.quiet rfl rfl rfl rfl rfl h.writer h.reader

/-- **The invariant holds at the end of every run**, in whatever order the two sides made their
steps. -/
theorem inv_run (buf : ℕ → UInt8) (receiverNotified senderNotified : Bool) (xs : List Action) :
    let r := run (step c) (prvInitialiseNewStreamBuffer buf receiverNotified senderNotified) xs
    Inv c r.2 r.1 :=
  run_outputs (Inv c) (fun _ _ a h => inv_step h a)
    (inv_initial buf receiverNotified senderNotified) xs

end Both

/-- **Nothing is lost, duplicated, torn or reordered**, in whatever order the two sides make their
steps: what the receives have taken out, and what is in the buffer behind it, is what the sends have
put in.  A message comes out as it went in. -/
theorem streamBuffer_lossless (c : Config) (buf : ℕ → UInt8)
    (receiverNotified senderNotified : Bool) (xs : List Action) :
    let r := run (step c) (prvInitialiseNewStreamBuffer buf receiverNotified senderNotified) xs
    (delivered r.2 r.1.reader).flatMap (frameOf c) ++ contents c r.1.shared
        = (accepted r.2 r.1.writer).flatMap (frameOf c)
      ∧ (c.isMessageBuffer → delivered r.2 r.1.reader <+: accepted r.2 r.1.writer) := by
  intro r
  have h : Inv c r.2 r.1 := inv_run buf receiverNotified senderNotified xs
  refine ⟨?_, h.channel.messages⟩
  have hcontents : contents c r.1.shared
      = window c.xLength r.1.shared.pucBuffer (position c (delivered r.2 r.1.reader))
          (position c (accepted r.2 r.1.writer) - position c (delivered r.2 r.1.reader)) := by
    rw [contents, prvBytesInBuffer, h.channel.bytes, h.channel.tail, window, window, cells_mod]
  rw [hcontents]
  exact h.channel.stream

end StreamBuffer

end EmbeddedMCU

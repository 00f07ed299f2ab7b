import Mathlib.Data.Nat.Bitwise
import Mathlib.Logic.Function.Basic
import Mathlib.Tactic.Common
import EmbeddedMCU.Machinery.Run

/-!
# FreeRTOS/Heap4 — `heap_4.c`, over a memory of block links

    xStart ──▸ ┌link│ free …┐ ┌link│ allocated…┐ ┌link│ free …┐ ──▸ pxEnd
               └────┴───────┘ └────┴───────────┘ └────┴───────┘

A memory has a `BlockLink` at every address; only the aligned ones are read.  A loop along the list
takes a bound on its turns and gives `none` when they are used up, or when it reads at `NULL`.
-/

namespace EmbeddedMCU

namespace Heap4

/-- `BlockLink_t` -/
@[ext]
structure BlockLink where
  pxNextFreeBlock : ℕ
  xBlockSize : ℕ

/-- Where the linker has put `ucHeap` and `xStart`, and `configTOTAL_HEAP_SIZE`. -/
structure Config where
  ucHeap : ℕ
  xStart : ℕ
  totalHeapSize : ℕ
  heap_pos : 0 < ucHeap
  heap_le : ucHeap + totalHeapSize ≤ 2 ^ 32
  room : 32 ≤ totalHeapSize
  small : totalHeapSize < 2 ^ 31
  xStart_outside : xStart < ucHeap ∨ ucHeap + totalHeapSize ≤ xStart

/-- The heap of the project, of 17 KiB, when the linker puts `xStart` at the beginning of the RAM
and `ucHeap` behind it. -/
def Config.project : Config where
  ucHeap := 0x20000008
  xStart := 0x20000000
  totalHeapSize := 17 * 1024
  heap_pos := by decide
  heap_le := by decide
  room := by decide
  small := by decide
  xStart_outside := .inl (by decide)

/-- The globals of the file, and the memory. -/
structure Heap where
  mem : ℕ → BlockLink
  pxEnd : ℕ
  xFreeBytesRemaining : ℕ
  xMinimumEverFreeBytesRemaining : ℕ
  xNumberOfSuccessfulAllocations : ℕ
  xNumberOfSuccessfulFrees : ℕ
  xBlockAllocatedBit : ℕ

/-- `portBYTE_ALIGNMENT` -/
def portByteAlignment : ℕ := 8

/-- `xHeapStructSize` -/
def xHeapStructSize : ℕ := 8

/-- `heapMINIMUM_BLOCK_SIZE` -/
def heapMinimumBlockSize : ℕ := xHeapStructSize <<< 1

namespace Heap

/-- `px->pxNextFreeBlock` -/
def next (h : Heap) (px : ℕ) : ℕ := (h.mem px).pxNextFreeBlock

/-- `px->xBlockSize` -/
def size (h : Heap) (px : ℕ) : ℕ := (h.mem px).xBlockSize

/-- `px->pxNextFreeBlock = a` -/
def setNext (h : Heap) (px a : ℕ) : Heap :=
  { h with mem := Function.update h.mem px { h.mem px with pxNextFreeBlock := a } }

/-- `px->xBlockSize = n` -/
def setSize (h : Heap) (px n : ℕ) : Heap :=
  { h with mem := Function.update h.mem px { h.mem px with xBlockSize := n } }

/-- `pxEnd = a` -/
def setEnd (h : Heap) (a : ℕ) : Heap := { h with pxEnd := a }

/-- The counters and the bit, when all of the `n` bytes are free. -/
def startBytes (h : Heap) (n : ℕ) : Heap :=
  { h with
    xMinimumEverFreeBytesRemaining := n
    xFreeBytesRemaining := n
    xBlockAllocatedBit := 2 ^ 31 }

/-- The counters, when `n` bytes have been taken. -/
def takeBytes (h : Heap) (n : ℕ) : Heap :=
  let xFreeBytesRemaining := h.xFreeBytesRemaining - n
  { h with
    xFreeBytesRemaining := xFreeBytesRemaining
    xMinimumEverFreeBytesRemaining :=
      if xFreeBytesRemaining < h.xMinimumEverFreeBytesRemaining then xFreeBytesRemaining
      else h.xMinimumEverFreeBytesRemaining
    xNumberOfSuccessfulAllocations := (h.xNumberOfSuccessfulAllocations + 1) % 2 ^ 32 }

/-- `xFreeBytesRemaining += n` -/
def giveBytes (h : Heap) (n : ℕ) : Heap :=
  { h with xFreeBytesRemaining := h.xFreeBytesRemaining + n }

/-- `xNumberOfSuccessfulFrees++` -/
def countFree (h : Heap) : Heap :=
  { h with xNumberOfSuccessfulFrees := (h.xNumberOfSuccessfulFrees + 1) % 2 ^ 32 }

section Fields

variable (h : Heap) (px py a n : ℕ)

@[simp] theorem next_setNext : (h.setNext px a).next py = if py = px then a else h.next py := by
  simp only [next, setNext, Function.update_apply]
  split_ifs <;> rfl

@[simp] theorem size_setNext : (h.setNext px a).size py = h.size py := by
  simp only [size, setNext, Function.update_apply]
  split_ifs with heq
  · rw [heq]
  · rfl

@[simp] theorem next_setSize : (h.setSize px n).next py = h.next py := by
  simp only [next, setSize, Function.update_apply]
  split_ifs with heq
  · rw [heq]
  · rfl

@[simp] theorem size_setSize : (h.setSize px n).size py = if py = px then n else h.size py := by
  simp only [size, setSize, Function.update_apply]
  split_ifs <;> rfl

@[simp] theorem pxEnd_setNext : (h.setNext px a).pxEnd = h.pxEnd := rfl

@[simp] theorem pxEnd_setSize : (h.setSize px n).pxEnd = h.pxEnd := rfl

@[simp] theorem pxEnd_setEnd : (h.setEnd a).pxEnd = a := rfl

@[simp] theorem next_setEnd : (h.setEnd n).next px = h.next px := rfl

@[simp] theorem size_setEnd : (h.setEnd n).size px = h.size px := rfl

@[simp] theorem next_startBytes : (h.startBytes n).next px = h.next px := rfl

@[simp] theorem size_startBytes : (h.startBytes n).size px = h.size px := rfl

@[simp] theorem next_takeBytes : (h.takeBytes n).next px = h.next px := rfl

@[simp] theorem size_takeBytes : (h.takeBytes n).size px = h.size px := rfl

@[simp] theorem next_giveBytes : (h.giveBytes n).next px = h.next px := rfl

@[simp] theorem size_giveBytes : (h.giveBytes n).size px = h.size px := rfl

@[simp] theorem next_countFree : h.countFree.next px = h.next px := rfl

@[simp] theorem size_countFree : h.countFree.size px = h.size px := rfl

end Fields

end Heap

variable (cfg : Config)

/-- The first aligned address of the heap. -/
def alignedHeap : ℕ :=
  if cfg.ucHeap % portByteAlignment ≠ 0 then
    (cfg.ucHeap + (portByteAlignment - 1)) / portByteAlignment * portByteAlignment
  else cfg.ucHeap

/-- What `prvHeapInit` makes `pxEnd`. -/
def endAddress : ℕ :=
  (alignedHeap cfg + (cfg.totalHeapSize - (alignedHeap cfg - cfg.ucHeap)) - xHeapStructSize)
    / portByteAlignment * portByteAlignment

/-- `prvHeapInit` -/
def prvHeapInit (h : Heap) : Heap :=
  let h := (h.setNext cfg.xStart (alignedHeap cfg)).setSize cfg.xStart 0
  let h := h.setEnd (endAddress cfg)
  let h := (h.setSize h.pxEnd 0).setNext h.pxEnd 0
  let h := (h.setSize (alignedHeap cfg) (endAddress cfg - alignedHeap cfg)).setNext
    (alignedHeap cfg) h.pxEnd
  h.startBytes (h.size (alignedHeap cfg))

/-! ## The free list -/

/-- A bound on the turns of a loop along the free list. -/
def turns : ℕ := cfg.totalHeapSize

/-- The loop of `prvInsertBlockIntoFreeList`: the last link before the block. -/
def findIterator (h : Heap) (pxBlockToInsert : ℕ) : ℕ → ℕ → Option ℕ
  | 0, _ => none
  | n + 1, pxIterator =>
      if h.next pxIterator < pxBlockToInsert then
        findIterator h pxBlockToInsert n (h.next pxIterator)
      else some pxIterator

/-- `prvInsertBlockIntoFreeList`, where the block and the one behind the iterator may be one. -/
def mergeBehind (h : Heap) (pxIterator pxBlockToInsert : ℕ) : Heap :=
  if pxBlockToInsert + h.size pxBlockToInsert = h.next pxIterator then
    if h.next pxIterator ≠ h.pxEnd then
      (h.setSize pxBlockToInsert (h.size pxBlockToInsert + h.size (h.next pxIterator))).setNext
        pxBlockToInsert (h.next (h.next pxIterator))
    else h.setNext pxBlockToInsert h.pxEnd
  else h.setNext pxBlockToInsert (h.next pxIterator)

/-- `prvInsertBlockIntoFreeList`, behind its loop.  A block that is one with the iterator has its
link already. -/
def insertAfter (h : Heap) (pxIterator pxBlockToInsert : ℕ) : Heap :=
  let touches := pxIterator + h.size pxIterator = pxBlockToInsert
  let h := if touches then
      h.setSize pxIterator (h.size pxIterator + h.size pxBlockToInsert) else h
  let pxBlockToInsert := if touches then pxIterator else pxBlockToInsert
  let h := mergeBehind h pxIterator pxBlockToInsert
  if pxIterator ≠ pxBlockToInsert then h.setNext pxIterator pxBlockToInsert else h

/-- `prvInsertBlockIntoFreeList` -/
def prvInsertBlockIntoFreeList (h : Heap) (pxBlockToInsert : ℕ) : Option Heap :=
  (findIterator h pxBlockToInsert (turns cfg) cfg.xStart).map
    fun pxIterator => insertAfter h pxIterator pxBlockToInsert

/-- The loop of `pvPortMalloc`: the first block that is large enough, or the end, and the link
before it. -/
def findBlock (h : Heap) (xWantedSize : ℕ) : ℕ → ℕ → ℕ → Option (ℕ × ℕ)
  | 0, _, _ => none
  | n + 1, pxPreviousBlock, pxBlock =>
      if h.size pxBlock < xWantedSize ∧ h.next pxBlock ≠ 0 then
        findBlock h xWantedSize n pxBlock (h.next pxBlock)
      else some (pxPreviousBlock, pxBlock)

/-! ## The calls -/

/-- The size `pvPortMalloc` looks for: the request and a link, aligned; `0` when that does not fit a
`size_t`. -/
def adjustedSize (xWantedSize : ℕ) : ℕ :=
  let w := (xWantedSize + xHeapStructSize) % 2 ^ 32
  if xWantedSize > 0 ∧ w > xWantedSize then
    if w % portByteAlignment ≠ 0 then
      let w' := (w + (portByteAlignment - w % portByteAlignment)) % 2 ^ 32
      if w' > w then w' else 0
    else w
  else 0

/-- The block `pvPortMalloc` has taken out, cut in two when enough is left of it. -/
def splitBlock (h : Heap) (xWantedSize pxBlock : ℕ) : Option Heap :=
  if h.size pxBlock - xWantedSize > heapMinimumBlockSize then
    let pxNewBlockLink := pxBlock + xWantedSize
    let h := h.setSize pxNewBlockLink (h.size pxBlock - xWantedSize)
    let h := h.setSize pxBlock xWantedSize
    prvInsertBlockIntoFreeList cfg h pxNewBlockLink
  else some h

/-- What `pvPortMalloc` does with the block it has found. -/
def takeBlock (h : Heap) (xWantedSize pxPreviousBlock pxBlock : ℕ) : Option (Heap × ℕ) :=
  let pvReturn := h.next pxPreviousBlock + xHeapStructSize
  let h := h.setNext pxPreviousBlock (h.next pxBlock)
  (splitBlock cfg h xWantedSize pxBlock).map fun h =>
    let h := h.takeBytes (h.size pxBlock)
    ((h.setSize pxBlock (h.size pxBlock ||| h.xBlockAllocatedBit)).setNext pxBlock 0, pvReturn)

/-- `pvPortMalloc` -/
def pvPortMalloc (h : Heap) (xWantedSize : ℕ) : Option (Heap × ℕ) :=
  let h := if h.pxEnd = 0 then prvHeapInit cfg h else h
  if xWantedSize &&& h.xBlockAllocatedBit = 0 then
    let w := adjustedSize xWantedSize
    if w > 0 ∧ w ≤ h.xFreeBytesRemaining then
      (findBlock h w (turns cfg) cfg.xStart (h.next cfg.xStart)).bind fun found =>
        if found.2 ≠ h.pxEnd then takeBlock cfg h w found.1 found.2 else some (h, 0)
    else some (h, 0)
  else some (h, 0)

/-- `vPortFree` -/
def vPortFree (h : Heap) (pv : ℕ) : Option Heap :=
  if pv ≠ 0 then
    let pxLink := pv - xHeapStructSize
    if h.size pxLink &&& h.xBlockAllocatedBit ≠ 0 ∧ h.next pxLink = 0 then
      let h := h.setSize pxLink (h.size pxLink &&& (0xFFFFFFFF ^^^ h.xBlockAllocatedBit))
      let h := h.giveBytes (h.size pxLink)
      (prvInsertBlockIntoFreeList cfg h pxLink).map Heap.countFree
    else some h
  else some h

/-- `HeapStats_t` -/
structure HeapStats where
  xAvailableHeapSpaceInBytes : ℕ
  xSizeOfLargestFreeBlockInBytes : ℕ
  xSizeOfSmallestFreeBlockInBytes : ℕ
  xNumberOfFreeBlocks : ℕ
  xMinimumEverFreeBytesRemaining : ℕ
  xNumberOfSuccessfulAllocations : ℕ
  xNumberOfSuccessfulFrees : ℕ
  deriving DecidableEq

/-- What the loop of `vPortGetHeapStats` counts. -/
structure Count where
  xBlocks : ℕ
  xMaxSize : ℕ
  xMinSize : ℕ
  deriving DecidableEq

/-- One more block of a size. -/
def Count.add (n : Count) (size : ℕ) : Count where
  xBlocks := n.xBlocks + 1
  xMaxSize := if size > n.xMaxSize then size else n.xMaxSize
  xMinSize := if size < n.xMinSize then size else n.xMinSize

/-- The loop of `vPortGetHeapStats`, which looks for the end behind the block it has counted. -/
def countBlocks (h : Heap) : ℕ → ℕ → Count → Option Count
  | 0, _, _ => none
  | n + 1, pxBlock, count =>
      if pxBlock = 0 then none
      else
        let count := count.add (h.size pxBlock)
        if h.next pxBlock ≠ h.pxEnd then countBlocks h n (h.next pxBlock) count else some count

/-- `vPortGetHeapStats` -/
def vPortGetHeapStats (h : Heap) : Option HeapStats :=
  let start := ⟨0, 0, 0xFFFFFFFF⟩
  let pxBlock := h.next cfg.xStart
  (if pxBlock ≠ 0 then countBlocks h (turns cfg) pxBlock start else some start).map fun count =>
    { xAvailableHeapSpaceInBytes := h.xFreeBytesRemaining
      xSizeOfLargestFreeBlockInBytes := count.xMaxSize
      xSizeOfSmallestFreeBlockInBytes := count.xMinSize
      xNumberOfFreeBlocks := count.xBlocks
      xMinimumEverFreeBytesRemaining := h.xMinimumEverFreeBytesRemaining
      xNumberOfSuccessfulAllocations := h.xNumberOfSuccessfulAllocations
      xNumberOfSuccessfulFrees := h.xNumberOfSuccessfulFrees }

/-! ## The application -/

/-- What the application has been given and not given back. -/
structure Allocation where
  pv : ℕ
  xWantedSize : ℕ

/-- The heap and its application. -/
structure System where
  heap : Heap
  live : List Allocation

/-- What the application does: it asks for memory, gives back some that it has, or writes to what it
has. -/
inductive Action
  | malloc (xWantedSize : UInt32)
  | free (i : ℕ)
  | freeNull
  | write (f : ℕ → BlockLink)

/-- What a call comes to. -/
inductive Out
  | allocated (pv : ℕ)
  | done
  /-- A loop did not end. -/
  | stuck
  deriving DecidableEq

/-- The address is in memory the application has. -/
def Owned (live : List Allocation) (a : ℕ) : Prop :=
  ∃ l ∈ live, l.pv ≤ a ∧ a < l.pv + l.xWantedSize

instance (live : List Allocation) (a : ℕ) : Decidable (Owned live a) := by
  unfold Owned
  infer_instance

/-- One step of the application. -/
def step (sys : System) : Action → System × Out
  | .malloc xWantedSize =>
      match pvPortMalloc cfg sys.heap xWantedSize.toNat with
      | some (h, pv) =>
          (⟨h, if pv = 0 then sys.live else sys.live ++ [⟨pv, xWantedSize.toNat⟩]⟩, .allocated pv)
      | none => (sys, .stuck)
  | .free i =>
      match sys.live[i]? with
      | some l =>
          match vPortFree cfg sys.heap l.pv with
          | some h => (⟨h, sys.live.eraseIdx i⟩, .done)
          | none => (sys, .stuck)
      | none => (sys, .done)
  | .freeNull =>
      match vPortFree cfg sys.heap 0 with
      | some h => (⟨h, sys.live⟩, .done)
      | none => (sys, .stuck)
  | .write f =>
      ({ sys with
          heap := { sys.heap with
            mem := fun a => if Owned sys.live a then f a else sys.heap.mem a } }, .done)

/-- Before the first call: the globals are zero, and the memory holds anything. -/
def initial (mem : ℕ → BlockLink) : System where
  heap :=
    { mem := Function.update mem cfg.xStart ⟨0, 0⟩
      pxEnd := 0
      xFreeBytesRemaining := 0
      xMinimumEverFreeBytesRemaining := 0
      xNumberOfSuccessfulAllocations := 0
      xNumberOfSuccessfulFrees := 0
      xBlockAllocatedBit := 0 }
  live := []

end Heap4

end EmbeddedMCU

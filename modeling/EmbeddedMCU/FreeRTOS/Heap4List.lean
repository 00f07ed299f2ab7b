import EmbeddedMCU.FreeRTOS.Heap4
import EmbeddedMCU.Machinery.Blocks

/-!
# FreeRTOS/Heap4List — the free list of `heap_4.c` is a list of blocks

    xStart.next ──▸ b₀ ──next──▸ b₁ ──next──▸ … ──▸ pxEnd          LSeg

The links in memory spell a list of blocks, in the order of the addresses and with no two touching
(`Linked`).  On that list, `prvInsertBlockIntoFreeList` is to put a block in its place and to
`coalesce` (`insert_linked`).
-/

namespace EmbeddedMCU

namespace Heap4

open Block

/-! ## Where the heap is -/

section Config

variable (cfg : Config)

theorem alignedHeap_bounds :
    8 ∣ alignedHeap cfg ∧ cfg.ucHeap ≤ alignedHeap cfg ∧ alignedHeap cfg ≤ cfg.ucHeap + 7 := by
  rw [alignedHeap, portByteAlignment]
  split_ifs
  · omega
  · omega

theorem endAddress_bounds :
    8 ∣ endAddress cfg ∧ alignedHeap cfg < endAddress cfg
      ∧ endAddress cfg + 8 ≤ cfg.ucHeap + cfg.totalHeapSize := by
  have haligned := alignedHeap_bounds cfg
  have hroom := cfg.room
  rw [endAddress, portByteAlignment, xHeapStructSize]
  omega

/-- `xStart` is not in the heap. -/
theorem xStart_ne {a : ℕ} (hle : alignedHeap cfg ≤ a) (hlt : a ≤ endAddress cfg) :
    a ≠ cfg.xStart := by
  have haligned := alignedHeap_bounds cfg
  have hend := endAddress_bounds cfg
  have hout := cfg.xStart_outside
  omega

end Config

/-! ## Segments of the list -/

/-- From `a`, the links lead through the blocks to `e`. -/
def LSeg (h : Heap) (e : ℕ) : ℕ → List Block → Prop
  | a, [] => a = e
  | a, b :: bs => a = b.addr ∧ h.size a = b.size ∧ LSeg h e (h.next a) bs

section LSeg

variable {h h' : Heap} {e a : ℕ} {b : Block} {bs lo hi : List Block}

/-- Where a list of blocks begins, `e` when it is empty. -/
def headAddr (e : ℕ) : List Block → ℕ
  | [] => e
  | b :: _ => b.addr

theorem LSeg.eq_headAddr (hseg : LSeg h e a bs) : a = headAddr e bs := by
  cases bs with
  | nil => exact hseg
  | cons b bs => exact hseg.1

/-- A list is led through in two pieces. -/
theorem lseg_append : LSeg h e a (lo ++ hi) ↔ LSeg h (headAddr e hi) a lo
    ∧ LSeg h e (headAddr e hi) hi := by
  induction lo generalizing a with
  | nil =>
    constructor
    · intro hseg
      have hhead := hseg.eq_headAddr
      exact ⟨hhead, hhead ▸ hseg⟩
    · rintro ⟨hhead, hseg⟩
      exact (show a = headAddr e hi from hhead) ▸ hseg
  | cons b lo ih =>
    rw [List.cons_append, LSeg, LSeg, ih, and_assoc, and_assoc]

/-- **What is not read may change.** -/
theorem lseg_congr (hsame : ∀ b ∈ bs, h'.next b.addr = h.next b.addr
    ∧ h'.size b.addr = h.size b.addr) : LSeg h' e a bs ↔ LSeg h e a bs := by
  induction bs generalizing a with
  | nil => rfl
  | cons b bs ih =>
    obtain ⟨hb, hbs⟩ := List.forall_mem_cons.mp hsame
    rw [LSeg, LSeg]
    refine and_congr_right fun ha => ?_
    rw [ha, hb.1, hb.2, ih hbs]

theorem LSeg.size_of_mem (hseg : LSeg h e a bs) (hb : b ∈ bs) : h.size b.addr = b.size := by
  induction bs generalizing a with
  | nil => exact absurd hb List.not_mem_nil
  | cons c bs ih =>
    obtain ⟨ha, hsize, hrest⟩ := hseg
    obtain rfl | hb := List.mem_cons.mp hb
    · exact ha ▸ hsize
    · exact ih hrest hb

/-- The last link before what follows a list, `a` when the list is empty. -/
def lastLink (a : ℕ) : List Block → ℕ
  | [] => a
  | b :: bs => lastLink b.addr bs

theorem lastLink_concat (a : ℕ) (lo : List Block) (b : Block) :
    lastLink a (lo ++ [b]) = b.addr := by
  induction lo generalizing a with
  | nil => rfl
  | cons c lo ih => exact ih c.addr

end LSeg

/-! ## The loops -/

section Loops

variable {h : Heap} {e : ℕ} {lo hi : List Block}

/-- **The loop of the insertion stops before the first block behind the address.** -/
theorem findIterator_eq {a it n : ℕ} (hseg : LSeg h e (h.next it) (lo ++ hi))
    (hlo : ∀ b ∈ lo, b.addr < a) (hhi : a ≤ headAddr e hi) (hn : lo.length < n) :
    findIterator h a n it = some (lastLink it lo) := by
  induction lo generalizing it n with
  | nil =>
    obtain ⟨n, rfl⟩ := Nat.exists_eq_add_of_lt hn
    rw [findIterator, if_neg, lastLink]
    rw [List.nil_append] at hseg
    rw [hseg.eq_headAddr]
    exact not_lt.mpr hhi
  | cons b lo ih =>
    obtain ⟨hb, hlo⟩ := List.forall_mem_cons.mp hlo
    obtain ⟨n, rfl⟩ := Nat.exists_eq_add_of_lt hn
    obtain ⟨hnext, -, hrest⟩ := hseg
    rw [findIterator, hnext, if_pos hb, lastLink]
    rw [hnext] at hrest
    exact ih hrest hlo (by rw [List.length_cons]; omega)

/-- **The loop of the allocation stops at the first block that is large enough**, or at the end. -/
theorem findBlock_eq {w prev n : ℕ} (hseg : LSeg h e (headAddr e (lo ++ hi)) (lo ++ hi))
    (hlo : ∀ b ∈ lo, b.size < w) (hnull : ∀ b ∈ lo ++ hi, b.addr ≠ 0) (he : e ≠ 0)
    (hstop : w ≤ h.size (headAddr e hi) ∨ h.next (headAddr e hi) = 0) (hn : lo.length < n) :
    findBlock h w n prev (headAddr e (lo ++ hi)) = some (lastLink prev lo, headAddr e hi) := by
  induction lo generalizing prev n with
  | nil =>
    obtain ⟨n, rfl⟩ := Nat.exists_eq_add_of_lt hn
    rw [List.nil_append, findBlock, if_neg, lastLink]
    rintro ⟨hsmall, hmore⟩
    exact hstop.elim (fun hw => absurd hsmall (not_lt.mpr hw)) hmore
  | cons b lo ih =>
    obtain ⟨hb, hlo⟩ := List.forall_mem_cons.mp hlo
    obtain ⟨n, rfl⟩ := Nat.exists_eq_add_of_lt hn
    obtain ⟨-, hsize, hrest⟩ := hseg
    have hnext := hrest.eq_headAddr
    have hmore : headAddr e (lo ++ hi) ≠ 0 := by
      cases hlist : lo ++ hi with
      | nil => exact he
      | cons c cs => exact hnull c (by rw [List.cons_append, hlist]; simp)
    rw [List.cons_append, headAddr] at hsize hrest hnext ⊢
    rw [findBlock, hsize, hnext, if_pos ⟨hb, hmore⟩, lastLink]
    rw [hnext] at hrest
    exact ih hrest hlo (fun c hc => hnull c (List.mem_cons_of_mem _ hc))
      (by rw [List.length_cons]; omega)

end Loops

/-! ## Putting a block in -/

/-- The heaps differ in their memories at most. -/
def SameGlobals (h h' : Heap) : Prop := h' = { h with mem := h'.mem }

/-- The memories agree at an address. -/
def SameAt (h h' : Heap) (x : ℕ) : Prop := h'.next x = h.next x ∧ h'.size x = h.size x

section Insert

variable {h : Heap} {b : Block} {hi : List Block} {it : ℕ}

/-- **The block is linked before what the iterator leads to**, as one with the first of it when they
touch. -/
theorem mergeBehind_lseg (hsize : h.size b.addr = b.size)
    (hseg : LSeg h h.pxEnd (h.next it) hi)
    (hfresh : ∀ c ∈ hi, c.addr ≠ b.addr ∧ c.addr ≠ h.pxEnd) :
    LSeg (mergeBehind h it b.addr) h.pxEnd b.addr (join b hi)
      ∧ (∀ x ≠ b.addr, SameAt h (mergeBehind h it b.addr) x)
      ∧ SameGlobals h (mergeBehind h it b.addr) := by
  rw [mergeBehind, hsize]
  cases hi with
  | nil =>
    have hnext : h.next it = h.pxEnd := hseg
    rw [hnext, if_neg (not_not.mpr rfl), ite_self]
    refine ⟨⟨rfl, by simpa using hsize, ?_⟩, fun x hx => ?_, rfl⟩
    · simp [LSeg]
    · simp [SameAt, hx]
  | cons c cs =>
    obtain ⟨hnext, hcsize, hrest⟩ := hseg
    obtain ⟨⟨hcb, hcend⟩, hcs⟩ := List.forall_mem_cons.mp hfresh
    have hkeep : ∀ h' : Heap, (∀ x ≠ b.addr, SameAt h h' x) →
        (LSeg h' h.pxEnd (h.next (h.next it)) cs ↔ LSeg h h.pxEnd (h.next (h.next it)) cs) :=
      fun h' hsame => lseg_congr fun d hd => hsame d.addr (hcs d hd).1
    rw [hnext] at hcsize hrest hkeep ⊢
    rw [if_pos hcend, join]
    by_cases htouch : b.stop = c.addr
    · rw [if_pos htouch, if_pos (show b.addr + b.size = c.addr from htouch)]
      have hsame : ∀ x ≠ b.addr, SameAt h
          ((h.setSize b.addr (b.size + h.size c.addr)).setNext b.addr (h.next c.addr)) x :=
        fun x hx => by simp [SameAt, hx]
      refine ⟨⟨rfl, by simp [hcsize], ?_⟩, hsame, rfl⟩
      rw [Heap.next_setNext, if_pos rfl, hkeep _ hsame]
      exact hrest
    · rw [if_neg htouch, if_neg (show ¬ b.addr + b.size = c.addr from htouch)]
      have hsame : ∀ x ≠ b.addr, SameAt h (h.setNext b.addr c.addr) x :=
        fun x hx => by simp [SameAt, hx]
      refine ⟨⟨rfl, by simpa using hsize, ?_⟩, hsame, rfl⟩
      rw [Heap.next_setNext, if_pos rfl]
      refine ⟨rfl, by simpa using hcsize, ?_⟩
      rw [(hsame c.addr hcb).1, hkeep _ hsame]
      exact hrest

/-- **A block that does not touch the iterator** is linked behind it. -/
theorem insertAfter_of_ne (hsize : h.size b.addr = b.size)
    (hseg : LSeg h h.pxEnd (h.next it) hi)
    (hfresh : ∀ c ∈ hi, c.addr ≠ b.addr ∧ c.addr ≠ h.pxEnd ∧ c.addr ≠ it)
    (hit : it ≠ b.addr) (htouch : it + h.size it ≠ b.addr)
    (hjoin : ∀ c ∈ join b hi, c.addr ≠ it) :
    LSeg (insertAfter h it b.addr) h.pxEnd b.addr (join b hi)
      ∧ (insertAfter h it b.addr).next it = b.addr
      ∧ (insertAfter h it b.addr).size it = h.size it
      ∧ (∀ x ≠ b.addr, x ≠ it → SameAt h (insertAfter h it b.addr) x)
      ∧ SameGlobals h (insertAfter h it b.addr) := by
  obtain ⟨hlseg, hsame, hglobals⟩ := mergeBehind_lseg hsize hseg
    fun c hc => ⟨(hfresh c hc).1, (hfresh c hc).2.1⟩
  simp only [insertAfter, if_neg htouch, if_pos hit]
  refine ⟨?_, by simp, by simpa using (hsame it hit).2, fun x hx hxit => ?_, ?_⟩
  · refine (lseg_congr fun c hc => ?_).mpr hlseg
    simp [hjoin c hc]
  · obtain ⟨hnext, hsizex⟩ := hsame x hx
    exact ⟨by simpa [hxit] using hnext, by simpa using hsizex⟩
  · rw [SameGlobals] at hglobals ⊢
    rw [Heap.setNext, hglobals]

/-- **A block that touches the iterator** is one with it. -/
theorem insertAfter_of_eq {l : Block} (hsize : h.size b.addr = b.size)
    (hlsize : h.size l.addr = l.size) (hseg : LSeg h h.pxEnd (h.next l.addr) hi)
    (hfresh : ∀ c ∈ hi, c.addr ≠ l.addr ∧ c.addr ≠ h.pxEnd) (htouch : l.stop = b.addr) :
    LSeg (insertAfter h l.addr b.addr) h.pxEnd l.addr (join ⟨l.addr, l.size + b.size⟩ hi)
      ∧ (∀ x ≠ l.addr, SameAt h (insertAfter h l.addr b.addr) x)
      ∧ SameGlobals h (insertAfter h l.addr b.addr) := by
  have htouch' : l.addr + h.size l.addr = b.addr := by rw [hlsize]; exact htouch
  simp only [insertAfter, if_pos htouch', ne_eq, not_true_eq_false, if_false]
  have hseg' : LSeg (h.setSize l.addr (h.size l.addr + h.size b.addr)) h.pxEnd
      ((h.setSize l.addr (h.size l.addr + h.size b.addr)).next l.addr) hi := by
    rw [Heap.next_setSize, lseg_congr]
    · exact hseg
    · intro c hc
      simp [(hfresh c hc).1]
  obtain ⟨hlseg, hsame, hglobals⟩ :=
    mergeBehind_lseg (b := ⟨l.addr, l.size + b.size⟩) (by simp [hsize, hlsize]) hseg' hfresh
  refine ⟨hlseg, fun x hx => ?_, ?_⟩
  · obtain ⟨hnext, hsizex⟩ := hsame x hx
    exact ⟨by simpa using hnext, by simpa [show x ≠ l.addr from hx] using hsizex⟩
  · rw [SameGlobals] at hglobals ⊢
    rw [hglobals]
    rfl

end Insert

/-- A block of the heap. -/
structure InHeap (cfg : Config) (b : Block) : Prop where
  aligned_le : alignedHeap cfg ≤ b.addr
  stop_le : b.stop ≤ endAddress cfg
  addr_dvd : 8 ∣ b.addr
  size_dvd : 8 ∣ b.size
  pos : 0 < b.size

/-- **The links in memory spell the list of free blocks**, no two of which touch. -/
structure Linked (cfg : Config) (h : Heap) (fs : List Block) : Prop where
  pxEnd : h.pxEnd = endAddress cfg
  bit : h.xBlockAllocatedBit = 2 ^ 31
  list : LSeg h (endAddress cfg) (h.next cfg.xStart) fs
  start : h.size cfg.xStart = 0
  stop : h.size (endAddress cfg) = 0 ∧ h.next (endAddress cfg) = 0
  separated : Separated fs
  within : ∀ b ∈ fs, InHeap cfg b

section Linked

variable {cfg : Config} {h : Heap} {fs lo hi : List Block} {b c : Block}

theorem InHeap.lt_end (hb : InHeap cfg b) : b.addr < endAddress cfg := by
  have := hb.pos
  have := hb.stop_le
  rw [stop] at this
  omega

theorem InHeap.ne_end (hb : InHeap cfg b) : b.addr ≠ endAddress cfg := hb.lt_end.ne

theorem InHeap.ne_start (hb : InHeap cfg b) : b.addr ≠ cfg.xStart :=
  xStart_ne cfg hb.aligned_le hb.lt_end.le

theorem InHeap.ne_null (hb : InHeap cfg b) : b.addr ≠ 0 := by
  have := cfg.heap_pos
  have := (alignedHeap_bounds cfg).2.1
  have := hb.aligned_le
  omega

theorem end_ne_start (cfg : Config) : endAddress cfg ≠ cfg.xStart :=
  xStart_ne cfg (endAddress_bounds cfg).2.1.le le_rfl

/-- Two blocks of the heap that touch are one block of it. -/
theorem InHeap.join (hb : InHeap cfg b) (hc : InHeap cfg c) (htouch : b.stop = c.addr) :
    InHeap cfg ⟨b.addr, b.size + c.size⟩ where
  aligned_le := hb.aligned_le
  stop_le := by
    have := hc.stop_le
    simp only [Block.stop] at *
    omega
  addr_dvd := hb.addr_dvd
  size_dvd := Nat.dvd_add hb.size_dvd hc.size_dvd
  pos := Nat.add_pos_left hb.pos _

/-- The list is shorter than the bound on the turns along it. -/
theorem length_lt_turns (hsep : Separated fs) (hwithin : ∀ b ∈ fs, InHeap cfg b) :
    fs.length < turns cfg := by
  have hlength := length_le_total hsep.pos
  have hend := endAddress_bounds cfg
  have haligned := alignedHeap_bounds cfg
  have htotal := total_le_of_within hsep.ordered
    (fun b hb => ⟨(hwithin b hb).aligned_le, (hwithin b hb).stop_le⟩) hend.2.1.le
  rw [turns]
  omega

/-- What is not read may change, and what is read at the links must not. -/
theorem Linked.congr {h' : Heap} (hl : Linked cfg h fs)
    (hglobals : h'.pxEnd = h.pxEnd ∧ h'.xBlockAllocatedBit = h.xBlockAllocatedBit)
    (hstart : SameAt h h' cfg.xStart) (hend : SameAt h h' (endAddress cfg))
    (hsame : ∀ b ∈ fs, SameAt h h' b.addr) : Linked cfg h' fs where
  pxEnd := hglobals.1.trans hl.pxEnd
  bit := hglobals.2.trans hl.bit
  list := by
    rw [hstart.1]
    exact (lseg_congr hsame).mpr hl.list
  start := hstart.2.trans hl.start
  stop := ⟨hend.2.trans hl.stop.1, hend.1.trans hl.stop.2⟩
  separated := hl.separated
  within := hl.within

/-- **`prvInsertBlockIntoFreeList` puts a block in its place and coalesces.** -/
theorem insert_linked (hl : Linked cfg h (lo ++ hi)) (hb : InHeap cfg b)
    (hsize : h.size b.addr = b.size) (hlo : ∀ a ∈ lo, a.stop ≤ b.addr)
    (hhi : ∀ c ∈ hi, b.stop ≤ c.addr) :
    ∃ h', prvInsertBlockIntoFreeList cfg h b.addr = some h'
      ∧ Linked cfg h' (coalesce (lo ++ b :: hi))
      ∧ SameGlobals h h'
      ∧ ∀ x, x ≠ cfg.xStart → x ≠ b.addr → (∀ a ∈ lo, x ≠ a.addr) → SameAt h h' x := by
  obtain ⟨hseplo, hsephi, -⟩ := separated_append.mp hl.separated
  have hlength := length_lt_turns hl.separated hl.within
  rw [List.length_append] at hlength
  have hlohi : ∀ a ∈ lo, a.addr < b.addr := fun a ha => by
    have := hlo a ha
    have := hseplo.pos a ha
    rw [stop] at *
    omega
  have hbhi : ∀ c ∈ hi, b.addr < c.addr := fun c hc => by
    have := hhi c hc
    have := hb.pos
    rw [stop] at *
    omega
  have hbehind : b.addr ≤ headAddr (endAddress cfg) hi := by
    cases hi with
    | nil => exact hb.lt_end.le
    | cons c cs => exact (hbhi c List.mem_cons_self).le
  have hfind : findIterator h b.addr (turns cfg) cfg.xStart = some (lastLink cfg.xStart lo) :=
    findIterator_eq hl.list hlohi hbehind (by omega)
  have hsep : Separated (coalesce (lo ++ b :: hi)) :=
    separated_coalesce (ordered_insert hseplo hsephi hb.pos hlo hhi)
  have hwithin : ∀ c ∈ coalesce (lo ++ b :: hi), InHeap cfg c := by
    refine forall_mem_coalesce (fun _ _ ha hc htouch => ha.join hc htouch) fun c hc => ?_
    obtain hc | hc := List.mem_append.mp hc
    · exact hl.within c (List.mem_append_left _ hc)
    · obtain rfl | hc := List.mem_cons.mp hc
      · exact hb
      · exact hl.within c (List.mem_append_right _ hc)
  rw [prvInsertBlockIntoFreeList, hfind, Option.map_some]
  refine ⟨_, rfl, ?_⟩
  have hfresh : ∀ c ∈ hi, c.addr ≠ b.addr ∧ c.addr ≠ h.pxEnd := fun c hc =>
    ⟨(hbhi c hc).ne', hl.pxEnd ▸ (hl.within c (List.mem_append_right _ hc)).ne_end⟩
  have hlist := hl.list
  rw [← hl.pxEnd] at hlist
  obtain rfl | ⟨lo, l, rfl⟩ := List.eq_nil_or_concat' lo
  · have hcoalesce : coalesce ([] ++ b :: hi) = join b hi := coalesce_cons hsephi
    rw [hcoalesce] at hsep hwithin ⊢
    obtain ⟨hlseg, hnext, hsizeit, hsame, hglobals⟩ :=
      insertAfter_of_ne hsize (show LSeg h h.pxEnd (h.next cfg.xStart) hi from hlist)
        (fun c hc => ⟨(hfresh c hc).1, (hfresh c hc).2, (hl.within c hc).ne_start⟩)
        hb.ne_start.symm (by rw [hl.start]; exact hb.ne_start.symm)
        (fun c hc => (hwithin c hc).ne_start)
    have hend := hsame _ hb.ne_end.symm (end_ne_start cfg)
    refine ⟨⟨?_, ?_, ?_, hsizeit.trans hl.start, ⟨hend.2.trans hl.stop.1, hend.1.trans hl.stop.2⟩,
      hsep, hwithin⟩, hglobals, fun x hx hxb _ => hsame x hxb hx⟩
    · exact (congrArg Heap.pxEnd hglobals).trans hl.pxEnd
    · exact (congrArg Heap.xBlockAllocatedBit hglobals).trans hl.bit
    · rw [lastLink, hnext, ← hl.pxEnd]
      exact hlseg
  · obtain ⟨-, -, hlol⟩ := separated_append.mp hseplo
    have hmem : l ∈ lo ++ [l] := List.mem_append_right _ (List.mem_singleton.mpr rfl)
    have hlb := hlohi l hmem
    have hl' := hl.within l (List.mem_append_left _ hmem)
    have hlhi : ∀ c ∈ hi, c.addr ≠ l.addr := fun c hc => (hlb.trans (hbhi c hc)).ne'
    have hlo' : ∀ a ∈ lo, a.addr ≠ l.addr ∧ a.addr ≠ b.addr := fun a ha => by
      have hal : a.addr < l.addr := lt_of_le_of_lt (Nat.le_add_right _ _)
        (hlol a ha l (List.mem_singleton.mpr rfl))
      exact ⟨hal.ne, (hal.trans hlb).ne⟩
    rw [lseg_append, lseg_append] at hlist
    obtain ⟨⟨hlolist, -, hlsize, hlnext⟩, hhilist⟩ := hlist
    have hlsize : h.size l.addr = l.size := hlsize
    have hlnext : h.next l.addr = headAddr h.pxEnd hi := hlnext
    have hcoalesce : coalesce (lo ++ [l] ++ b :: hi) = lo ++ join l (join b hi) := by
      rw [List.append_assoc, List.singleton_append]
      exact coalesce_insert hseplo hsephi (hlo l hmem) hhi
    rw [hcoalesce] at hsep hwithin ⊢
    rw [lastLink_concat]
    by_cases htouch : l.stop = b.addr
    · obtain ⟨hlseg, hsame, hglobals⟩ := insertAfter_of_eq hsize hlsize (hlnext ▸ hhilist)
        (fun c hc => ⟨hlhi c hc, (hfresh c hc).2⟩) htouch
      have hend := hsame _ hl'.ne_end.symm
      have hstart := hsame _ hl'.ne_start.symm
      rw [join_join htouch] at hsep hwithin ⊢
      refine ⟨⟨?_, ?_, ?_, hstart.2.trans hl.start,
        ⟨hend.2.trans hl.stop.1, hend.1.trans hl.stop.2⟩, hsep, hwithin⟩, hglobals,
        fun x _ _ hx => hsame x (hx l hmem)⟩
      · exact (congrArg Heap.pxEnd hglobals).trans hl.pxEnd
      · exact (congrArg Heap.xBlockAllocatedBit hglobals).trans hl.bit
      · have hhead := hlseg.eq_headAddr
        rw [← hl.pxEnd, hstart.1, lseg_append, ← hhead]
        exact ⟨(lseg_congr fun a ha => hsame a.addr (hlo' a ha).1).mpr hlolist, hlseg⟩
    · rw [join_join_of_ne htouch] at hsep hwithin ⊢
      have hjoin : ∀ c ∈ join b hi, c.addr ≠ l.addr := fun c hc =>
        (hlb.trans_le (addr_le_of_mem_join hhi hc)).ne'
      obtain ⟨hlseg, hnext, hsizeit, hsame, hglobals⟩ :=
        insertAfter_of_ne hsize (hlnext ▸ hhilist)
          (fun c hc => ⟨(hfresh c hc).1, (hfresh c hc).2, hlhi c hc⟩) hlb.ne
          (by rw [hlsize]; exact htouch) hjoin
      have hend := hsame _ hb.ne_end.symm hl'.ne_end.symm
      have hstart := hsame _ hb.ne_start.symm hl'.ne_start.symm
      refine ⟨⟨?_, ?_, ?_, hstart.2.trans hl.start,
        ⟨hend.2.trans hl.stop.1, hend.1.trans hl.stop.2⟩, hsep, hwithin⟩, hglobals,
        fun x _ hxb hx => hsame x hxb (hx l hmem)⟩
      · exact (congrArg Heap.pxEnd hglobals).trans hl.pxEnd
      · exact (congrArg Heap.xBlockAllocatedBit hglobals).trans hl.bit
      · rw [← hl.pxEnd, hstart.1, lseg_append]
        refine ⟨(lseg_congr fun a ha => hsame a.addr (hlo' a ha).2 (hlo' a ha).1).mpr hlolist,
          rfl, hsizeit.trans hlsize, ?_⟩
        exact hnext.symm ▸ hlseg

/-- **A block is taken out** by a store to the link before it. -/
theorem unlink_linked (hl : Linked cfg h (lo ++ b :: hi)) :
    h.next (lastLink cfg.xStart lo) = b.addr
      ∧ Linked cfg (h.setNext (lastLink cfg.xStart lo) (h.next b.addr)) (lo ++ hi) := by
  have hlist := hl.list
  obtain ⟨hseplo, hsepb, hlt⟩ := separated_append.mp hl.separated
  obtain ⟨hbhi, -, hsephi⟩ := separated_cons.mp hsepb
  have hsep : Separated (lo ++ hi) := separated_append.mpr
    ⟨hseplo, hsephi, fun a ha c hc => hlt a ha c (List.mem_cons_of_mem _ hc)⟩
  have hwithin : ∀ c ∈ lo ++ hi, InHeap cfg c := fun c hc =>
    hl.within c ((List.mem_append.mp hc).elim (List.mem_append_left _)
      fun hc => List.mem_append_right _ (List.mem_cons_of_mem _ hc))
  have hhi' : ∀ c ∈ hi, InHeap cfg c := fun c hc => hwithin c (List.mem_append_right _ hc)
  rw [lseg_append] at hlist
  obtain ⟨hlolist, -, hbsize, hbnext⟩ := hlist
  have hbnext : LSeg h (endAddress cfg) (h.next b.addr) hi := hbnext
  obtain rfl | ⟨lo, l, rfl⟩ := List.eq_nil_or_concat' lo
  · have hfirst : h.next cfg.xStart = b.addr := hlolist
    refine ⟨hfirst, hl.pxEnd, hl.bit, ?_, ?_, ?_, hsep, hwithin⟩
    · rw [lastLink, Heap.next_setNext, if_pos rfl]
      exact (lseg_congr fun c hc => by simp [(hhi' c hc).ne_start]).mpr hbnext
    · simpa using hl.start
    · simpa [lastLink, end_ne_start] using hl.stop
  · have hmem : l ∈ lo ++ [l] := List.mem_append_right _ (List.mem_singleton.mpr rfl)
    have hl' := hl.within l (List.mem_append_left _ hmem)
    obtain ⟨-, -, hlol⟩ := separated_append.mp hseplo
    rw [lseg_append] at hlolist
    obtain ⟨hlist, -, hlsize, hlnext⟩ := hlolist
    have hlnext : h.next l.addr = b.addr := hlnext
    have hlsize : h.size l.addr = l.size := hlsize
    have hlo' : ∀ a ∈ lo, a.addr ≠ l.addr := fun a ha =>
      (lt_of_le_of_lt (Nat.le_add_right _ _) (hlol a ha l (List.mem_singleton.mpr rfl))).ne
    have hlhi : ∀ c ∈ hi, c.addr ≠ l.addr := fun c hc => by
      have := hlt l hmem c (List.mem_cons_of_mem _ hc)
      rw [stop] at this
      omega
    have hrest : LSeg (h.setNext l.addr (h.next b.addr)) (endAddress cfg) l.addr (l :: hi) := by
      refine ⟨rfl, by simpa using hlsize, ?_⟩
      rw [Heap.next_setNext, if_pos rfl]
      exact (lseg_congr fun c hc => by simp [hlhi c hc]).mpr hbnext
    rw [lastLink_concat]
    refine ⟨hlnext, hl.pxEnd, hl.bit, ?_, ?_, ?_, hsep, hwithin⟩
    · rw [Heap.next_setNext, if_neg hl'.ne_start.symm, List.append_assoc, List.singleton_append,
        lseg_append]
      exact ⟨(lseg_congr fun a ha => by simp [hlo' a ha]).mpr hlist, hrest⟩
    · simpa using hl.start
    · simpa [hl'.ne_end.symm] using hl.stop

/-- The last link is that of `xStart` or of a block. -/
theorem lastLink_mem (a : ℕ) (lo : List Block) :
    lastLink a lo = a ∨ ∃ l ∈ lo, lastLink a lo = l.addr := by
  obtain rfl | ⟨lo, l, rfl⟩ := List.eq_nil_or_concat' lo
  · exact .inl rfl
  · exact .inr ⟨l, List.mem_append_right _ (List.mem_singleton.mpr rfl), lastLink_concat _ _ _⟩

end Linked

/-! ## Taking a block -/

/-- What an allocation of `w` bytes gets of a block. -/
def taken (b : Block) (w : ℕ) : Block :=
  if b.size - w > heapMinimumBlockSize then ⟨b.addr, w⟩ else b

/-- What an allocation of `w` bytes leaves of a block. -/
def left (b : Block) (w : ℕ) : List Block :=
  if b.size - w > heapMinimumBlockSize then [⟨b.addr + w, b.size - w⟩] else []

section Take

variable {cfg : Config} {h : Heap} {fs lo hi : List Block} {b : Block} {w : ℕ}

theorem addr_taken : (taken b w).addr = b.addr := by
  rw [taken]
  split_ifs <;> rfl

/-- A block is cut in two, or taken as it is. -/
theorem taken_left (hw : w ≤ b.size) :
    (left b w = [] ∧ taken b w = b)
      ∨ ∃ r, left b w = [r] ∧ taken b w = ⟨b.addr, w⟩ ∧ r.addr = b.addr + w ∧ r.stop = b.stop
        ∧ w + r.size = b.size ∧ heapMinimumBlockSize < r.size := by
  rw [left, taken]
  split_ifs with hsplit
  · refine .inr ⟨_, rfl, rfl, rfl, ?_, ?_, hsplit⟩
    · simp only [stop]
      omega
    · simp only
      omega
  · exact .inl ⟨rfl, rfl⟩

theorem le_size_taken (hw : w ≤ b.size) : w ≤ (taken b w).size := by
  obtain ⟨-, htaken⟩ | ⟨r, -, htaken, -⟩ := taken_left hw
  · rwa [htaken]
  · rw [htaken]

theorem stop_taken_le (hw : w ≤ b.size) : (taken b w).stop ≤ b.stop := by
  obtain ⟨-, htaken⟩ | ⟨r, -, htaken, -⟩ := taken_left hw
  · rw [htaken]
  · rw [htaken, stop, stop]
    exact Nat.add_le_add_left hw _

theorem total_left (hw : w ≤ b.size) : (taken b w).size + total (left b w) = b.size := by
  obtain ⟨hleft, htaken⟩ | ⟨r, hleft, htaken, -, -, hsize, -⟩ := taken_left hw
  · rw [hleft, htaken, total_nil, Nat.add_zero]
  · rw [hleft, htaken, total_cons, total_nil, Nat.add_zero]
    exact hsize

/-- Every address of the block is in what is taken or in what is left. -/
theorem covered_left (hw : w ≤ b.size) {x : ℕ} (hx : b.Has x) :
    (taken b w).Has x ∨ Covered (left b w) x := by
  obtain ⟨-, htaken⟩ | ⟨r, hleft, htaken, haddr, hstop, -⟩ := taken_left hw
  · exact .inl (by rwa [htaken])
  · rw [hleft, htaken, covered_cons, Has, Has, haddr, hstop]
    obtain ⟨hle, hlt⟩ := hx
    by_cases hxw : x < b.addr + w
    · exact .inl ⟨hle, hxw⟩
    · exact .inr (.inl ⟨not_lt.mp hxw, hlt⟩)

/-- What is left is in the block, behind what is taken. -/
theorem mem_left (hw : w ≤ b.size) {r : Block} (hr : r ∈ left b w) :
    (taken b w).stop = r.addr ∧ r.stop = b.stop ∧ 0 < r.size := by
  obtain ⟨hleft, -⟩ | ⟨r', hleft, htaken, haddr, hstop, -, hmin⟩ := taken_left hw
  · rw [hleft] at hr
    exact absurd hr List.not_mem_nil
  · rw [hleft, List.mem_singleton] at hr
    rw [hr, htaken, haddr]
    exact ⟨rfl, hstop, (Nat.zero_le _).trans_lt hmin⟩

theorem inHeap_taken (hb : InHeap cfg b) (hw : w ≤ b.size) (hdvd : 8 ∣ w) (hpos : 0 < w) :
    InHeap cfg (taken b w) where
  aligned_le := addr_taken.symm ▸ hb.aligned_le
  stop_le := (stop_taken_le hw).trans hb.stop_le
  addr_dvd := addr_taken.symm ▸ hb.addr_dvd
  size_dvd := by
    obtain ⟨-, htaken⟩ | ⟨r, -, htaken, -⟩ := taken_left hw
    · exact htaken.symm ▸ hb.size_dvd
    · exact htaken.symm ▸ hdvd
  pos := hpos.trans_le (le_size_taken hw)

theorem inHeap_left (hb : InHeap cfg b) (hw : w ≤ b.size) (hdvd : 8 ∣ w) {r : Block}
    (hr : r ∈ left b w) : InHeap cfg r := by
  obtain ⟨hleft, -⟩ | ⟨r', hleft, -, haddr, hstop, hsize, hmin⟩ := taken_left hw
  · rw [hleft] at hr
    exact absurd hr List.not_mem_nil
  · rw [hleft, List.mem_singleton] at hr
    rw [hr]
    exact
      { aligned_le := haddr ▸ hb.aligned_le.trans (Nat.le_add_right _ _)
        stop_le := hstop ▸ hb.stop_le
        addr_dvd := haddr ▸ Nat.dvd_add hb.addr_dvd hdvd
        size_dvd := (Nat.dvd_add_right hdvd).mp (hsize ▸ hb.size_dvd)
        pos := (Nat.zero_le _).trans_lt hmin }

/-- The free list, when what is left of a block is where the block was. -/
theorem separated_left (hsep : Separated (lo ++ b :: hi)) (hw : w ≤ b.size) :
    Separated (lo ++ left b w ++ hi) := by
  obtain ⟨hlo, hb, hlt⟩ := separated_append.mp hsep
  obtain ⟨hbhi, -, hhi⟩ := separated_cons.mp hb
  obtain ⟨hleft, -⟩ | ⟨r, hleft, -, haddr, hstop, -, hmin⟩ := taken_left hw
  · rw [hleft, List.append_nil]
    exact separated_append.mpr ⟨hlo, hhi, fun a ha c hc => hlt a ha c (List.mem_cons_of_mem _ hc)⟩
  · rw [hleft, List.append_assoc, List.singleton_append]
    refine separated_append.mpr ⟨hlo, separated_cons.mpr ⟨fun c hc => hstop ▸ hbhi c hc,
      (Nat.zero_le _).trans_lt hmin, hhi⟩, fun a ha c hc => ?_⟩
    obtain rfl | hc := List.mem_cons.mp hc
    · have := hlt a ha b List.mem_cons_self
      omega
    · exact hlt a ha c (List.mem_cons_of_mem _ hc)

end Take

end Heap4

end EmbeddedMCU

import EmbeddedMCU.FreeRTOS.Heap4List
import Mathlib.Data.List.Pairwise
import Mathlib.Data.Nat.Bitwise

/-!
# FreeRTOS/Heap4Calls — what the calls of `heap_4.c` do to its blocks

    alignedHeap                                              endAddress
    │ free │ owner │ owner │   free   │ owner │ free │ owner │

The heap is cut into blocks, and each is either on the free list or belongs to an allocation, which
has all of it but the link at its start (`Ready`).  A request cuts its block out of the first free
one that is large enough (`pvPortMalloc_spec`), and `vPortFree` puts it back (`vPortFree_spec`).
-/

namespace EmbeddedMCU

namespace Heap4

open Block

/-! ## Sizes -/

theorem and_topBit_eq_zero_iff {n : ℕ} (h : n < 2 ^ 32) : n &&& 2 ^ 31 = 0 ↔ n < 2 ^ 31 := by
  rw [Nat.and_two_pow, Nat.testBit_eq_decide_div_mod_eq]
  have hbit : n / 2 ^ 31 % 2 = 1 ↔ ¬ n < 2 ^ 31 := by omega
  by_cases hlt : n < 2 ^ 31
  · simp only [hbit, hlt, not_true_eq_false, decide_false, Bool.toNat_false, Nat.zero_mul]
  · simp only [hbit, hlt, not_false_eq_true, decide_true, Bool.toNat_true, Nat.one_mul]
    simp

theorem or_topBit {n : ℕ} (h : n < 2 ^ 31) : n ||| 2 ^ 31 = n + 2 ^ 31 := by
  have := Nat.two_pow_add_eq_or_of_lt h 1
  rw [Nat.or_comm, Nat.add_comm, ← Nat.mul_one (2 ^ 31)]
  exact this.symm

theorem add_topBit_and {n : ℕ} (h : n < 2 ^ 31) :
    (n + 2 ^ 31) &&& 2 ^ 31 ≠ 0 ∧ (n + 2 ^ 31) &&& (0xFFFFFFFF ^^^ 2 ^ 31) = n := by
  constructor
  · rw [ne_eq, and_topBit_eq_zero_iff (by omega)]
    omega
  · have hmask : 0xFFFFFFFF ^^^ 2 ^ 31 = 2 ^ 31 - 1 := by decide
    rw [hmask, Nat.and_two_pow_sub_one_eq_mod]
    omega

/-- **The size that is looked for** has the request, the link and the alignment in it. -/
theorem adjustedSize_eq {w : ℕ} (hpos : 0 < w) (hlt : w < 2 ^ 31) :
    adjustedSize w = (w + 15) / 8 * 8 := by
  simp only [adjustedSize, xHeapStructSize, portByteAlignment]
  simp only [Nat.mod_eq_of_lt (show w + 8 < 2 ^ 32 by omega)]
  split_ifs with hfits haligned hmore
  · omega
  · omega
  · omega
  · omega

theorem adjustedSize_zero : adjustedSize 0 = 0 := rfl

/-- The size that is looked for, of a request that is looked for at all. -/
theorem adjustedSize_bounds {w : ℕ} (hpos : 0 < w) (hlt : w < 2 ^ 31) :
    8 ∣ adjustedSize w ∧ w + 8 ≤ adjustedSize w ∧ 0 < adjustedSize w := by
  rw [adjustedSize_eq hpos hlt]
  omega

/-! ## Taking a block -/

section Take

variable {cfg : Config} {h : Heap} {lo hi : List Block} {b : Block} {w : ℕ}

/-- No block that is left on the list begins where the taken one does. -/
theorem addr_ne_of_mem_left (hsep : Separated (lo ++ b :: hi)) (hw : w ≤ b.size) (hpos : 0 < w)
    {c : Block} (hc : c ∈ lo ++ left b w ++ hi) : c.addr ≠ b.addr := by
  obtain ⟨hlo, hb, hlt⟩ := separated_append.mp hsep
  obtain ⟨hbhi, -, hhi⟩ := separated_cons.mp hb
  obtain hc | hc := List.mem_append.mp hc
  · obtain hc | hc := List.mem_append.mp hc
    · have := hlt c hc b List.mem_cons_self
      rw [stop] at this
      omega
    · have := (mem_left hw hc).1
      have := le_size_taken hw
      rw [stop, addr_taken] at *
      omega
  · have := hbhi c hc
    rw [stop] at this
    omega

/-- **What is left of the block goes back to the list.** -/
theorem splitBlock_linked (hl : Linked cfg h (lo ++ hi)) (hb : InHeap cfg b)
    (hsep : Separated (lo ++ b :: hi)) (hsize : h.size b.addr = b.size) (hw : w ≤ b.size)
    (hdvd : 8 ∣ w) (hpos : 0 < w) :
    ∃ h', splitBlock cfg h w b.addr = some h'
      ∧ Linked cfg h' (lo ++ left b w ++ hi)
      ∧ h'.size b.addr = (taken b w).size
      ∧ SameGlobals h h'
      ∧ ∀ x, x ≠ cfg.xStart → ¬ b.Has x → (∀ a ∈ lo, x ≠ a.addr) → SameAt h h' x := by
  obtain ⟨hlo, hbsep, hlt⟩ := separated_append.mp hsep
  obtain ⟨hbhi, hbpos, hhi⟩ := separated_cons.mp hbsep
  rw [splitBlock, hsize]
  split_ifs with hsplit
  · have hleft : left b w = [⟨b.addr + w, b.size - w⟩] := if_pos hsplit
    have htaken : taken b w = ⟨b.addr, w⟩ := if_pos hsplit
    set r : Block := ⟨b.addr + w, b.size - w⟩ with hr
    have hrmem : r ∈ left b w := by rw [hleft]; exact List.mem_singleton.mpr rfl
    have hrheap := inHeap_left hb hw hdvd hrmem
    have hrstop := (mem_left hw hrmem).2.1
    have hne : ∀ c ∈ lo ++ hi, c.addr ≠ b.addr ∧ c.addr ≠ r.addr := by
      intro c hc
      obtain hc | hc := List.mem_append.mp hc
      · have := hlt c hc b List.mem_cons_self
        simp only [stop, hr] at *
        omega
      · have := hbhi c hc
        simp only [stop, hr] at *
        omega
    have hrb : r.addr ≠ b.addr := (Nat.lt_add_of_pos_right hpos).ne'
    have hl' : Linked cfg ((h.setSize r.addr r.size).setSize b.addr w) (lo ++ hi) := by
      refine hl.congr ⟨rfl, rfl⟩ ?_ ?_ fun c hc => ?_
      · simp [SameAt, hb.ne_start.symm, hrheap.ne_start.symm]
      · simp [SameAt, hb.ne_end.symm, hrheap.ne_end.symm]
      · simp [SameAt, hne c hc]
    have hbefore : ∀ a ∈ lo, a.stop ≤ r.addr := fun a ha =>
      (hlt a ha b List.mem_cons_self).le.trans (Nat.le_add_right _ _)
    have hbehind : ∀ c ∈ hi, r.stop ≤ c.addr := fun c hc => hrstop ▸ (hbhi c hc).le
    obtain ⟨h', hinsert, hlinked, hglobals, hsame⟩ :=
      insert_linked hl' hrheap (by simp [hrb]) hbefore hbehind
    refine ⟨h', hinsert, ?_, ?_, hglobals, fun x hx hxb hxlo => ?_⟩
    · have hleftsep := separated_left hsep hw
      rw [hleft, List.append_assoc, List.singleton_append] at hleftsep ⊢
      rwa [coalesce_of_separated hleftsep] at hlinked
    · rw [htaken, (hsame b.addr hb.ne_start hrb.symm fun a ha =>
        (hne a (List.mem_append_left _ ha)).1.symm).2]
      simp
    · have hxb' : x ≠ b.addr := by
        rintro rfl
        exact hxb ⟨le_rfl, Nat.lt_add_of_pos_right hbpos⟩
      have hxr : x ≠ r.addr := by
        rintro rfl
        exact hxb ⟨Nat.le_add_right _ _, hrstop ▸ Nat.lt_add_of_pos_right hrheap.pos⟩
      have := hsame x hx hxr hxlo
      simpa [SameAt, hxb', hxr] using this
  · have hleft : left b w = [] := if_neg hsplit
    have htaken : taken b w = b := if_neg hsplit
    rw [hleft, htaken, List.append_nil]
    exact ⟨h, rfl, hl, hsize, rfl, fun _ _ _ _ => ⟨rfl, rfl⟩⟩

/-- **A block is taken**: what is left of it stays on the list, and nothing outside it changes but
the links before it. -/
theorem takeBlock_linked (hl : Linked cfg h (lo ++ b :: hi)) (hw : w ≤ b.size) (hdvd : 8 ∣ w)
    (hpos : 0 < w) :
    ∃ h', takeBlock cfg h w (lastLink cfg.xStart lo) b.addr = some (h', b.addr + 8)
      ∧ Linked cfg h' (lo ++ left b w ++ hi)
      ∧ (h'.next b.addr = 0 ∧ h'.size b.addr = (taken b w).size + 2 ^ 31)
      ∧ (h'.xFreeBytesRemaining = h.xFreeBytesRemaining - (taken b w).size
        ∧ h'.xMinimumEverFreeBytesRemaining
          = min h.xMinimumEverFreeBytesRemaining h'.xFreeBytesRemaining)
      ∧ ∀ x, x ≠ cfg.xStart → ¬ b.Has x → (∀ a ∈ lo, x ≠ a.addr) → SameAt h h' x := by
  have hbmem : b ∈ lo ++ b :: hi := List.mem_append_right _ List.mem_cons_self
  have hb := hl.within b hbmem
  obtain ⟨hfirst, hunlinked⟩ := unlink_linked hl
  set h₁ := h.setNext (lastLink cfg.xStart lo) (h.next b.addr) with hh₁
  have hsize : h₁.size b.addr = b.size := by
    rw [hh₁, Heap.size_setNext]
    exact hl.list.size_of_mem hbmem
  obtain ⟨h₂, hsplit, hlinked, htaken, hglobals, hsame⟩ :=
    splitBlock_linked hunlinked hb hl.separated hsize hw hdvd hpos
  have hsmall : (taken b w).size < 2 ^ 31 := by
    have := (inHeap_taken hb hw hdvd hpos).stop_le
    have := hb.aligned_le
    have := endAddress_bounds cfg
    have := alignedHeap_bounds cfg
    have := cfg.small
    rw [stop, addr_taken] at *
    omega
  have hfree : h₂.xFreeBytesRemaining = h.xFreeBytesRemaining := by rw [hglobals]; rfl
  have hmin : h₂.xMinimumEverFreeBytesRemaining = h.xMinimumEverFreeBytesRemaining := by
    rw [hglobals]; rfl
  simp only [takeBlock, hfirst, ← hh₁, hsplit, Option.map_some]
  refine ⟨_, rfl, ?_, ⟨by simp, ?_⟩, ⟨?_, ?_⟩, fun x hx hxb hxlo => ?_⟩
  · refine hlinked.congr ⟨rfl, rfl⟩ ?_ ?_ fun c hc => ?_
    · simp [SameAt, hb.ne_start.symm]
    · simp [SameAt, hb.ne_end.symm]
    · simp [SameAt, addr_ne_of_mem_left hl.separated hw hpos hc]
  · have hbit : (h₂.takeBytes (h₂.size b.addr)).xBlockAllocatedBit = 2 ^ 31 := hlinked.bit
    rw [hbit]
    simp only [Heap.size_setNext, Heap.size_setSize, Heap.size_takeBytes, htaken, if_true]
    exact or_topBit hsmall
  · simp [Heap.setNext, Heap.setSize, Heap.takeBytes, hfree, htaken]
  · simp only [Heap.setNext, Heap.setSize, Heap.takeBytes, hfree, hmin]
    split_ifs <;> omega
  · have hxb' : x ≠ b.addr := by
      rintro rfl
      exact hxb ⟨le_rfl, Nat.lt_add_of_pos_right hb.pos⟩
    have hlast : x ≠ lastLink cfg.xStart lo := by
      obtain hlast | ⟨l, hmem, hlast⟩ := lastLink_mem cfg.xStart lo
      · rwa [hlast]
      · rw [hlast]
        exact hxlo l hmem
    have := hsame x hx hxb hxlo
    simpa [SameAt, hh₁, hxb', hlast] using this

end Take

/-! ## The invariant -/

/-- An allocation and the block it has. -/
structure Owner where
  alloc : Allocation
  block : Block

/-- The allocation has its block, but for the link at its start. -/
structure Owner.Fits (cfg : Config) (h : Heap) (o : Owner) : Prop where
  inHeap : InHeap cfg o.block
  next : h.next o.block.addr = 0
  size : h.size o.block.addr = o.block.size + 2 ^ 31
  pv : o.alloc.pv = o.block.addr + 8
  pos : 0 < o.alloc.xWantedSize
  fits : o.alloc.xWantedSize + 8 ≤ o.block.size

/-- **Every block is free or belongs to an allocation**, and no address is lost. -/
structure Ready (cfg : Config) (h : Heap) (fs : List Block) (owners : List Owner) : Prop where
  linked : Linked cfg h fs
  free : h.xFreeBytesRemaining = total fs
  fits : ∀ o ∈ owners, o.Fits cfg h
  apart : owners.Pairwise fun o o' => Apart o.block o'.block
  freeApart : ∀ o ∈ owners, ∀ f ∈ fs, Apart f o.block
  covered : ∀ x, alignedHeap cfg ≤ x → x < endAddress cfg →
    Covered fs x ∨ Covered (owners.map Owner.block) x
  bytes : total fs + total (owners.map Owner.block) = endAddress cfg - alignedHeap cfg

section Init

variable (cfg : Config)

/-- The whole heap, as one block. -/
def wholeHeap : Block := ⟨alignedHeap cfg, endAddress cfg - alignedHeap cfg⟩

theorem stop_wholeHeap : (wholeHeap cfg).stop = endAddress cfg := by
  have := endAddress_bounds cfg
  simp only [wholeHeap, stop]
  omega

/-- **`prvHeapInit` makes the heap one free block.** -/
theorem prvHeapInit_ready (h : Heap) : Ready cfg (prvHeapInit cfg h) [wholeHeap cfg] [] := by
  have hend := endAddress_bounds cfg
  have haligned := alignedHeap_bounds cfg
  have hstart := xStart_ne cfg le_rfl hend.2.1.le
  have hstart' := end_ne_start cfg
  have hne : alignedHeap cfg ≠ endAddress cfg := hend.2.1.ne
  have hinHeap : InHeap cfg (wholeHeap cfg) :=
    { aligned_le := le_rfl
      stop_le := (stop_wholeHeap cfg).le
      addr_dvd := haligned.1
      size_dvd := Nat.dvd_sub hend.1 haligned.1
      pos := Nat.sub_pos_of_lt hend.2.1 }
  refine ⟨⟨rfl, rfl, ?_, ?_, ?_, ?_, ?_⟩, ?_, by simp, List.Pairwise.nil, by simp, ?_, ?_⟩
  · simp [prvHeapInit, LSeg, wholeHeap, hstart.symm, hstart'.symm]
  · simp [prvHeapInit, hstart.symm, hstart'.symm]
  · simp [prvHeapInit, hne.symm]
  · exact separated_cons.mpr ⟨by simp, hinHeap.pos, separated_nil⟩
  · simpa using hinHeap
  · simp [prvHeapInit, Heap.startBytes, wholeHeap]
  · intro x hle hlt
    exact .inl (covered_cons.mpr (.inl ⟨hle, by rwa [stop_wholeHeap]⟩))
  · simp [wholeHeap]

end Init

/-! ## The calls -/

section Calls

variable {cfg : Config} {h h' : Heap} {fs lo hi : List Block} {owners : List Owner} {b : Block}

theorem Owner.Fits.congr {o : Owner} (ho : o.Fits cfg h) (hsame : SameAt h h' o.block.addr) :
    o.Fits cfg h' :=
  { ho with
    next := hsame.1.trans ho.next
    size := hsame.2.trans ho.size }

theorem Owner.Fits.has_addr {o : Owner} (ho : o.Fits cfg h) : o.block.Has o.block.addr :=
  ⟨le_rfl, Nat.lt_add_of_pos_right ho.inHeap.pos⟩

/-- The memory of the allocations is as it was. -/
def Kept (owners : List Owner) (h h' : Heap) : Prop :=
  ∀ o ∈ owners, ∀ x, o.block.Has x → SameAt h h' x

/-- A change to the links before a free block, and to the block, is none to an allocation. -/
theorem Ready.kept (hr : Ready cfg h (lo ++ b :: hi) owners)
    (hsame : ∀ x, x ≠ cfg.xStart → ¬ b.Has x → (∀ a ∈ lo, x ≠ a.addr) → SameAt h h' x) :
    Kept owners h h' := by
  intro o ho x hx
  have hin := (hr.fits o ho).inHeap
  have hxend : x < endAddress cfg := hx.2.trans_le hin.stop_le
  refine hsame x (xStart_ne cfg (hin.aligned_le.trans hx.1) hxend.le) ?_ fun a ha => ?_
  · have hapart := hr.freeApart o ho b (List.mem_append_right _ List.mem_cons_self)
    exact hapart.symm.not_has hx
  · rintro rfl
    have hmem := List.mem_append_left (b :: hi) ha
    have hpos := hr.linked.separated.pos a hmem
    exact (hr.freeApart o ho a hmem).not_has ⟨le_rfl, Nat.lt_add_of_pos_right hpos⟩ hx

/-- **An allocation gets a part of a free block.** -/
theorem Ready.take {w : ℕ} (hr : Ready cfg h (lo ++ b :: hi) owners) (hpos : 0 < w)
    (hlt : w < 2 ^ 31) (hw : adjustedSize w ≤ b.size)
    (hlinked : Linked cfg h' (lo ++ left b (adjustedSize w) ++ hi))
    (hlink : h'.next b.addr = 0 ∧ h'.size b.addr = (taken b (adjustedSize w)).size + 2 ^ 31)
    (hfree : h'.xFreeBytesRemaining
      = h.xFreeBytesRemaining - (taken b (adjustedSize w)).size)
    (hkept : Kept owners h h') :
    Ready cfg h' (lo ++ left b (adjustedSize w) ++ hi)
      (owners ++ [⟨⟨b.addr + 8, w⟩, taken b (adjustedSize w)⟩]) := by
  obtain ⟨hdvd, hfits, hwpos⟩ := adjustedSize_bounds hpos hlt
  have hbmem : b ∈ lo ++ b :: hi := List.mem_append_right _ List.mem_cons_self
  have hb := hr.linked.within b hbmem
  have htotal := total_left hw
  have hstop := stop_taken_le hw
  obtain ⟨-, hbsep, hlob⟩ := separated_append.mp hr.linked.separated
  obtain ⟨hbhi, -, -⟩ := separated_cons.mp hbsep
  have htaken : ∀ o ∈ owners, Apart (taken b (adjustedSize w)) o.block := fun o ho =>
    (hr.freeApart o ho b hbmem).mono addr_taken.ge hstop
  have hleft : ∀ r ∈ left b (adjustedSize w), ∀ o ∈ owners, Apart r o.block := by
    intro r hrmem o ho
    obtain ⟨haddr, hrstop, -⟩ := mem_left hw hrmem
    refine (hr.freeApart o ho b hbmem).mono ?_ hrstop.le
    rw [← haddr, stop, addr_taken]
    exact Nat.le_add_right _ _
  refine ⟨hlinked, ?_, ?_, ?_, ?_, fun x hle hlt => ?_, ?_⟩
  · have := hr.free
    simp only [total_append, total_cons] at *
    omega
  · intro o ho
    obtain ho | ho := List.mem_append.mp ho
    · exact (hr.fits o ho).congr (hkept o ho _ (hr.fits o ho).has_addr)
    · rw [List.mem_singleton.mp ho]
      exact
        { inHeap := inHeap_taken hb hw hdvd hwpos
          next := addr_taken.symm ▸ hlink.1
          size := addr_taken.symm ▸ hlink.2
          pv := by simp only [addr_taken]
          pos := hpos
          fits := hfits.trans (le_size_taken hw) }
  · refine List.pairwise_append.mpr ⟨hr.apart, List.pairwise_singleton _ _, fun o ho o' ho' => ?_⟩
    rw [List.mem_singleton.mp ho']
    exact (htaken o ho).symm
  · intro o ho f hf
    obtain ho | ho := List.mem_append.mp ho
    · obtain hf | hf := List.mem_append.mp hf
      · obtain hf | hf := List.mem_append.mp hf
        · exact hr.freeApart o ho f (List.mem_append_left _ hf)
        · exact hleft f hf o ho
      · exact hr.freeApart o ho f (List.mem_append_right _ (List.mem_cons_of_mem _ hf))
    · rw [List.mem_singleton.mp ho]
      obtain hf | hf := List.mem_append.mp hf
      · obtain hf | hf := List.mem_append.mp hf
        · exact .inl (addr_taken.symm ▸ (hlob f hf b List.mem_cons_self).le)
        · exact .inr (mem_left hw hf).1.le
      · exact .inr (hstop.trans (hbhi f hf).le)
  · have hcovered := hr.covered x hle hlt
    simp only [covered_append, covered_cons, List.map_append, List.map_singleton] at *
    obtain (hx | hx | hx) | hx := hcovered
    · exact .inl (.inl (.inl hx))
    · exact (covered_left hw hx).elim (fun hx => .inr (.inr (.inl hx)))
        fun hx => .inl (.inl (.inr hx))
    · exact .inl (.inr hx)
    · exact .inr (.inl hx)
  · have := hr.bytes
    simp only [total_append, total_cons, total_nil, List.map_append, List.map_singleton] at *
    omega

/-- What a request that fits leaves behind. -/
structure Allocated (cfg : Config) (h h' : Heap) (lo hi : List Block) (owners : List Owner)
    (b : Block) (w : ℕ) : Prop where
  call : pvPortMalloc cfg h w = some (h', b.addr + 8)
  ready : Ready cfg h' (lo ++ left b (adjustedSize w) ++ hi)
    (owners ++ [⟨⟨b.addr + 8, w⟩, taken b (adjustedSize w)⟩])
  minimum : h'.xMinimumEverFreeBytesRemaining
    = min h.xMinimumEverFreeBytesRemaining h'.xFreeBytesRemaining
  kept : Kept owners h h'

/-- **A request is served from the first block that is large enough**, and from none else. -/
theorem pvPortMalloc_spec (hr : Ready cfg h fs owners) {w : ℕ} (hw : w < 2 ^ 32) :
    (∃ lo b hi h', fs = lo ++ b :: hi ∧ (∀ a ∈ lo, a.size < adjustedSize w)
      ∧ 0 < w ∧ w < 2 ^ 31 ∧ adjustedSize w ≤ b.size ∧ Allocated cfg h h' lo hi owners b w)
    ∨ pvPortMalloc cfg h w = some (h, 0)
      ∧ (w = 0 ∨ 2 ^ 31 ≤ w ∨ ∀ f ∈ fs, f.size < adjustedSize w) := by
  have hendpos : endAddress cfg ≠ 0 := by
    have := endAddress_bounds cfg
    omega
  have hinit : h.pxEnd ≠ 0 := by rw [hr.linked.pxEnd]; exact hendpos
  simp only [pvPortMalloc, if_neg hinit, hr.linked.bit, and_topBit_eq_zero_iff hw]
  obtain rfl | hpos := Nat.eq_zero_or_pos w
  · exact .inr ⟨by simp [adjustedSize_zero], .inl rfl⟩
  obtain hlt | hge := Nat.lt_or_ge w (2 ^ 31)
  swap
  · exact .inr ⟨by rw [if_neg (not_lt.mpr hge)], .inr (.inl hge)⟩
  obtain ⟨hdvd, -, hwpos⟩ := adjustedSize_bounds hpos hlt
  have hhead := hr.linked.list.eq_headAddr
  have hlist := hr.linked.list
  have hlength := length_lt_turns hr.linked.separated hr.linked.within
  rw [if_pos hlt, hhead]
  rw [hhead] at hlist
  obtain hfirst | ⟨b, hfirst⟩ := Option.eq_none_or_eq_some
    (fs.find? fun f => decide (adjustedSize w ≤ f.size))
  · have hsmall : ∀ f ∈ fs, f.size < adjustedSize w := by
      simpa using List.find?_eq_none.mp hfirst
    refine .inr ⟨?_, .inr (.inr hsmall)⟩
    split_ifs with hfree
    · have hfind : findBlock h (adjustedSize w) (turns cfg) cfg.xStart
          (headAddr (endAddress cfg) (fs ++ [])) = some (lastLink cfg.xStart fs, endAddress cfg) :=
        findBlock_eq (by simpa using hlist) hsmall
          (by simpa using fun f hf => (hr.linked.within f hf).ne_null) hendpos
          (.inr hr.linked.stop.2) hlength
      rw [List.append_nil] at hfind
      rw [hfind, Option.bind_some, if_neg]
      exact not_not.mpr hr.linked.pxEnd.symm
    · rfl
  · obtain ⟨hbig, lo, hi, rfl, hsmall⟩ := List.find?_eq_some_iff_append.mp hfirst
    have hbig : adjustedSize w ≤ b.size := by simpa using hbig
    have hsmall : ∀ a ∈ lo, a.size < adjustedSize w := by simpa using hsmall
    have hbmem : b ∈ lo ++ b :: hi := List.mem_append_right _ List.mem_cons_self
    have hlo : lo.length < turns cfg := by
      rw [List.length_append] at hlength
      omega
    have hfind : findBlock h (adjustedSize w) (turns cfg) cfg.xStart
        (headAddr (endAddress cfg) (lo ++ b :: hi)) = some (lastLink cfg.xStart lo, b.addr) :=
      findBlock_eq hlist hsmall (fun f hf => (hr.linked.within f hf).ne_null) hendpos
        (.inl (hbig.trans (hr.linked.list.size_of_mem hbmem).ge)) hlo
    obtain ⟨h', htake, hlinked, hlink, ⟨hfree, hmin⟩, hsame⟩ :=
      takeBlock_linked hr.linked hbig hdvd hwpos
    have hkept := hr.kept hsame
    refine .inl ⟨lo, b, hi, h', rfl, hsmall, hpos, hlt, hbig, ?_,
      hr.take hpos hlt hbig hlinked hlink hfree hkept, hmin, hkept⟩
    have hfits : adjustedSize w ≤ h.xFreeBytesRemaining := by
      rw [hr.free]
      exact hbig.trans (size_le_total hbmem)
    simp only [pvPortMalloc, if_neg hinit, hr.linked.bit, and_topBit_eq_zero_iff hw, if_pos hlt]
    rw [if_pos ⟨hwpos, hfits⟩, hhead, hfind, Option.bind_some, if_pos]
    · exact htake
    · rw [hr.linked.pxEnd]
      exact (hr.linked.within b hbmem).ne_end

/-- The first request in the heap of the project, still to be opened, is served behind its link. -/
example : (pvPortMalloc Config.project ⟨fun _ => ⟨0, 0⟩, 0, 0, 0, 0, 0, 0⟩ 100).map Prod.snd
    = some 0x20000010 := by
  decide +kernel

/-- **A block that is given back is free**, as one with the free ones it touches. -/
theorem Ready.give {o : Owner} {before behind : List Owner}
    (hr : Ready cfg h (lo ++ hi) (before ++ o :: behind))
    (hlinked : Linked cfg h' (coalesce (lo ++ o.block :: hi)))
    (hfree : h'.xFreeBytesRemaining = h.xFreeBytesRemaining + o.block.size)
    (hkept : Kept (before ++ behind) h h') :
    Ready cfg h' (coalesce (lo ++ o.block :: hi)) (before ++ behind) := by
  have hsub : ∀ o' ∈ before ++ behind, o' ∈ before ++ o :: behind := fun o' ho' => by
    obtain ho' | ho' := List.mem_append.mp ho'
    · exact List.mem_append_left _ ho'
    · exact List.mem_append_right _ (List.mem_cons_of_mem _ ho')
  obtain ⟨hbefore, hcons, hacross⟩ := List.pairwise_append.mp hr.apart
  obtain ⟨hbehind, hrest⟩ := List.pairwise_cons.mp hcons
  have hothers : ∀ o' ∈ before ++ behind, Apart o.block o'.block := fun o' ho' => by
    obtain ho' | ho' := List.mem_append.mp ho'
    · exact (hacross o' ho' o List.mem_cons_self).symm
    · exact hbehind o' ho'
  refine ⟨hlinked, ?_, ?_, ?_, ?_, fun x hle hlt => ?_, ?_⟩
  · have := hr.free
    rw [total_coalesce]
    simp only [total_append, total_cons] at *
    omega
  · intro o' ho'
    have hfits := hr.fits o' (hsub o' ho')
    exact hfits.congr (hkept o' ho' _ hfits.has_addr)
  · exact List.pairwise_append.mpr
      ⟨hbefore, hrest, fun a ha c hc => hacross a ha c (List.mem_cons_of_mem _ hc)⟩
  · intro o' ho'
    have hpos := (hr.fits o' (hsub o' ho')).inHeap.pos
    refine forall_mem_coalesce (fun _ _ ha hc htouch => ha.join hc hpos htouch)
      fun f hf => ?_
    obtain hf | hf := List.mem_append.mp hf
    · exact hr.freeApart o' (hsub o' ho') f (List.mem_append_left _ hf)
    · obtain rfl | hf := List.mem_cons.mp hf
      · exact hothers o' ho'
      · exact hr.freeApart o' (hsub o' ho') f (List.mem_append_right _ hf)
  · have hcovered := hr.covered x hle hlt
    rw [covered_coalesce]
    simp only [covered_append, covered_cons, List.map_append, List.map_cons] at *
    tauto
  · have := hr.bytes
    rw [total_coalesce]
    simp only [total_append, total_cons, List.map_append, List.map_cons] at *
    omega

/-- **What an allocation has is given back**, and nothing of the others is touched. -/
theorem vPortFree_spec {o : Owner} {before behind : List Owner}
    (hr : Ready cfg h fs (before ++ o :: behind)) :
    ∃ h' fs', vPortFree cfg h o.alloc.pv = some h' ∧ Ready cfg h' fs' (before ++ behind)
      ∧ h'.xMinimumEverFreeBytesRemaining = h.xMinimumEverFreeBytesRemaining
      ∧ h.xFreeBytesRemaining ≤ h'.xFreeBytesRemaining
      ∧ Kept (before ++ behind) h h' := by
  have homem : o ∈ before ++ o :: behind := List.mem_append_right _ List.mem_cons_self
  have hfits := hr.fits o homem
  have hb := hfits.inHeap
  obtain ⟨lo, hi, rfl, hlo, hhi⟩ :=
    exists_place hr.linked.separated fun f hf => hr.freeApart o homem f hf
  have hsmall : o.block.size < 2 ^ 31 := by
    have := hb.stop_le
    have := hb.aligned_le
    have := endAddress_bounds cfg
    have := alignedHeap_bounds cfg
    have := cfg.small
    rw [stop] at *
    omega
  obtain ⟨hbit, hmask⟩ := add_topBit_and hsmall
  have hpv : o.alloc.pv ≠ 0 := by
    rw [hfits.pv]
    exact Nat.succ_ne_zero _
  have hlink : o.alloc.pv - xHeapStructSize = o.block.addr := by
    rw [hfits.pv]
    exact Nat.add_sub_cancel _ _
  have hne : ∀ f ∈ lo ++ hi, f.addr ≠ o.block.addr := fun f hf heq => by
    have hpos := hr.linked.separated.pos f hf
    exact (hr.freeApart o homem f hf).not_has ⟨le_rfl, Nat.lt_add_of_pos_right hpos⟩
      (heq ▸ hfits.has_addr)
  set h₁ := (h.setSize o.block.addr o.block.size).giveBytes o.block.size with hh₁
  have hlinked : Linked cfg h₁ (lo ++ hi) := by
    refine hr.linked.congr ⟨rfl, rfl⟩ ?_ ?_ fun f hf => ?_
    · simp [SameAt, hh₁, hb.ne_start.symm]
    · simp [SameAt, hh₁, hb.ne_end.symm]
    · simp [SameAt, hh₁, hne f hf]
  obtain ⟨h', hinsert, hlinked', hglobals, hsame⟩ :=
    insert_linked hlinked hb (by simp [hh₁]) hlo hhi
  have hfree : h'.xFreeBytesRemaining = h.xFreeBytesRemaining + o.block.size := by
    rw [hglobals]; rfl
  have hmin : h'.xMinimumEverFreeBytesRemaining = h.xMinimumEverFreeBytesRemaining := by
    rw [hglobals]; rfl
  have hothers : ∀ o' ∈ before ++ behind, o' ∈ before ++ o :: behind ∧ Apart o.block o'.block := by
    obtain ⟨-, hcons, hacross⟩ := List.pairwise_append.mp hr.apart
    intro o' ho'
    obtain ho' | ho' := List.mem_append.mp ho'
    · exact ⟨List.mem_append_left _ ho', (hacross o' ho' o List.mem_cons_self).symm⟩
    · exact ⟨List.mem_append_right _ (List.mem_cons_of_mem _ ho'),
        (List.pairwise_cons.mp hcons).1 o' ho'⟩
  have hkept : Kept (before ++ behind) h h'.countFree := by
    intro o' ho' x hx
    obtain ⟨hmem, hapart⟩ := hothers o' ho'
    have hin := (hr.fits o' hmem).inHeap
    have hxb : x ≠ o.block.addr := by
      rintro rfl
      exact hapart.not_has hfits.has_addr hx
    have := hsame x (xStart_ne cfg (hin.aligned_le.trans hx.1) (hx.2.trans_le hin.stop_le).le) hxb
      fun f hf => by
        rintro rfl
        have hfmem := List.mem_append_left hi hf
        have hpos := hr.linked.separated.pos f hfmem
        exact (hr.freeApart o' hmem f hfmem).not_has ⟨le_rfl, Nat.lt_add_of_pos_right hpos⟩ hx
    simpa [SameAt, hh₁, hxb] using this
  refine ⟨h'.countFree, _, ?_, hr.give (hlinked'.congr ⟨rfl, rfl⟩ ⟨rfl, rfl⟩ ⟨rfl, rfl⟩
    fun _ _ => ⟨rfl, rfl⟩) hfree hkept, hmin, ?_, hkept⟩
  · simp only [vPortFree, if_pos hpv, hlink, hfits.size, hfits.next, hr.linked.bit]
    rw [if_pos ⟨hbit, trivial⟩, hmask, Heap.size_setSize, if_pos rfl, ← hh₁, hinsert,
      Option.map_some]
  · exact hfree.symm ▸ Nat.le_add_right _ _

theorem Ready.apart_of_ne (hr : Ready cfg h fs owners) {o o' : Owner} (ho : o ∈ owners)
    (ho' : o' ∈ owners) (hne : o ≠ o') : Apart o.block o'.block := by
  have : Std.Symm fun o o' : Owner => Apart o.block o'.block := ⟨fun _ _ hapart => hapart.symm⟩
  exact hr.apart.forall ho ho' hne

/-- **The application writes to its own memory only.** -/
theorem Ready.write (hr : Ready cfg h fs owners) (f : ℕ → BlockLink) :
    Ready cfg { h with mem := fun a => if Owned (owners.map Owner.alloc) a then f a else h.mem a }
      fs owners := by
  have hsame : ∀ a, ¬ Owned (owners.map Owner.alloc) a → SameAt h
      { h with mem := fun a => if Owned (owners.map Owner.alloc) a then f a else h.mem a } a :=
    fun a ha => by simp [SameAt, Heap.next, Heap.size, if_neg ha]
  have howned : ∀ a, Owned (owners.map Owner.alloc) a →
      ∃ o ∈ owners, o.block.Has a ∧ o.block.addr < a := by
    rintro a ⟨l, hl, hle, hlt⟩
    obtain ⟨o, ho, rfl⟩ := List.mem_map.mp hl
    have hfits := hr.fits o ho
    have hpv := hfits.pv
    have hsize := hfits.fits
    refine ⟨o, ho, ⟨?_, ?_⟩, ?_⟩
    · omega
    · rw [stop]
      omega
    · omega
  have hout : ∀ a, a < alignedHeap cfg ∨ endAddress cfg ≤ a →
      ¬ Owned (owners.map Owner.alloc) a := by
    intro a ha hown
    obtain ⟨o, ho, hhas, -⟩ := howned a hown
    have := (hr.fits o ho).inHeap.aligned_le
    have := (hr.fits o ho).inHeap.stop_le
    have := hhas.1
    have := hhas.2
    omega
  have hlinks : ∀ o ∈ owners, ¬ Owned (owners.map Owner.alloc) o.block.addr := by
    intro o ho hown
    obtain ⟨o', ho', hhas, hlt⟩ := howned _ hown
    have hhas' := (hr.fits o ho).has_addr
    obtain rfl | hne := eq_or_ne o o'
    · exact lt_irrefl _ hlt
    · exact (hr.apart_of_ne ho ho' hne).not_has hhas' hhas
  have hstart : ¬ Owned (owners.map Owner.alloc) cfg.xStart := by
    refine hout _ ?_
    have := cfg.xStart_outside
    have := alignedHeap_bounds cfg
    have := endAddress_bounds cfg
    omega
  refine ⟨hr.linked.congr ⟨rfl, rfl⟩ (hsame _ hstart) (hsame _ (hout _ (.inr le_rfl)))
    fun b hb => hsame _ fun hown => ?_, hr.free, fun o ho =>
    (hr.fits o ho).congr (hsame _ (hlinks o ho)), hr.apart, hr.freeApart, hr.covered, hr.bytes⟩
  obtain ⟨o, ho, hhas, -⟩ := howned _ hown
  have hpos := hr.linked.separated.pos b hb
  exact (hr.freeApart o ho b hb).not_has ⟨le_rfl, Nat.lt_add_of_pos_right hpos⟩ hhas

end Calls

end Heap4

end EmbeddedMCU

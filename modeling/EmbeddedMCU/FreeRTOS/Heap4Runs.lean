import EmbeddedMCU.FreeRTOS.Heap4Calls
import Mathlib.Data.Set.Basic
import Mathlib.Order.Bounds.Defs
import Mathlib.Order.MinMax

/-!
# FreeRTOS/Heap4Runs — runs of an application on `heap_4.c`

The application asks for memory, gives it back and writes to what it has, in any order.  It never
gets memory twice (`heap_separates`), it is refused only when there is no room anywhere
(`malloc_complete`), and the counters of the heap are what they say they are
(`freeBytes_accounted`, `minimumEver_least`) — but `vPortGetHeapStats` runs off the list when there
is nothing free (`heapStats_none_iff`).
-/

namespace EmbeddedMCU

namespace Heap4

open Block

/-! ## One step -/

/-- The heap `pvPortMalloc` works on: the first call initialises it. -/
def opened (cfg : Config) (h : Heap) : Heap := if h.pxEnd = 0 then prvHeapInit cfg h else h

/-- **Before the first request, or ready.** -/
def Inv (cfg : Config) (sys : System) : Prop :=
  (sys.heap.pxEnd = 0 ∧ sys.heap.next cfg.xStart = 0 ∧ sys.live = [])
    ∨ ∃ fs owners, Ready cfg sys.heap fs owners ∧ sys.live = owners.map Owner.alloc

/-- What a step does to the least number of free bytes: the first request sets it, and from then on
it follows the free bytes down. -/
def Lowered (h h' : Heap) : Prop :=
  (h.pxEnd = 0 ∧ h'.pxEnd = 0)
    ∨ (h.pxEnd = 0 ∧ h'.pxEnd ≠ 0
      ∧ h'.xMinimumEverFreeBytesRemaining = h'.xFreeBytesRemaining)
    ∨ (h.pxEnd ≠ 0 ∧ h'.pxEnd ≠ 0
      ∧ (h'.xMinimumEverFreeBytesRemaining
          = min h.xMinimumEverFreeBytesRemaining h'.xFreeBytesRemaining
        ∨ h'.xMinimumEverFreeBytesRemaining = h.xMinimumEverFreeBytesRemaining
          ∧ h.xFreeBytesRemaining ≤ h'.xFreeBytesRemaining))

/-- What holds of every step. -/
structure Stepped (cfg : Config) (sys : System) (a : Action) : Prop where
  inv : Inv cfg (step cfg sys a).1
  out : (step cfg sys a).2 ≠ .stuck
  kept : (∀ f, a ≠ .write f) → ∀ l ∈ sys.live, l ∈ (step cfg sys a).1.live → ∀ x, l.pv ≤ x →
    x < l.pv + l.xWantedSize → (step cfg sys a).1.heap.mem x = sys.heap.mem x
  lowered : Lowered sys.heap (step cfg sys a).1.heap

section Step

variable {cfg : Config} {sys : System} {h h' : Heap} {fs : List Block} {owners : List Owner}

theorem SameAt.mem_eq {x : ℕ} (hsame : SameAt h h' x) : h'.mem x = h.mem x :=
  BlockLink.ext hsame.1 hsame.2

theorem Ready.pxEnd_ne (hr : Ready cfg h fs owners) : h.pxEnd ≠ 0 := by
  have := endAddress_bounds cfg
  rw [hr.linked.pxEnd]
  omega

theorem opened_of_ready (hr : Ready cfg h fs owners) : opened cfg h = h := if_neg hr.pxEnd_ne

/-- **`pvPortMalloc` works on a heap that is ready.** -/
theorem Inv.opened (hinv : Inv cfg sys) :
    ∃ fs owners, Ready cfg (Heap4.opened cfg sys.heap) fs owners
      ∧ sys.live = owners.map Owner.alloc := by
  obtain ⟨hend, -, hlive⟩ | ⟨fs, owners, hr, hlive⟩ := hinv
  · rw [Heap4.opened, if_pos hend]
    exact ⟨_, _, prvHeapInit_ready cfg sys.heap, hlive⟩
  · rw [opened_of_ready hr]
    exact ⟨fs, owners, hr, hlive⟩

theorem pvPortMalloc_opened (w : ℕ) :
    pvPortMalloc cfg h w = pvPortMalloc cfg (opened cfg h) w := by
  rw [opened]
  split_ifs with hend
  · have hready := prvHeapInit_ready cfg h
    simp only [pvPortMalloc, if_pos hend, if_neg hready.pxEnd_ne]
  · rfl

/-- What an allocation has lies in its block. -/
theorem Owner.Fits.has {o : Owner} (ho : o.Fits cfg h) {x : ℕ} (hle : o.alloc.pv ≤ x)
    (hlt : x < o.alloc.pv + o.alloc.xWantedSize) : o.block.Has x := by
  have hpv := ho.pv
  have hfits := ho.fits
  rw [Has, stop]
  omega

/-- **A request**, served or refused. -/
theorem stepped_malloc (hinv : Inv cfg sys) (w : UInt32) : Stepped cfg sys (.malloc w) := by
  obtain ⟨fs, owners, hr, hlive⟩ := hinv.opened
  have hopened : ∀ h', h'.pxEnd ≠ 0 →
      (h'.xMinimumEverFreeBytesRemaining
          = min (opened cfg sys.heap).xMinimumEverFreeBytesRemaining h'.xFreeBytesRemaining
        ∧ h'.xFreeBytesRemaining ≤ (opened cfg sys.heap).xFreeBytesRemaining
        ∨ h' = opened cfg sys.heap) →
      Lowered sys.heap h' := by
    intro h' hend hmin
    obtain hzero | hne := eq_or_ne sys.heap.pxEnd 0
    · refine .inr (.inl ⟨hzero, hend, ?_⟩)
      have hbytes : (opened cfg sys.heap).xMinimumEverFreeBytesRemaining
          = (opened cfg sys.heap).xFreeBytesRemaining := by
        rw [opened, if_pos hzero]
        rfl
      obtain ⟨hmin, hle⟩ | rfl := hmin
      · rw [hmin, hbytes, min_eq_right hle]
      · exact hbytes
    · rw [opened, if_neg hne] at hmin
      refine .inr (.inr ⟨hne, hend, ?_⟩)
      obtain ⟨hmin, -⟩ | rfl := hmin
      · exact .inl hmin
      · exact .inr ⟨rfl, le_rfl⟩
  have hmem : sys.live ≠ [] → opened cfg sys.heap = sys.heap := fun hne => by
    obtain ⟨-, -, hnil⟩ | ⟨fs', owners', hr', -⟩ := hinv
    · exact absurd hnil hne
    · exact opened_of_ready hr'
  obtain ⟨lo, b, hi, h', rfl, -, hpos, hlt, hbig, hcall⟩ | ⟨hcall, -⟩ :=
    pvPortMalloc_spec hr (UInt32.toNat_lt w)
  · have hstep : step cfg sys (.malloc w)
        = (⟨h', sys.live ++ [⟨b.addr + 8, w.toNat⟩]⟩, .allocated (b.addr + 8)) := by
      rw [step, pvPortMalloc_opened, hcall.call]
      rfl
    refine ⟨?_, ?_, fun _ l hl _ x hle hlt => ?_, ?_⟩
    · rw [hstep]
      exact .inr ⟨_, _, hcall.ready, by simp [hlive]⟩
    · rw [hstep]
      exact Out.noConfusion
    · rw [hstep, ← hmem (List.ne_nil_of_mem hl)]
      rw [hlive] at hl
      obtain ⟨o, ho, rfl⟩ := List.mem_map.mp hl
      exact (hcall.kept o ho x ((hr.fits o ho).has hle hlt)).mem_eq
    · rw [hstep]
      have hfree : h'.xFreeBytesRemaining ≤ (opened cfg sys.heap).xFreeBytesRemaining := by
        have htotal := total_left hbig
        rw [hcall.ready.free, hr.free]
        simp only [total_append, total_cons]
        omega
      exact hopened h' hcall.ready.pxEnd_ne (.inl ⟨hcall.minimum, hfree⟩)
  · have hstep : step cfg sys (.malloc w) = (⟨opened cfg sys.heap, sys.live⟩, .allocated 0) := by
      rw [step, pvPortMalloc_opened, hcall]
      rfl
    refine ⟨?_, ?_, fun _ l hl _ x _ _ => ?_, ?_⟩
    · rw [hstep]
      exact .inr ⟨fs, owners, hr, hlive⟩
    · rw [hstep]
      exact Out.noConfusion
    · rw [hstep, hmem (List.ne_nil_of_mem hl)]
    · rw [hstep]
      exact hopened _ hr.pxEnd_ne (.inr rfl)

/-- A step that changes nothing. -/
theorem stepped_of_eq (hinv : Inv cfg sys) {a : Action} (heq : step cfg sys a = (sys, .done)) :
    Stepped cfg sys a := by
  refine ⟨by rwa [heq], by rw [heq]; exact Out.noConfusion, fun _ _ _ _ _ _ _ => by rw [heq], ?_⟩
  rw [heq]
  obtain hzero | hne := eq_or_ne sys.heap.pxEnd 0
  · exact .inl ⟨hzero, hzero⟩
  · exact .inr (.inr ⟨hne, hne, .inr ⟨rfl, le_rfl⟩⟩)

/-- **Memory is given back**, when there is an allocation of that number. -/
theorem stepped_free (hinv : Inv cfg sys) (i : ℕ) : Stepped cfg sys (.free i) := by
  obtain hnone | ⟨l, hl⟩ := Option.eq_none_or_eq_some sys.live[i]?
  · refine stepped_of_eq hinv ?_
    rw [step, hnone]
  obtain ⟨-, -, hnil⟩ | ⟨fs, owners, hr, hlive⟩ := hinv
  · rw [hnil] at hl
    exact absurd hl (by simp)
  rw [hlive, List.getElem?_map, Option.map_eq_some_iff] at hl
  obtain ⟨o, ho, rfl⟩ := hl
  obtain ⟨hi, hoi⟩ := List.getElem?_eq_some_iff.mp ho
  have howners : owners = owners.take i ++ o :: owners.drop (i + 1) := by
    rw [← hoi, List.getElem_cons_drop, List.take_append_drop]
  have herase : sys.live.eraseIdx i
      = (owners.take i ++ owners.drop (i + 1)).map Owner.alloc := by
    simp [hlive, List.eraseIdx_eq_take_drop_succ, List.map_take, List.map_drop]
  obtain ⟨h', fs', hcall, hready, hmin, hfree, hkept⟩ := vPortFree_spec (howners ▸ hr)
  have hstep : step cfg sys (.free i)
      = (⟨h', (owners.take i ++ owners.drop (i + 1)).map Owner.alloc⟩, .done) := by
    have hget : sys.live[i]? = some o.alloc := by rw [hlive, List.getElem?_map, ho]; rfl
    rw [step, hget, ← herase]
    simp only [hcall]
  refine ⟨?_, ?_, fun _ l _ hl x hle hlt => ?_, ?_⟩
  · rw [hstep]
    exact .inr ⟨fs', _, hready, rfl⟩
  · rw [hstep]
    exact Out.noConfusion
  · rw [hstep] at hl ⊢
    obtain ⟨o', ho', rfl⟩ := List.mem_map.mp hl
    exact (hkept o' ho' x ((hready.fits o' ho').has hle hlt)).mem_eq
  · rw [hstep]
    exact .inr (.inr ⟨hr.pxEnd_ne, hready.pxEnd_ne, .inr ⟨hmin, hfree⟩⟩)

/-- The application writes to what it has. -/
theorem stepped_write (hinv : Inv cfg sys) (f : ℕ → BlockLink) : Stepped cfg sys (.write f) := by
  refine ⟨?_, Out.noConfusion, fun hne => absurd rfl (hne f), ?_⟩
  · obtain ⟨hend, hnext, hnil⟩ | ⟨fs, owners, hr, hlive⟩ := hinv
    · refine .inl ⟨hend, ?_, hnil⟩
      simpa [step, hnil, Owned, Heap.next] using hnext
    · refine .inr ⟨fs, owners, ?_, hlive⟩
      simp only [step, hlive]
      exact hr.write f
  · obtain hzero | hne := eq_or_ne sys.heap.pxEnd 0
    · exact .inl ⟨hzero, hzero⟩
    · exact .inr (.inr ⟨hne, hne, .inr ⟨rfl, le_rfl⟩⟩)

/-- **What every step does.** -/
theorem stepped (hinv : Inv cfg sys) (a : Action) : Stepped cfg sys a := by
  cases a with
  | malloc w => exact stepped_malloc hinv w
  | free i => exact stepped_free hinv i
  | freeNull => exact stepped_of_eq hinv rfl
  | write f => exact stepped_write hinv f

end Step

/-! ## The statistics -/

section Stats

variable {cfg : Config} {h : Heap} {fs : List Block}

/-- What is counted of a list of blocks. -/
def counted (c : Count) (bs : List Block) : Count := bs.foldl (fun c b => c.add b.size) c

/-- **The loop of the statistics counts every block of a list that has one.** -/
theorem countBlocks_eq {a n : ℕ} {b : Block} {bs : List Block} {c : Count}
    (hseg : LSeg h h.pxEnd a (b :: bs))
    (hreal : ∀ d ∈ b :: bs, d.addr ≠ 0 ∧ d.addr ≠ h.pxEnd) (hn : bs.length < n) :
    countBlocks h n a c = some (counted c (b :: bs)) := by
  induction bs generalizing a b n c with
  | nil =>
    obtain ⟨n, rfl⟩ := Nat.exists_eq_add_of_lt hn
    obtain ⟨ha, hsize, hrest⟩ := hseg
    have hend : h.next a = h.pxEnd := hrest
    rw [countBlocks, if_neg (ha ▸ (hreal b List.mem_cons_self).1), hsize]
    simp only [hend, ne_eq, not_true_eq_false, if_false]
    rfl
  | cons d bs ih =>
    obtain ⟨n, rfl⟩ := Nat.exists_eq_add_of_lt hn
    obtain ⟨ha, hsize, hrest⟩ := hseg
    obtain ⟨hb, hreal⟩ := List.forall_mem_cons.mp hreal
    have hmore : h.next a ≠ h.pxEnd := by
      rw [hrest.eq_headAddr]
      exact (hreal d List.mem_cons_self).2
    rw [countBlocks, if_neg (ha ▸ hb.1), hsize]
    simp only [if_pos hmore]
    exact ih hrest hreal (by rw [List.length_cons]; omega)

/-- What is counted bounds every size, by one of them or by what it was. -/
theorem counted_spec (c : Count) (bs : List Block) :
    (counted c bs).xBlocks = c.xBlocks + bs.length
      ∧ ((∀ b ∈ bs, b.size ≤ (counted c bs).xMaxSize) ∧ c.xMaxSize ≤ (counted c bs).xMaxSize
        ∧ ((counted c bs).xMaxSize = c.xMaxSize ∨ ∃ b ∈ bs, b.size = (counted c bs).xMaxSize))
      ∧ (∀ b ∈ bs, (counted c bs).xMinSize ≤ b.size) ∧ (counted c bs).xMinSize ≤ c.xMinSize
        ∧ ((counted c bs).xMinSize = c.xMinSize ∨ ∃ b ∈ bs, b.size = (counted c bs).xMinSize) := by
  induction bs generalizing c with
  | nil => simp [counted]
  | cons b bs ih =>
    obtain ⟨hblocks, ⟨hmax, hcmax, hmaxmem⟩, hmin, hcmin, hminmem⟩ := ih (c.add b.size)
    have hcounted : counted c (b :: bs) = counted (c.add b.size) bs := rfl
    have haddmax : c.xMaxSize ≤ (c.add b.size).xMaxSize ∧ b.size ≤ (c.add b.size).xMaxSize
        ∧ ((c.add b.size).xMaxSize = c.xMaxSize ∨ b.size = (c.add b.size).xMaxSize) := by
      simp only [Count.add]
      split_ifs <;> omega
    have haddmin : (c.add b.size).xMinSize ≤ c.xMinSize ∧ (c.add b.size).xMinSize ≤ b.size
        ∧ ((c.add b.size).xMinSize = c.xMinSize ∨ b.size = (c.add b.size).xMinSize) := by
      simp only [Count.add]
      split_ifs <;> omega
    rw [hcounted, List.forall_mem_cons, List.forall_mem_cons, List.exists_mem_cons_iff,
      List.exists_mem_cons_iff, List.length_cons]
    refine ⟨by rw [hblocks, Count.add]; simp only; omega,
      ⟨⟨haddmax.2.1.trans hcmax, hmax⟩, haddmax.1.trans hcmax, ?_⟩,
      ⟨hcmin.trans haddmin.2.1, hmin⟩, hcmin.trans haddmin.1, ?_⟩
    · obtain heq | hmem := hmaxmem
      · rw [heq]
        exact haddmax.2.2.imp_right .inl
      · exact .inr (.inr hmem)
    · obtain heq | hmem := hminmem
      · rw [heq]
        exact haddmin.2.2.imp_right .inl
      · exact .inr (.inr hmem)

/-- **With no free block the loop goes on behind the end**, at `NULL`. -/
theorem vPortGetHeapStats_nil (hl : Linked cfg h []) : vPortGetHeapStats cfg h = none := by
  have hfirst : h.next cfg.xStart = h.pxEnd := hl.pxEnd ▸ hl.list
  have hend : h.pxEnd ≠ 0 := by
    have := endAddress_bounds cfg
    rw [hl.pxEnd]
    omega
  obtain ⟨n, hn⟩ := Nat.exists_eq_add_of_le (show 2 ≤ turns cfg from (by decide : 2 ≤ 32).trans
    cfg.room)
  have hnull : h.next h.pxEnd = 0 := hl.pxEnd ▸ hl.stop.2
  rw [vPortGetHeapStats, hfirst, if_pos hend, hn, Nat.add_comm, countBlocks, if_neg hend]
  simp only [hnull, if_pos hend.symm]
  rw [countBlocks, if_pos rfl]
  rfl

end Stats

/-! ## Runs -/

section Runs

variable (cfg : Config) (mem : ℕ → BlockLink) (actions : List Action)

/-- The heap and the application after a run. -/
def after : System := (run (step cfg) (initial cfg mem) actions).1

theorem inv_initial : Inv cfg (initial cfg mem) :=
  .inl ⟨rfl, by simp [initial, Heap.next], rfl⟩

theorem run_inv : Inv cfg (after cfg mem actions)
    ∧ ∀ o ∈ (run (step cfg) (initial cfg mem) actions).2, o ≠ .stuck :=
  run_invariant (Inv cfg) (fun o => o ≠ Out.stuck) (fun _ => True)
    (fun _ a hinv _ => ⟨(stepped hinv a).inv, (stepped hinv a).out⟩) (inv_initial cfg mem)
    (fun a (_ : a ∈ actions) => trivial)

theorem after_concat (a : Action) :
    after cfg mem (actions ++ [a]) = (step cfg (after cfg mem actions) a).1 := by
  rw [after, run_concat]
  rfl

/-- **What the application has is its own.**  No call gets lost in the heap; what is handed out is
aligned, in the heap, and apart from all else that is; and no call writes to it. -/
theorem heap_separates :
    (∀ o ∈ (run (step cfg) (initial cfg mem) actions).2, o ≠ .stuck)
      ∧ (∀ l ∈ (after cfg mem actions).live, 8 ∣ l.pv ∧ 0 < l.xWantedSize
        ∧ cfg.ucHeap + 8 ≤ l.pv ∧ l.pv + l.xWantedSize ≤ cfg.ucHeap + cfg.totalHeapSize)
      ∧ (after cfg mem actions).live.Pairwise (fun l l' =>
        l.pv + l.xWantedSize ≤ l'.pv ∨ l'.pv + l'.xWantedSize ≤ l.pv)
      ∧ ∀ a, (∀ f, a ≠ .write f) → ∀ l ∈ (after cfg mem actions).live,
        l ∈ (after cfg mem (actions ++ [a])).live → ∀ x, l.pv ≤ x → x < l.pv + l.xWantedSize →
          (after cfg mem (actions ++ [a])).heap.mem x = (after cfg mem actions).heap.mem x := by
  obtain ⟨hinv, hout⟩ := run_inv cfg mem actions
  have hheap := alignedHeap_bounds cfg
  have hend := endAddress_bounds cfg
  refine ⟨hout, ?_, ?_, fun a ha => ?_⟩
  · obtain ⟨-, -, hnil⟩ | ⟨fs, owners, hr, hlive⟩ := hinv
    · simp [hnil]
    · intro l hl
      rw [hlive] at hl
      obtain ⟨o, ho, rfl⟩ := List.mem_map.mp hl
      have hfits := hr.fits o ho
      have hpv := hfits.pv
      have hsize := hfits.fits
      have hle := hfits.inHeap.aligned_le
      have hstop := hfits.inHeap.stop_le
      have hdvd := hfits.inHeap.addr_dvd
      rw [stop] at hstop
      exact ⟨by omega, hfits.pos, by omega, by omega⟩
  · obtain ⟨-, -, hnil⟩ | ⟨fs, owners, hr, hlive⟩ := hinv
    · rw [hnil]
      exact List.Pairwise.nil
    · rw [hlive, List.pairwise_map]
      refine hr.apart.imp_of_mem fun {o o'} ho ho' hapart => ?_
      have hpv := (hr.fits o ho).pv
      have hpv' := (hr.fits o' ho').pv
      have hfits := (hr.fits o ho).fits
      have hfits' := (hr.fits o' ho').fits
      simp only [Apart, stop] at hapart
      omega
  · rw [after_concat]
    exact (stepped hinv a).kept ha

/-- The block of an allocation, by the link before it. -/
def blockOf (h : Heap) (l : Allocation) : Block :=
  ⟨l.pv - xHeapStructSize, h.size (l.pv - xHeapStructSize) - 2 ^ 31⟩

theorem Owner.Fits.blockOf_eq {cfg : Config} {h : Heap} {o : Owner} (ho : o.Fits cfg h) :
    blockOf h o.alloc = o.block := by
  have haddr : o.alloc.pv - xHeapStructSize = o.block.addr := by
    rw [ho.pv]
    exact Nat.add_sub_cancel _ _
  rw [blockOf, haddr, ho.size, Nat.add_sub_cancel]

theorem Ready.map_blockOf {cfg : Config} {h : Heap} {fs : List Block} {owners : List Owner}
    (hr : Ready cfg h fs owners) :
    (owners.map Owner.alloc).map (blockOf h) = owners.map Owner.block := by
  rw [List.map_map]
  exact List.map_congr_left fun o ho => (hr.fits o ho).blockOf_eq

/-- Somewhere in the heap there are `n` addresses that no allocation's block has. -/
def Room (cfg : Config) (sys : System) (n : ℕ) : Prop :=
  ∃ x, alignedHeap cfg ≤ x ∧ x + n ≤ endAddress cfg
    ∧ ∀ l ∈ sys.live, Apart ⟨x, n⟩ (blockOf sys.heap l)

/-- **There is room where a free block is large enough**, and only there: no two free blocks
touch. -/
theorem Ready.room_iff {cfg : Config} {h : Heap} {fs : List Block} {owners : List Owner}
    (hr : Ready cfg h fs owners) {n : ℕ} (hn : 0 < n) :
    Room cfg ⟨h, owners.map Owner.alloc⟩ n ↔ ∃ f ∈ fs, n ≤ f.size := by
  constructor
  · rintro ⟨x, hle, hstop, hapart⟩
    have hrun : ∀ y, x ≤ y → y < x + n → Covered fs y := by
      intro y hy hlt
      obtain hfree | ⟨b, hb, hhas⟩ := hr.covered y (hle.trans hy) (hlt.trans_le hstop)
      · exact hfree
      · obtain ⟨o, ho, rfl⟩ := List.mem_map.mp hb
        have := hapart o.alloc (List.mem_map_of_mem ho)
        rw [(hr.fits o ho).blockOf_eq] at this
        exact absurd hhas (this.not_has ⟨hy, hlt⟩)
    obtain ⟨b, hb, haddr, hbstop⟩ := exists_block_of_run hr.linked.separated hn hrun
    refine ⟨b, hb, ?_⟩
    rw [stop] at hbstop
    omega
  · rintro ⟨f, hf, hsize⟩
    have hin := hr.linked.within f hf
    have hstop : f.addr + n ≤ f.stop := Nat.add_le_add_left hsize _
    refine ⟨f.addr, hin.aligned_le, hstop.trans hin.stop_le, fun l hl => ?_⟩
    obtain ⟨o, ho, rfl⟩ := List.mem_map.mp hl
    rw [(hr.fits o ho).blockOf_eq]
    exact (hr.freeApart o ho f hf).mono le_rfl hstop

/-- **A request is served when a free block is large enough**, and only then. -/
theorem Ready.malloc_iff {cfg : Config} {h : Heap} {fs : List Block} {owners : List Owner}
    (hr : Ready cfg h fs owners) (w : UInt32) :
    ∃ h' pv, pvPortMalloc cfg h w.toNat = some (h', pv)
      ∧ (pv ≠ 0 ↔ 0 < w.toNat ∧ w.toNat < 2 ^ 31 ∧ ∃ f ∈ fs, adjustedSize w.toNat ≤ f.size) := by
  obtain ⟨lo, b, hi, h', rfl, -, hpos, hlt, hbig, hcall⟩ | ⟨hcall, hnone⟩ :=
    pvPortMalloc_spec hr (UInt32.toNat_lt w)
  · exact ⟨h', _, hcall.call, iff_of_true (Nat.succ_ne_zero _)
      ⟨hpos, hlt, b, List.mem_append_right _ List.mem_cons_self, hbig⟩⟩
  · refine ⟨h, 0, hcall, iff_of_false (not_not.mpr rfl) ?_⟩
    rintro ⟨hpos, hlt, f, hf, hbig⟩
    obtain hzero | hge | hsmall := hnone
    · omega
    · omega
    · exact absurd (hsmall f hf) (not_lt.mpr hbig)

/-- **A request is refused only when there is no room for it anywhere** — with the link and the
alignment, in one piece, between the blocks that have been handed out. -/
theorem malloc_complete (w : UInt32) :
    ∃ h pv, pvPortMalloc cfg (after cfg mem actions).heap w.toNat = some (h, pv)
      ∧ (pv ≠ 0 ↔ 0 < w.toNat ∧ w.toNat < 2 ^ 31
        ∧ Room cfg (after cfg mem actions) (adjustedSize w.toNat)) := by
  have hinv := (run_inv cfg mem actions).1
  obtain ⟨fs, owners, hr, hlive⟩ := hinv.opened
  obtain ⟨h', pv, hcall, hiff⟩ := hr.malloc_iff w
  refine ⟨h', pv, by rw [pvPortMalloc_opened, hcall], hiff.trans ?_⟩
  refine and_congr_right fun hpos => and_congr_right fun hlt => ?_
  rw [← hr.room_iff (adjustedSize_bounds hpos hlt).2.2, ← hlive]
  obtain ⟨-, -, hnil⟩ | ⟨fs', owners', hr', -⟩ := hinv
  · simp [Room, hnil]
  · rw [opened_of_ready hr']

/-- **No byte is lost**: the free bytes and the blocks handed out are the whole heap, and when all
is given back the heap is one free block again. -/
theorem freeBytes_accounted :
    (after cfg mem actions).heap.pxEnd = 0 ∧ (after cfg mem actions).live = []
      ∨ (after cfg mem actions).heap.xFreeBytesRemaining
          + total ((after cfg mem actions).live.map (blockOf (after cfg mem actions).heap))
            = endAddress cfg - alignedHeap cfg
        ∧ ((after cfg mem actions).live = [] →
          LSeg (after cfg mem actions).heap (endAddress cfg)
            ((after cfg mem actions).heap.next cfg.xStart) [wholeHeap cfg]) := by
  obtain ⟨hend, -, hnil⟩ | ⟨fs, owners, hr, hlive⟩ := (run_inv cfg mem actions).1
  · exact .inl ⟨hend, hnil⟩
  refine .inr ⟨?_, fun hnil => ?_⟩
  · rw [hlive, hr.map_blockOf, hr.free]
    exact hr.bytes
  · rw [hlive, List.map_eq_nil_iff] at hnil
    subst hnil
    have hend := endAddress_bounds cfg
    have hwhole : fs = [wholeHeap cfg] := by
      refine eq_singleton_of_run hr.linked.separated (Nat.sub_pos_of_lt hend.2.1)
        (fun y hle hlt => ?_) fun b hb => ?_
      · exact (hr.covered y hle (by omega)).resolve_right covered_nil
      · have hin := hr.linked.within b hb
        exact ⟨hin.aligned_le, by have := hin.stop_le; omega⟩
    exact hwhole ▸ hr.linked.list

/-- The numbers of free bytes there were after the calls since the first request. -/
def freeSoFar : Set ℕ :=
  {n | ∃ k, (after cfg mem (actions.take k)).heap.pxEnd ≠ 0
    ∧ (after cfg mem (actions.take k)).heap.xFreeBytesRemaining = n}

theorem mem_freeSoFar_concat (a : Action) (n : ℕ) :
    n ∈ freeSoFar cfg mem (actions ++ [a]) ↔ n ∈ freeSoFar cfg mem actions
      ∨ (after cfg mem (actions ++ [a])).heap.pxEnd ≠ 0
        ∧ (after cfg mem (actions ++ [a])).heap.xFreeBytesRemaining = n :=
  exists_take_concat (P := fun as => (after cfg mem as).heap.pxEnd ≠ 0
    ∧ (after cfg mem as).heap.xFreeBytesRemaining = n) actions a

/-- **`xMinimumEverFreeBytesRemaining` is the least number of free bytes there ever was**, from the
first request on. -/
theorem minimumEver_least :
    (after cfg mem actions).heap.pxEnd = 0 ∧ freeSoFar cfg mem actions = ∅
      ∨ (after cfg mem actions).heap.pxEnd ≠ 0 ∧ IsLeast (freeSoFar cfg mem actions)
        (after cfg mem actions).heap.xMinimumEverFreeBytesRemaining := by
  induction actions using List.reverseRecOn with
  | nil =>
    refine .inl ⟨rfl, Set.eq_empty_of_forall_notMem ?_⟩
    rintro n ⟨k, hk, -⟩
    rw [List.take_nil] at hk
    exact hk rfl
  | append_singleton actions a ih =>
    have hlowered := (stepped (run_inv cfg mem actions).1 a).lowered
    rw [← after_concat] at hlowered
    have hnow : (after cfg mem actions).heap.pxEnd ≠ 0 →
        (after cfg mem actions).heap.xFreeBytesRemaining ∈ freeSoFar cfg mem actions :=
      fun hne => ⟨actions.length, by rwa [List.take_length], by rw [List.take_length]⟩
    obtain ⟨hzero, hzero'⟩ | ⟨hzero, hne', hmin⟩ | ⟨hne, hne', hmin⟩ := hlowered
    · refine .inl ⟨hzero', Set.eq_empty_of_forall_notMem fun n hn => ?_⟩
      obtain ⟨-, hempty⟩ | ⟨hne, -⟩ := ih
      · obtain hn | ⟨hne, -⟩ := (mem_freeSoFar_concat cfg mem actions a n).mp hn
        · exact Set.notMem_empty n (hempty ▸ hn)
        · exact hne hzero'
      · exact hne hzero
    · obtain ⟨-, hempty⟩ | ⟨hne, -⟩ := ih
      · refine .inr ⟨hne', (mem_freeSoFar_concat cfg mem actions a _).mpr (.inr ⟨hne', hmin.symm⟩),
          fun n hn => ?_⟩
        obtain hn | ⟨-, hn⟩ := (mem_freeSoFar_concat cfg mem actions a n).mp hn
        · exact absurd (hempty ▸ hn) (Set.notMem_empty n)
        · exact (hmin.trans hn).le
      · exact absurd hzero hne
    · obtain ⟨hzero, -⟩ | ⟨-, hmem, hlower⟩ := ih
      · exact absurd hzero hne
      refine .inr ⟨hne', (mem_freeSoFar_concat cfg mem actions a _).mpr ?_, fun n hn => ?_⟩
      · obtain hmin | ⟨hmin, -⟩ := hmin
        · obtain heq | heq := min_choice
            (after cfg mem actions).heap.xMinimumEverFreeBytesRemaining
            (after cfg mem (actions ++ [a])).heap.xFreeBytesRemaining
          · exact .inl (by rwa [hmin, heq])
          · exact .inr ⟨hne', by rw [hmin, heq]⟩
        · exact .inl (by rwa [hmin])
      · have hle : (after cfg mem (actions ++ [a])).heap.xMinimumEverFreeBytesRemaining
            ≤ (after cfg mem actions).heap.xMinimumEverFreeBytesRemaining := by
          obtain hmin | ⟨hmin, -⟩ := hmin
          · exact hmin ▸ min_le_left _ _
          · exact hmin.le
        obtain hn | ⟨-, rfl⟩ := (mem_freeSoFar_concat cfg mem actions a n).mp hn
        · exact hle.trans (hlower hn)
        · obtain hmin | ⟨hmin, hfree⟩ := hmin
          · exact hmin ▸ min_le_right _ _
          · exact hmin ▸ (hlower (hnow hne)).trans hfree

/-- **`vPortGetHeapStats` tells the truth about the free list, except when nothing is free**, where
it runs off the list; and the largest block it tells of is what decides on a request. -/
theorem heapStats_exact :
    (vPortGetHeapStats cfg (after cfg mem actions).heap = none
      ↔ (after cfg mem actions).heap.pxEnd ≠ 0
        ∧ (after cfg mem actions).heap.xFreeBytesRemaining = 0)
      ∧ ∀ st, vPortGetHeapStats cfg (after cfg mem actions).heap = some st →
        (after cfg mem actions).heap.pxEnd = 0
          ∨ ∃ fs, Linked cfg (after cfg mem actions).heap fs
            ∧ st.xNumberOfFreeBlocks = fs.length ∧ st.xAvailableHeapSpaceInBytes = total fs
            ∧ IsGreatest {n | ∃ b ∈ fs, b.size = n} st.xSizeOfLargestFreeBlockInBytes
            ∧ IsLeast {n | ∃ b ∈ fs, b.size = n} st.xSizeOfSmallestFreeBlockInBytes
            ∧ ∀ w : UInt32, ∃ h pv,
              pvPortMalloc cfg (after cfg mem actions).heap w.toNat = some (h, pv)
                ∧ (pv ≠ 0 ↔ 0 < w.toNat ∧ w.toNat < 2 ^ 31
                  ∧ adjustedSize w.toNat ≤ st.xSizeOfLargestFreeBlockInBytes) := by
  obtain ⟨hend, hstart, -⟩ | ⟨fs, owners, hr, -⟩ := (run_inv cfg mem actions).1
  · refine ⟨iff_of_false ?_ fun hne => hne.1 hend, fun _ _ => .inl hend⟩
    simp [vPortGetHeapStats, hstart]
  generalize (after cfg mem actions).heap = h at hr ⊢
  have hl := hr.linked
  cases fs with
  | nil =>
    have hnone := vPortGetHeapStats_nil hl
    refine ⟨iff_of_true hnone ⟨hr.pxEnd_ne, hr.free⟩, fun st hst => ?_⟩
    rw [hnone] at hst
    exact absurd hst (by simp)
  | cons b bs =>
    have hb := hl.within b List.mem_cons_self
    have hfirst : h.next cfg.xStart = b.addr := hl.list.1
    have hlength := length_lt_turns hl.separated hl.within
    have hcount := countBlocks_eq (c := ⟨0, 0, 0xFFFFFFFF⟩) (n := turns cfg)
      (hl.pxEnd ▸ hl.list)
      (fun d hd => ⟨(hl.within d hd).ne_null, hl.pxEnd ▸ (hl.within d hd).ne_end⟩)
      (by rw [List.length_cons] at hlength; omega)
    obtain ⟨hblocks, ⟨hmax, -, hmaxmem⟩, hmin, -, hminmem⟩ :=
      counted_spec ⟨0, 0, 0xFFFFFFFF⟩ (b :: bs)
    have hstats : vPortGetHeapStats cfg h = some
        { xAvailableHeapSpaceInBytes := h.xFreeBytesRemaining
          xSizeOfLargestFreeBlockInBytes := (counted ⟨0, 0, 0xFFFFFFFF⟩ (b :: bs)).xMaxSize
          xSizeOfSmallestFreeBlockInBytes := (counted ⟨0, 0, 0xFFFFFFFF⟩ (b :: bs)).xMinSize
          xNumberOfFreeBlocks := (counted ⟨0, 0, 0xFFFFFFFF⟩ (b :: bs)).xBlocks
          xMinimumEverFreeBytesRemaining := h.xMinimumEverFreeBytesRemaining
          xNumberOfSuccessfulAllocations := h.xNumberOfSuccessfulAllocations
          xNumberOfSuccessfulFrees := h.xNumberOfSuccessfulFrees } := by
      simp only [vPortGetHeapStats, hcount, if_pos (hfirst ▸ hb.ne_null), Option.map_some]
    generalize hc : counted ⟨0, 0, 0xFFFFFFFF⟩ (b :: bs) = c at *
    have hpos : ∀ d ∈ b :: bs, 0 < d.size ∧ d.size < 0xFFFFFFFF := by
      intro d hd
      have hin := hl.within d hd
      have hstop := hin.stop_le
      have hend := endAddress_bounds cfg
      have hheap := cfg.heap_le
      rw [stop] at hstop
      exact ⟨hin.pos, by omega⟩
    have hlargest : ∃ d ∈ b :: bs, d.size = c.xMaxSize := by
      refine hmaxmem.resolve_left fun (hzero : c.xMaxSize = 0) => ?_
      have := hmax b List.mem_cons_self
      have := hpos b List.mem_cons_self
      omega
    have hsmallest : ∃ d ∈ b :: bs, d.size = c.xMinSize := by
      refine hminmem.resolve_left fun (hall : c.xMinSize = 0xFFFFFFFF) => ?_
      have := hmin b List.mem_cons_self
      have := hpos b List.mem_cons_self
      omega
    refine ⟨iff_of_false (by simp [hstats]) fun hzero => ?_, fun st hst => .inr ⟨b :: bs, hl, ?_⟩⟩
    · have := hr.free ▸ hzero.2
      have := hpos b List.mem_cons_self
      rw [total_cons] at *
      omega
    · rw [hstats, Option.some.injEq] at hst
      subst hst
      refine ⟨by rw [hblocks, Nat.zero_add], hr.free, ⟨hlargest, ?_⟩, ⟨hsmallest, ?_⟩, fun w => ?_⟩
      · rintro n ⟨d, hd, rfl⟩
        exact hmax d hd
      · rintro n ⟨d, hd, rfl⟩
        exact hmin d hd
      · obtain ⟨h', pv, hcall, hiff⟩ := hr.malloc_iff w
        refine ⟨h', pv, hcall, hiff.trans (and_congr_right fun _ => and_congr_right fun _ => ?_)⟩
        constructor
        · rintro ⟨d, hd, hle⟩
          exact hle.trans (hmax d hd)
        · intro hle
          obtain ⟨d, hd, hsize⟩ := hlargest
          exact ⟨d, hd, hsize.symm ▸ hle⟩

end Runs

end Heap4

end EmbeddedMCU

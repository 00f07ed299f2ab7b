import Mathlib.Data.List.Basic
import Mathlib.Order.Nat
import Mathlib.Tactic.Common

/-!
# Machinery/Blocks — blocks of an address space, and the maximal ones

    ┌────┐     ┌──┬─────┐        ┌────┐     ┌────────┐
    │    │     │  │     │   ──▸  │    │     │        │       coalesce: touching blocks are one
    └────┘     └──┴─────┘        └────┘     └────────┘

A list of blocks in the order of their addresses, no two touching, has its addresses in as few
blocks as can be (`Separated`): any run of addresses it has lies in one of them
(`exists_block_of_run`).  `coalesce` makes such a list of one whose blocks may touch, and loses
neither an address nor a byte.
-/

namespace EmbeddedMCU

/-- `size` addresses from `addr` on. -/
structure Block where
  addr : ℕ
  size : ℕ
  deriving DecidableEq

namespace Block

variable {a b c : Block} {x : ℕ}

/-- The address behind a block. -/
def stop (b : Block) : ℕ := b.addr + b.size

/-- The block has the address. -/
def Has (b : Block) (x : ℕ) : Prop := b.addr ≤ x ∧ x < b.stop

/-- The blocks have no address in common. -/
def Apart (a b : Block) : Prop := a.stop ≤ b.addr ∨ b.stop ≤ a.addr

theorem Apart.symm (h : Apart a b) : Apart b a := Or.symm h

/-- What is within a block is apart from what the block is apart from. -/
theorem Apart.mono (h : Apart a b) (haddr : a.addr ≤ c.addr) (hstop : c.stop ≤ a.stop) :
    Apart c b :=
  h.imp (Nat.le_trans hstop) fun hle => Nat.le_trans hle haddr

/-- Touching blocks that are apart from a third are apart from it as one. -/
theorem Apart.join (ha : Apart a c) (hb : Apart b c) (hpos : 0 < c.size)
    (htouch : a.stop = b.addr) : Apart ⟨a.addr, a.size + b.size⟩ c := by
  simp only [Apart, stop] at *
  omega

end Block

open Block

/-! ## Lists of blocks -/

/-- In the order of the addresses, and not empty; blocks may touch. -/
structure Ordered (bs : List Block) : Prop where
  sorted : bs.Pairwise fun a b => a.stop ≤ b.addr
  pos : ∀ b ∈ bs, 0 < b.size

/-- In the order of the addresses, not empty, and not touching. -/
structure Separated (bs : List Block) : Prop where
  sorted : bs.Pairwise fun a b => a.stop < b.addr
  pos : ∀ b ∈ bs, 0 < b.size

/-- One of the blocks has the address. -/
def Covered (bs : List Block) (x : ℕ) : Prop := ∃ b ∈ bs, b.Has x

/-- The bytes of all blocks. -/
def total : List Block → ℕ
  | [] => 0
  | b :: bs => b.size + total bs

section Lists

variable {bs lo hi : List Block} {a b c : Block} {x : ℕ}

theorem Separated.ordered (h : Separated bs) : Ordered bs :=
  ⟨h.sorted.imp Nat.le_of_lt, h.pos⟩

theorem separated_nil : Separated [] := ⟨List.Pairwise.nil, by simp⟩

theorem separated_cons :
    Separated (b :: bs) ↔ (∀ c ∈ bs, b.stop < c.addr) ∧ 0 < b.size ∧ Separated bs := by
  constructor
  · intro h
    obtain ⟨hb, hbs⟩ := List.pairwise_cons.mp h.sorted
    exact ⟨hb, h.pos b List.mem_cons_self, hbs, fun c hc => h.pos c (List.mem_cons_of_mem _ hc)⟩
  · rintro ⟨hb, hpos, hbs⟩
    exact ⟨List.pairwise_cons.mpr ⟨hb, hbs.sorted⟩, List.forall_mem_cons.mpr ⟨hpos, hbs.pos⟩⟩

theorem ordered_cons :
    Ordered (b :: bs) ↔ (∀ c ∈ bs, b.stop ≤ c.addr) ∧ 0 < b.size ∧ Ordered bs := by
  constructor
  · intro h
    obtain ⟨hb, hbs⟩ := List.pairwise_cons.mp h.sorted
    exact ⟨hb, h.pos b List.mem_cons_self, hbs, fun c hc => h.pos c (List.mem_cons_of_mem _ hc)⟩
  · rintro ⟨hb, hpos, hbs⟩
    exact ⟨List.pairwise_cons.mpr ⟨hb, hbs.sorted⟩, List.forall_mem_cons.mpr ⟨hpos, hbs.pos⟩⟩

theorem separated_append :
    Separated (lo ++ hi)
      ↔ Separated lo ∧ Separated hi ∧ ∀ a ∈ lo, ∀ b ∈ hi, a.stop < b.addr := by
  constructor
  · intro h
    obtain ⟨hlo, hhi, hlt⟩ := List.pairwise_append.mp h.sorted
    exact ⟨⟨hlo, fun b hb => h.pos b (List.mem_append_left _ hb)⟩,
      ⟨hhi, fun b hb => h.pos b (List.mem_append_right _ hb)⟩, hlt⟩
  · rintro ⟨hlo, hhi, hlt⟩
    refine ⟨List.pairwise_append.mpr ⟨hlo.sorted, hhi.sorted, hlt⟩, fun b hb => ?_⟩
    exact (List.mem_append.mp hb).elim (hlo.pos b) (hhi.pos b)

theorem covered_nil : ¬ Covered [] x := by simp [Covered]

theorem covered_cons : Covered (b :: bs) x ↔ b.Has x ∨ Covered bs x := by
  simp [Covered]

theorem covered_append : Covered (lo ++ hi) x ↔ Covered lo x ∨ Covered hi x := by
  simp [Covered, or_and_right, exists_or]

@[simp] theorem total_nil : total [] = 0 := rfl

@[simp] theorem total_cons : total (b :: bs) = b.size + total bs := rfl

@[simp] theorem total_append : total (lo ++ hi) = total lo + total hi := by
  induction lo with
  | nil => rw [List.nil_append, total_nil, Nat.zero_add]
  | cons b lo ih => rw [List.cons_append, total_cons, total_cons, ih, Nat.add_assoc]

theorem size_le_total (hb : b ∈ bs) : b.size ≤ total bs := by
  obtain ⟨lo, hi, rfl⟩ := List.append_of_mem hb
  rw [total_append, total_cons]
  omega

/-- Two blocks of a separated list do not touch. -/
theorem Separated.stop_lt_or (h : Separated bs) (hb : b ∈ bs) (hc : c ∈ bs) (hne : b ≠ c) :
    b.stop < c.addr ∨ c.stop < b.addr := by
  induction bs with
  | nil => exact absurd hb List.not_mem_nil
  | cons d bs ih =>
    obtain ⟨hd, -, hbs⟩ := separated_cons.mp h
    obtain rfl | hb' := List.mem_cons.mp hb
    · exact .inl (hd c ((List.mem_cons.mp hc).resolve_left (Ne.symm hne)))
    · obtain rfl | hc' := List.mem_cons.mp hc
      · exact .inr (hd b hb')
      · exact ih hbs hb' hc'

/-- **A block that is apart from the others has its place among them.** -/
theorem exists_place (h : Separated bs) (hapart : ∀ a ∈ bs, Apart a b) :
    ∃ lo hi, bs = lo ++ hi ∧ (∀ a ∈ lo, a.stop ≤ b.addr) ∧ ∀ c ∈ hi, b.stop ≤ c.addr := by
  induction bs with
  | nil => exact ⟨[], [], rfl, by simp, by simp⟩
  | cons d bs ih =>
    obtain ⟨hd, hdpos, hbs⟩ := separated_cons.mp h
    obtain ⟨hdb, hrest⟩ := List.forall_mem_cons.mp hapart
    obtain hbefore | hbehind := hdb
    · obtain ⟨lo, hi, rfl, hlo, hhi⟩ := ih hbs hrest
      exact ⟨d :: lo, hi, rfl, List.forall_mem_cons.mpr ⟨hbefore, hlo⟩, hhi⟩
    · refine ⟨[], d :: bs, rfl, by simp, List.forall_mem_cons.mpr ⟨hbehind, fun c hc => ?_⟩⟩
      have := hd c hc
      simp only [stop] at *
      omega

/-- Of blocks that are apart, one has no address of the other. -/
theorem Block.Apart.not_has (h : Apart a b) (hx : a.Has x) : ¬ b.Has x := by
  simp only [Apart, Has, stop] at *
  omega

/-- **A run of addresses lies in one block**, when no two blocks touch. -/
theorem exists_block_of_run (h : Separated bs) {x n : ℕ} (hn : 0 < n)
    (hrun : ∀ y, x ≤ y → y < x + n → Covered bs y) : ∃ b ∈ bs, b.addr ≤ x ∧ x + n ≤ b.stop := by
  obtain ⟨b, hb, hbx, hxb⟩ := hrun x le_rfl (Nat.lt_add_of_pos_right hn)
  refine ⟨b, hb, hbx, ?_⟩
  by_contra hlt
  obtain ⟨c, hc, hcb, hbc⟩ := hrun b.stop hxb.le (not_le.mp hlt)
  have hne : b ≠ c := by
    rintro rfl
    exact lt_irrefl _ hbc
  obtain hless | hless := h.stop_lt_or hb hc hne
  · omega
  · simp only [stop] at *
    omega

/-- **Blocks that do not touch are one, when they have a whole range** and nothing else. -/
theorem eq_singleton_of_run (h : Separated bs) {x n : ℕ} (hn : 0 < n)
    (hrun : ∀ y, x ≤ y → y < x + n → Covered bs y)
    (hwithin : ∀ b ∈ bs, x ≤ b.addr ∧ b.stop ≤ x + n) : bs = [⟨x, n⟩] := by
  obtain ⟨b, hb, haddr, hstop⟩ := exists_block_of_run h hn hrun
  obtain ⟨hle, hge⟩ := hwithin b hb
  have hbx : b = ⟨x, n⟩ := by
    obtain ⟨addr, size⟩ := b
    simp only [stop, Block.mk.injEq] at *
    omega
  have hall : ∀ c ∈ bs, c = b := by
    intro c hc
    by_contra hne
    have := hwithin c hc
    have hpos := h.pos c hc
    obtain hless | hless := h.stop_lt_or hb hc (Ne.symm hne)
    · simp only [stop] at *
      omega
    · simp only [stop] at *
      omega
  obtain ⟨lo, hi, rfl⟩ := List.append_of_mem hb
  obtain ⟨hlo, hhi, hlt⟩ := separated_append.mp h
  have hempty : ∀ c ∈ lo, False := by
    intro c hc
    have hcb := hall c (List.mem_append_left _ hc)
    have := hlt c hc b List.mem_cons_self
    rw [hcb, stop] at this
    omega
  have hempty' : ∀ c ∈ hi, False := by
    intro c hc
    have hcb := hall c (List.mem_append_right _ (List.mem_cons_of_mem _ hc))
    have := (separated_cons.mp hhi).1 c hc
    rw [hcb, stop] at this
    omega
  rw [List.eq_nil_iff_forall_not_mem.mpr hempty, List.eq_nil_iff_forall_not_mem.mpr hempty', hbx]
  rfl

end Lists

/-! ## Coalescing -/

/-- A block put before a list, as one with the first when they touch. -/
def join (b : Block) : List Block → List Block
  | [] => [b]
  | c :: cs => if b.stop = c.addr then ⟨b.addr, b.size + c.size⟩ :: cs else b :: c :: cs

/-- Touching blocks made one. -/
def coalesce (bs : List Block) : List Block := bs.foldr join []

section Coalesce

variable {bs lo hi : List Block} {b c : Block} {x : ℕ}

theorem join_eq_cons (h : ∀ c ∈ bs, b.stop < c.addr) : join b bs = b :: bs := by
  cases bs with
  | nil => rfl
  | cons c cs => exact if_neg (h c List.mem_cons_self).ne

theorem covered_join : Covered (join b bs) x ↔ b.Has x ∨ Covered bs x := by
  cases bs with
  | nil => rw [join, covered_cons]
  | cons c cs =>
    rw [join]
    split_ifs with htouch
    · have hone : Block.Has ⟨b.addr, b.size + c.size⟩ x ↔ b.Has x ∨ c.Has x := by
        simp only [Has, stop] at *
        omega
      rw [covered_cons, covered_cons, hone, or_assoc]
    · rw [covered_cons]

theorem total_join : total (join b bs) = b.size + total bs := by
  cases bs with
  | nil => rw [join, total_cons]
  | cons c cs =>
    rw [join]
    split_ifs
    · rw [total_cons, total_cons, Nat.add_assoc]
    · rw [total_cons]

/-- A block put before a list begins at its own address. -/
theorem addr_le_of_mem_join (h : ∀ d ∈ bs, b.stop ≤ d.addr) (hc : c ∈ join b bs) :
    b.addr ≤ c.addr := by
  have hlater : ∀ d ∈ bs, b.addr ≤ d.addr := fun d hd =>
    (Nat.le_add_right _ _).trans (h d hd)
  cases bs with
  | nil =>
    rw [List.mem_singleton.mp hc]
  | cons d ds =>
    rw [join] at hc
    split_ifs at hc
    · obtain rfl | hc := List.mem_cons.mp hc
      · exact le_rfl
      · exact hlater c (List.mem_cons_of_mem _ hc)
    · obtain rfl | hc := List.mem_cons.mp hc
      · exact le_rfl
      · exact hlater c hc

theorem separated_join (hb : ∀ c ∈ bs, b.stop ≤ c.addr) (hpos : 0 < b.size) (h : Separated bs) :
    Separated (join b bs) := by
  cases bs with
  | nil => exact separated_cons.mpr ⟨by simp, hpos, h⟩
  | cons c cs =>
    obtain ⟨hc, hcpos, hcs⟩ := separated_cons.mp h
    rw [join]
    split_ifs with htouch
    · refine separated_cons.mpr ⟨fun d hd => ?_, by simp only; omega, hcs⟩
      have := hc d hd
      simp only [stop] at *
      omega
    · refine separated_cons.mpr ⟨fun d hd => ?_, hpos, h⟩
      have hbc := lt_of_le_of_ne (hb c List.mem_cons_self) htouch
      obtain rfl | hd := List.mem_cons.mp hd
      · exact hbc
      · have := hc d hd
        simp only [stop] at *
        omega

/-- **Coalescing loses no address**, -/
theorem covered_coalesce : Covered (coalesce bs) x ↔ Covered bs x := by
  induction bs with
  | nil => rfl
  | cons b bs ih =>
    rw [coalesce, List.foldr_cons, covered_join, covered_cons]
    exact or_congr_right ih

/-- …no byte, -/
theorem total_coalesce : total (coalesce bs) = total bs := by
  induction bs with
  | nil => rfl
  | cons b bs ih =>
    rw [coalesce, List.foldr_cons, total_join, total_cons]
    exact congrArg _ ih

/-- …and leaves no two blocks touching. -/
theorem separated_coalesce (h : Ordered bs) : Separated (coalesce bs) := by
  induction bs with
  | nil => exact separated_nil
  | cons b bs ih =>
    obtain ⟨hb, hpos, hbs⟩ := ordered_cons.mp h
    refine separated_join (fun c hc => ?_) hpos (ih hbs)
    have hcpos := (ih hbs).pos c hc
    obtain ⟨d, hd, hdc⟩ := covered_coalesce.mp ⟨c, hc, le_rfl, Nat.lt_add_of_pos_right hcpos⟩
    exact (hb d hd).trans hdc.1

/-- Where no two blocks touch there is nothing to do. -/
theorem coalesce_of_separated (h : Separated bs) : coalesce bs = bs := by
  induction bs with
  | nil => rfl
  | cons b bs ih =>
    obtain ⟨hb, -, hbs⟩ := separated_cons.mp h
    have hrest : bs.foldr join [] = bs := ih hbs
    rw [coalesce, List.foldr_cons, hrest, join_eq_cons hb]

/-- What holds of blocks, and of two that touch as one, holds of coalesced blocks. -/
theorem forall_mem_coalesce {P : Block → Prop}
    (hjoin : ∀ a b, P a → P b → a.stop = b.addr → P ⟨a.addr, a.size + b.size⟩)
    (h : ∀ b ∈ bs, P b) : ∀ c ∈ coalesce bs, P c := by
  induction bs with
  | nil => exact fun c hc => absurd hc List.not_mem_nil
  | cons b bs ih =>
    obtain ⟨hb, hbs⟩ := List.forall_mem_cons.mp h
    have hrest := ih hbs
    rw [coalesce, List.foldr_cons, ← coalesce]
    cases hlist : coalesce bs with
    | nil => simpa [join] using hb
    | cons c cs =>
      rw [hlist] at hrest
      obtain ⟨hc, hcs⟩ := List.forall_mem_cons.mp hrest
      rw [join]
      split_ifs with htouch
      · exact List.forall_mem_cons.mpr ⟨hjoin b c hb hc htouch, hcs⟩
      · exact List.forall_mem_cons.mpr ⟨hb, hrest⟩

theorem ordered_insert (hlo : Separated lo) (hhi : Separated hi) (hpos : 0 < b.size)
    (hlob : ∀ a ∈ lo, a.stop ≤ b.addr) (hbhi : ∀ c ∈ hi, b.stop ≤ c.addr) :
    Ordered (lo ++ b :: hi) := by
  have hb : b.addr ≤ b.stop := Nat.le_add_right _ _
  refine ⟨List.pairwise_append.mpr ⟨hlo.ordered.sorted,
    List.pairwise_cons.mpr ⟨hbhi, hhi.ordered.sorted⟩, fun a ha c hc => ?_⟩, fun c hc => ?_⟩
  · obtain rfl | hc := List.mem_cons.mp hc
    · exact hlob a ha
    · exact (hlob a ha).trans (hb.trans (hbhi c hc))
  · obtain hc | hc := List.mem_append.mp hc
    · exact hlo.pos c hc
    · obtain rfl | hc := List.mem_cons.mp hc
      · exact hpos
      · exact hhi.pos c hc

/-- **What does not touch what is behind it stays as it is.** -/
theorem coalesce_append (hlo : Separated lo)
    (hlt : ∀ a ∈ lo, ∀ c ∈ coalesce hi, a.stop < c.addr) :
    coalesce (lo ++ hi) = lo ++ coalesce hi := by
  induction lo with
  | nil => rfl
  | cons a lo ih =>
    obtain ⟨ha, -, hlo'⟩ := separated_cons.mp hlo
    have hrest : (lo ++ hi).foldr join [] = lo ++ coalesce hi :=
      ih hlo' fun d hd => hlt d (List.mem_cons_of_mem _ hd)
    rw [List.cons_append, coalesce, List.foldr_cons, hrest, join_eq_cons, List.cons_append]
    intro c hc
    obtain hc | hc := List.mem_append.mp hc
    · exact ha c hc
    · exact hlt a List.mem_cons_self c hc

theorem coalesce_cons (h : Separated bs) : coalesce (b :: bs) = join b bs := by
  rw [coalesce, List.foldr_cons, ← coalesce, coalesce_of_separated h]

/-- Blocks put before a list that touch are put before it as one. -/
theorem join_join (htouch : c.stop = b.addr) :
    join c (join b bs) = join ⟨c.addr, c.size + b.size⟩ bs := by
  have hstop : (Block.mk c.addr (c.size + b.size)).stop = b.stop := by
    simp only [stop] at *
    omega
  cases bs with
  | nil => exact if_pos htouch
  | cons d ds =>
    rw [join, join, hstop]
    split_ifs
    · rw [join, if_pos htouch, Nat.add_assoc]
    · rw [join, if_pos htouch]

theorem join_join_of_ne (htouch : c.stop ≠ b.addr) : join c (join b bs) = c :: join b bs := by
  cases bs with
  | nil => exact if_neg htouch
  | cons d ds =>
    rw [join]
    split_ifs
    · exact if_neg htouch
    · exact if_neg htouch

/-- **Only the neighbours of a block that is put in are touched.** -/
theorem coalesce_insert {l : Block} (hlo : Separated (lo ++ [l])) (hhi : Separated hi)
    (hl : l.stop ≤ b.addr) (hb : ∀ c ∈ hi, b.stop ≤ c.addr) :
    coalesce (lo ++ l :: b :: hi) = lo ++ join l (join b hi) := by
  obtain ⟨hlo', -, hlt⟩ := separated_append.mp hlo
  have hrest : coalesce (l :: b :: hi) = join l (join b hi) := by
    rw [coalesce, List.foldr_cons, ← coalesce, coalesce_cons hhi]
  rw [coalesce_append hlo', hrest]
  intro a ha c hc
  rw [hrest] at hc
  have hlc : l.addr ≤ c.addr := addr_le_of_mem_join
    (fun d hd => hl.trans (addr_le_of_mem_join hb hd)) hc
  exact (hlt a ha l (List.mem_singleton.mpr rfl)).trans_le hlc

/-- Blocks within a range have no more bytes than it. -/
theorem total_le_of_within {m n : ℕ} (h : Ordered bs)
    (hwithin : ∀ b ∈ bs, m ≤ b.addr ∧ b.stop ≤ n) (hmn : m ≤ n) : total bs ≤ n - m := by
  induction bs generalizing m with
  | nil => exact Nat.zero_le _
  | cons b bs ih =>
    obtain ⟨hb, -, hbs⟩ := ordered_cons.mp h
    obtain ⟨hm, hn⟩ := hwithin b List.mem_cons_self
    have hrest := ih hbs (fun c hc => ⟨hb c hc, (hwithin c (List.mem_cons_of_mem _ hc)).2⟩) hn
    rw [total_cons]
    simp only [stop] at *
    omega

/-- There are no more blocks than bytes. -/
theorem length_le_total (h : ∀ b ∈ bs, 0 < b.size) : bs.length ≤ total bs := by
  induction bs with
  | nil => exact Nat.zero_le _
  | cons b bs ih =>
    have hb := h b List.mem_cons_self
    have hrest := ih fun c hc => h c (List.mem_cons_of_mem _ hc)
    rw [List.length_cons, total_cons]
    omega

end Coalesce

end EmbeddedMCU

import Mathlib.Data.List.Forall2
import Mathlib.Data.List.Nodup
import Mathlib.Data.List.Range
import Mathlib.Data.Nat.ModEq
import Mathlib.Logic.Function.Basic
import Mathlib.Tactic.Common

/-!
# Machinery/Ring — a window of a stream, in a ring of `L` cells

    stream   … · R ─────── W · · · R+L …        cell of i:  i % L
                 └ window ┘└ free ┘

The `i`-th value of a stream lies in the cell `i % L`.  Two positions less than a turn apart have
different cells (`mod_ne_mod`), so what is written past the window leaves the window alone
(`window_update`), and the two indices of the ring give the length of the window back
(`ringDistance_eq`, `ringSpace_eq`).

A block that passes the end of the ring is copied in two pieces (`ringCells_eq`), and the moves of a
copy may be made in any order (`Copying`).
-/

namespace EmbeddedMCU

variable {α : Type*} {L : ℕ}

/-! ## Indices -/

/-- The index `n` cells on, as it is computed without a division. -/
def ringNext (L index n : ℕ) : ℕ := if index + n ≥ L then index + n - L else index + n

theorem ringNext_eq {i n : ℕ} (hn : n < L) : ringNext L (i % L) n = (i + n) % L := by
  have hadd := Nat.add_mod_add_ite i n L
  rw [Nat.mod_eq_of_lt hn] at hadd
  rw [ringNext]
  split_ifs at hadd ⊢ with hwrap
  · omega
  · omega

/-- **Positions less than a turn apart have different cells.** -/
theorem mod_ne_mod {i j : ℕ} (hij : i < j) (hj : j < i + L) : i % L ≠ j % L := by
  intro h
  obtain ⟨d, rfl⟩ := Nat.exists_eq_add_of_le hij.le
  have hadd := Nat.add_mod_add_ite i d L
  have hi := Nat.mod_lt i (show 0 < L by omega)
  rw [Nat.mod_eq_of_lt (show d < L by omega)] at hadd
  split_ifs at hadd
  · omega
  · omega

/-- How far on from `src` the index `dst` is, as it is computed without a division. -/
def ringDistance (L src dst : ℕ) : ℕ :=
  if L + dst - src ≥ L then L + dst - src - L else L + dst - src

/-- **The indices give the length of the window back.** -/
theorem ringDistance_eq {R W : ℕ} (hRW : R ≤ W) (hW : W < R + L) :
    ringDistance L (R % L) (W % L) = W - R := by
  obtain ⟨d, rfl⟩ := Nat.exists_eq_add_of_le hRW
  have hadd := Nat.add_mod_add_ite R d L
  have hR := Nat.mod_lt R (show 0 < L by omega)
  rw [Nat.mod_eq_of_lt (show d < L by omega)] at hadd
  rw [ringDistance]
  split_ifs at hadd ⊢ with hwrap hdist hdist
  all_goals omega

/-- The free cells from `head` up to the one before `tail`, as they are counted without a
division. -/
def ringSpace (L tail head : ℕ) : ℕ :=
  if L + tail - head - 1 ≥ L then L + tail - head - 1 - L else L + tail - head - 1

/-- **The indices give the free cells back**, less the one that tells a full ring from an empty
one. -/
theorem ringSpace_eq {R W : ℕ} (hRW : R ≤ W) (hW : W < R + L) :
    ringSpace L (R % L) (W % L) = L - 1 - (W - R) := by
  obtain ⟨d, rfl⟩ := Nat.exists_eq_add_of_le hRW
  have hadd := Nat.add_mod_add_ite R d L
  have hR := Nat.mod_lt R (show 0 < L by omega)
  rw [Nat.mod_eq_of_lt (show d < L by omega)] at hadd
  rw [ringSpace]
  split_ifs at hadd ⊢ with hwrap hspace hspace
  all_goals omega

/-! ## Cells -/

/-- The cells of `n` values of the stream, from the `i`-th on. -/
def cells (L i n : ℕ) : List ℕ := (List.range n).map fun k => (i + k) % L

@[simp] theorem length_cells (i n : ℕ) : (cells L i n).length = n := by simp [cells]

theorem cells_add (i m n : ℕ) : cells L i (m + n) = cells L i m ++ cells L (i + m) n := by
  simp [cells, List.range_add, Nat.add_assoc, Function.comp_def]

theorem mem_cells {i n cell : ℕ} : cell ∈ cells L i n ↔ ∃ k < n, (i + k) % L = cell := by
  simp [cells]

theorem cells_mod (i n : ℕ) : cells L (i % L) n = cells L i n := by simp [cells]

/-- A block within a block. -/
theorem mem_cells_of_mem {i a b n cell : ℕ} (h : a + b ≤ n) (hcell : cell ∈ cells L (i + a) b) :
    cell ∈ cells L i n := by
  obtain ⟨k, hk, rfl⟩ := mem_cells.mp hcell
  exact mem_cells.mpr ⟨a + k, by omega, by rw [Nat.add_assoc]⟩

theorem nodup_cells {i n : ℕ} (hn : n ≤ L) : (cells L i n).Nodup := by
  refine List.Nodup.map_on (fun k hk j hj h => ?_) List.nodup_range
  have hk := List.mem_range.mp hk
  have hj := List.mem_range.mp hj
  obtain hlt | rfl | hlt := lt_trichotomy k j
  · exact absurd h (mod_ne_mod (by omega) (by omega))
  · rfl
  · exact absurd h.symm (mod_ne_mod (by omega) (by omega))

/-- The cells of `n` values from `index` on: up to the end of the ring, then from its start. -/
def ringCells (L index n : ℕ) : List ℕ :=
  let first := min (L - index) n
  List.range' index first ++ List.range' 0 (n - first)

/-- **Two pieces are one block of the stream.** -/
theorem ringCells_eq {i n : ℕ} (hn : n < L) : ringCells L (i % L) n = cells L i n := by
  have hi := Nat.mod_lt i (show 0 < L by omega)
  have hcell : ∀ k < n, (i + k) % L = ringNext L (i % L) k := fun k hk =>
    (ringNext_eq (hk.trans hn)).symm
  rw [ringCells, cells]
  refine List.ext_getElem (by simp) fun k hk _ => ?_
  have hkn : k < n := by
    simp only [List.length_append, List.length_range'] at hk
    omega
  rw [List.getElem_map, List.getElem_range, hcell k hkn, ringNext]
  by_cases hfirst : k < min (L - i % L) n
  · rw [List.getElem_append_left (by simpa using hfirst), List.getElem_range', if_neg (by omega)]
    omega
  · have hlength := not_lt.mp hfirst
    rw [List.getElem_append_right (by rwa [List.length_range']), List.getElem_range',
      if_pos (by omega), List.length_range']
    omega

/-! ## The window -/

/-- `n` values of the stream from the `i`-th on. -/
def window (L : ℕ) (buf : ℕ → α) (i n : ℕ) : List α := (cells L i n).map buf

@[simp] theorem length_window (buf : ℕ → α) (i n : ℕ) : (window L buf i n).length = n := by
  simp [window]

@[simp] theorem window_zero (buf : ℕ → α) (i : ℕ) : window L buf i 0 = [] := rfl

theorem window_add (buf : ℕ → α) (i m n : ℕ) :
    window L buf i (m + n) = window L buf i m ++ window L buf (i + m) n := by
  rw [window, cells_add, List.map_append, window, window]

/-- What the window holds is what its cells hold. -/
theorem window_congr {buf buf' : ℕ → α} {i n : ℕ} (h : ∀ cell ∈ cells L i n, buf' cell = buf cell) :
    window L buf' i n = window L buf i n :=
  List.map_congr_left h

theorem take_window (buf : ℕ → α) (i : ℕ) {m n : ℕ} (h : m ≤ n) :
    (window L buf i n).take m = window L buf i m := by
  obtain ⟨d, rfl⟩ := Nat.exists_eq_add_of_le h
  rw [window_add, List.take_left' (length_window _ _ _)]

/-- A cell past the window is not one of it. -/
theorem mod_notMem_cells {i j n : ℕ} (hij : i + n ≤ j) (hj : j < i + L) : j % L ∉ cells L i n := by
  intro hmem
  obtain ⟨k, hk, heq⟩ := mem_cells.mp hmem
  exact mod_ne_mod (by omega) (by omega) heq

/-- **What is stored past the window leaves it alone.** -/
theorem window_update {buf : ℕ → α} {i j n : ℕ} (hij : i + n ≤ j) (hj : j < i + L) (x : α) :
    window L (Function.update buf (j % L) x) i n = window L buf i n :=
  window_congr fun _ hcell =>
    Function.update_of_ne (ne_of_mem_of_not_mem hcell (mod_notMem_cells hij hj)) _ _

/-! ## Copying -/

section Copying

variable {γ : Type*} {plan pending : List γ} {done done' : γ → Prop}

/-- **A copy under way**: of the moves planned, each is still pending or has been made. -/
structure Copying (plan pending : List γ) (done : γ → Prop) : Prop where
  planned : ∀ q ∈ pending, q ∈ plan
  made : ∀ q ∈ plan, q ∈ pending ∨ done q

theorem Copying.start (plan : List γ) (done : γ → Prop) : Copying plan plan done :=
  ⟨fun _ h => h, fun _ h => .inl h⟩

theorem Copying.finish (h : Copying plan [] done) : ∀ q ∈ plan, done q := fun q hq =>
  (h.made q hq).resolve_left List.not_mem_nil

theorem Copying.mono (h : Copying plan pending done) (hdone : ∀ q ∈ plan, done q → done' q) :
    Copying plan pending done' :=
  ⟨h.planned, fun q hq => (h.made q hq).imp_right (hdone q hq)⟩

/-- **The moves are made one at a time, in any order**: one that undoes no other is made. -/
theorem Copying.move (h : Copying plan pending done) {k : ℕ} {q : γ} (hk : pending[k]? = some q)
    (hq : done' q) (hdone : ∀ p ∈ plan, p ≠ q → done p → done' p) :
    Copying plan (pending.eraseIdx k) done' := by
  refine ⟨fun p hp => h.planned p (List.mem_of_mem_eraseIdx hp), fun p hp => ?_⟩
  obtain rfl | hpq := eq_or_ne p q
  · exact .inr hq
  · refine (h.made p hp).imp (fun hmem => ?_) (hdone p hp hpq)
    obtain ⟨j, hj⟩ := List.getElem?_of_mem hmem
    have hjk : j ≠ k := by
      rintro rfl
      exact hpq (Option.some.inj (hj.symm.trans hk))
    exact List.mem_eraseIdx_iff_getElem?.mpr ⟨j, hjk, hj⟩

/-- **A move puts a value in a place**, and no other move goes there. -/
theorem Copying.update {κ β : Type*} [DecidableEq κ] {key : γ → κ} {val : γ → β} {mem : κ → β}
    (hkeys : (plan.map key).Nodup) (h : Copying plan pending fun q => mem (key q) = val q) {k : ℕ}
    {q : γ} (hk : pending[k]? = some q) :
    Copying plan (pending.eraseIdx k)
      fun p => Function.update mem (key q) (val q) (key p) = val p := by
  refine h.move hk (Function.update_self _ _ _) fun p hp hpq hdone => ?_
  have hq := h.planned q (List.mem_of_getElem? hk)
  have hne : key p ≠ key q := fun heq => hpq (List.inj_on_of_nodup_map hkeys hp hq heq)
  rw [Function.update_of_ne hne, hdone]

/-- **When all moves are made, the values are in their places.** -/
theorem Copying.map_eq {κ ι β : Type*} {places : List κ} {sources : List ι} {mem : κ → β}
    {val : ι → β} (hlength : places.length = sources.length)
    (h : Copying (places.zip sources) [] fun q => mem q.1 = val q.2) :
    places.map mem = sources.map val := by
  refine List.forall₂_eq_eq_eq ▸ ?_
  rw [List.forall₂_map_left_iff, List.forall₂_map_right_iff, List.forall₂_iff_zip]
  exact ⟨hlength, fun hmem => h.finish _ hmem⟩

end Copying

end EmbeddedMCU

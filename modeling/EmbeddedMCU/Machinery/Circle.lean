import Mathlib.Data.List.Nodup
import Mathlib.Logic.Function.Basic
import Mathlib.Tactic.Common

/-!
# Machinery/Circle — doubly linked circles

         ┌──next──▸ x₀ ⇄ x₁ ⇄ … ⇄ xₙ ──next──┐
       marker ◂──────────prev──────────▸ marker

A marker and the items that the links lead through until they come back to it (`Circle`).  Four
stores put a new item between two neighbours (`Circle.insert`), two take one out (`Circle.remove`),
and neither is noticed by a circle that has none of the items (`Circle.congr`).
-/

namespace EmbeddedMCU

variable {α : Type*}

/-- The two links between neighbours. -/
def Joined (next prev : α → α) (a b : α) : Prop := next a = b ∧ prev b = a

/-- From `a` the links lead through the list to `b`, and back. -/
def Path (next prev : α → α) : α → List α → α → Prop
  | a, [], b => Joined next prev a b
  | a, x :: xs, b => Joined next prev a x ∧ Path next prev x xs b

/-- **The links lead from the marker through the items to the marker**, and back. -/
structure Circle (next prev : α → α) (marker : α) (xs : List α) : Prop where
  nodup : (marker :: xs).Nodup
  path : Path next prev marker xs marker

section Path

variable {next prev next' prev' : α → α} {a b x y : α} {xs ys lo hi : List α}

theorem path_append : Path next prev a (xs ++ y :: ys) b
    ↔ Path next prev a xs y ∧ Path next prev y ys b := by
  induction xs generalizing a with
  | nil => rfl
  | cons x xs ih => rw [List.cons_append, Path, Path, ih, and_assoc]

/-- A path reads no link but those of its items, forward from its start and back from its end. -/
theorem Path.congr (h : Path next prev a xs b) (hnext : ∀ x ∈ a :: xs, next' x = next x)
    (hprev : ∀ x ∈ xs ++ [b], prev' x = prev x) : Path next' prev' a xs b := by
  induction xs generalizing a with
  | nil =>
    exact ⟨(hnext a List.mem_cons_self).trans h.1,
      (hprev b (List.mem_singleton.mpr rfl)).trans h.2⟩
  | cons x xs ih =>
    obtain ⟨ha, hnext⟩ := List.forall_mem_cons.mp hnext
    obtain ⟨hx, hprev⟩ := List.forall_mem_cons.mp hprev
    exact ⟨⟨ha.trans h.1.1, hx.trans h.1.2⟩, ih h.2 hnext hprev⟩

theorem Path.first (h : Path next prev a xs b) : next a = xs.headD b := by
  cases xs with
  | nil => exact h.1
  | cons x xs => exact h.1.1

/-- **The neighbours of a place in a path.** -/
theorem Path.joined (h : Path next prev a (lo ++ hi) b) :
    Joined next prev (lo.getLastD a) (hi.headD b) := by
  obtain rfl | ⟨lo, l, rfl⟩ := List.eq_nil_or_concat' lo
  · cases hi with
    | nil => exact h
    | cons y hi => exact h.1
  · rw [List.append_assoc, List.singleton_append, path_append] at h
    rw [List.getLastD_concat]
    cases hi with
    | nil => exact h.2
    | cons y hi => exact h.2.1

end Path

namespace Circle

variable {next prev next' prev' : α → α} {marker n x : α} {xs lo hi : List α}

theorem congr (h : Circle next prev marker xs) (hnext : ∀ x ∈ marker :: xs, next' x = next x)
    (hprev : ∀ x ∈ marker :: xs, prev' x = prev x) : Circle next' prev' marker xs :=
  ⟨h.nodup, h.path.congr hnext fun x hx => hprev x (by
    rcases List.mem_append.mp hx with hx | hx
    · exact List.mem_cons_of_mem _ hx
    · exact List.mem_singleton.mp hx ▸ List.mem_cons_self)⟩

/-- A marker that is linked to itself has no items. -/
theorem nil (hnext : next marker = marker) (hprev : prev marker = marker) :
    Circle next prev marker [] :=
  ⟨List.nodup_singleton marker, hnext, hprev⟩

theorem joined (h : Circle next prev marker (lo ++ hi)) :
    Joined next prev (lo.getLastD marker) (hi.headD marker) :=
  h.path.joined

/-- The links of an item. -/
theorem links (h : Circle next prev marker (lo ++ x :: hi)) :
    next x = hi.headD marker ∧ prev x = lo.getLastD marker := by
  refine ⟨?_, h.joined.2⟩
  have hx : Path next prev marker ((lo ++ [x]) ++ hi) marker := by
    rw [List.append_assoc]
    exact h.path
  have hjoined := hx.joined
  rw [List.getLastD_concat] at hjoined
  exact hjoined.1

variable [DecidableEq α]

/-- **A new item goes between two neighbours.** -/
theorem insert (h : Circle next prev marker (lo ++ hi)) (hn : n ∉ marker :: (lo ++ hi)) :
    Circle (Function.update (Function.update next n (hi.headD marker)) (lo.getLastD marker) n)
      (Function.update (Function.update prev (hi.headD marker) n) n (lo.getLastD marker))
      marker (lo ++ n :: hi) := by
  have hnodup := h.nodup
  have hnodup' : (marker :: (lo ++ n :: hi)).Nodup :=
    (List.perm_middle.cons marker).nodup_iff.mpr
      ((List.Perm.swap n marker (lo ++ hi)).nodup_iff.mpr (List.nodup_cons.mpr ⟨hn, hnodup⟩))
  refine ⟨hnodup', path_append.mpr ⟨?_, ?_⟩⟩
  · obtain rfl | ⟨lo, l, rfl⟩ := List.eq_nil_or_concat' lo
    · exact ⟨Function.update_self .., Function.update_self ..⟩
    · have hpath := h.path
      rw [List.append_assoc, List.singleton_append, path_append] at hpath
      rw [List.getLastD_concat]
      refine path_append.mpr ⟨hpath.1.congr (fun x hx => ?_) fun y hy => ?_,
        Function.update_self .., Function.update_self ..⟩
      · have hxl : x ≠ l ∧ x ≠ n := by grind -ring -linarith -order
        rw [Function.update_of_ne hxl.1, Function.update_of_ne hxl.2]
      · have hyh : y ≠ n ∧ y ≠ hi.headD marker := by
          cases hi <;> grind -ring -linarith -order
        rw [Function.update_of_ne hyh.1, Function.update_of_ne hyh.2]
  · have hlast : lo.getLastD marker ∈ marker :: lo := List.getLastD_mem_cons
    have hnlast : n ≠ lo.getLastD marker := by grind -ring -linarith -order
    cases hi with
    | nil =>
      refine ⟨?_, ?_⟩
      · rw [Function.update_of_ne hnlast, Function.update_self]
        rfl
      · have hmn : marker ≠ n := by grind -ring -linarith -order
        rw [Function.update_of_ne hmn]
        exact Function.update_self ..
    | cons b hi =>
      have hpath := (path_append.mp h.path).2
      refine ⟨⟨?_, ?_⟩, hpath.congr (fun x hx => ?_) fun y hy => ?_⟩
      · rw [Function.update_of_ne hnlast, Function.update_self]
        rfl
      · have hbn : b ≠ n := by grind -ring -linarith -order
        rw [Function.update_of_ne hbn]
        exact Function.update_self ..
      · have hxl : x ≠ lo.getLastD marker ∧ x ≠ n := by grind -ring -linarith -order
        rw [Function.update_of_ne hxl.1, Function.update_of_ne hxl.2]
      · have hyb : y ≠ n ∧ y ≠ b := by grind -ring -linarith -order
        rw [Function.update_of_ne hyb.1]
        exact Function.update_of_ne hyb.2 ..

/-- **An item is taken out** by the two stores that join its neighbours. -/
theorem remove (h : Circle next prev marker (lo ++ x :: hi)) :
    Circle (Function.update next (lo.getLastD marker) (hi.headD marker))
      (Function.update prev (hi.headD marker) (lo.getLastD marker)) marker (lo ++ hi) := by
  have hnodup := h.nodup
  have hsub : (marker :: (lo ++ hi)).Nodup :=
    hnodup.sublist (((List.Sublist.refl lo).append (List.sublist_cons_self x hi)).cons_cons marker)
  obtain ⟨hbefore, hbehind⟩ := path_append.mp h.path
  refine ⟨hsub, ?_⟩
  have hlo : ∀ l lo', lo = lo' ++ [l] → Path
      (Function.update next (lo.getLastD marker) (hi.headD marker))
      (Function.update prev (hi.headD marker) (lo.getLastD marker)) marker lo' l := by
    rintro l lo rfl
    rw [path_append] at hbefore
    rw [List.getLastD_concat]
    refine hbefore.1.congr (fun y hy => Function.update_of_ne ?_ ..)
      fun y hy => Function.update_of_ne ?_ ..
    · grind -ring -linarith -order
    · cases hi <;> grind -ring -linarith -order
  have hhi : ∀ b hi', hi = b :: hi' → Path
      (Function.update next (lo.getLastD marker) (hi.headD marker))
      (Function.update prev (hi.headD marker) (lo.getLastD marker)) b hi' marker := by
    rintro b hi rfl
    have hlast : lo.getLastD marker ∈ marker :: lo := List.getLastD_mem_cons
    refine hbehind.2.congr (fun y hy => Function.update_of_ne ?_ ..)
      fun y hy => Function.update_of_ne ?_ ..
    · grind -ring -linarith -order
    · simp only [List.headD_cons]
      grind -ring -linarith -order
  have hjoin : Joined (Function.update next (lo.getLastD marker) (hi.headD marker))
      (Function.update prev (hi.headD marker) (lo.getLastD marker))
      (lo.getLastD marker) (hi.headD marker) :=
    ⟨Function.update_self .., Function.update_self ..⟩
  obtain rfl | ⟨lo, l, rfl⟩ := List.eq_nil_or_concat' lo
  · cases hi with
    | nil => exact hjoin
    | cons b hi => exact ⟨hjoin, hhi b hi rfl⟩
  · rw [List.append_assoc, List.singleton_append, path_append]
    refine ⟨hlo l lo rfl, ?_⟩
    rw [List.getLastD_concat] at hjoin hhi ⊢
    cases hi with
    | nil => exact hjoin
    | cons b hi => exact ⟨hjoin, hhi b hi rfl⟩

end Circle

end EmbeddedMCU

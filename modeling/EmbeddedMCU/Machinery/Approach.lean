import Mathlib.Algebra.Order.Field.Basic
import Mathlib.Algebra.Order.AbsoluteValue.Basic
import Mathlib.Tactic.Linarith
import Mathlib.Tactic.Ring

/-!
# Machinery/Approach — moving towards a target by at most so much

    a ──────d────▸ · ──────d'────▸ t        never past t
    a ──d──▸ · ──rounded──▸ a'              a, t on a grid, so a' is still between a and t

A move by `d` and then by `d'` is a move by `d + d'` (`approach_approach`), so any run of moves is a
single one, and what is to be known of a run is known of one move.

A move whose end is rounded may stop short of the move or go a little further, but not past the
target and not back: both ends are on the grid, and rounding respects what is on the grid
(`between_approachRounded`).  What the rounding can take from a move is half a unit of the grid, so
a move of a whole unit still makes half of its way (`abs_sub_approachRounded_le`).
-/

namespace EmbeddedMCU

/-! ## Exact moves -/

section Exact

variable {K : Type*} [Field K] [LinearOrder K]

/-- Where a move from `a` towards `t` by at most `d` ends. -/
def approach (t a d : K) : K := if a ≤ t then min t (a + d) else max t (a - d)

variable {t a d d' : K}

theorem approach_of_le (h : a ≤ t) : approach t a d = min t (a + d) := if_pos h

variable [IsStrictOrderedRing K]

theorem approach_of_ge (hd : 0 ≤ d) (h : t ≤ a) : approach t a d = max t (a - d) := by
  obtain rfl | hlt := h.eq_or_lt
  · rw [approach_of_le le_rfl, min_eq_left (by linarith), max_eq_left (by linarith)]
  · exact if_neg (not_le.mpr hlt)

/-- No move, no change. -/
theorem approach_zero (t a : K) : approach t a 0 = a := by
  obtain h | h := le_total a t
  · rw [approach_of_le h, add_zero, min_eq_right h]
  · rw [approach_of_ge le_rfl h, sub_zero, max_eq_right h]

/-- At the target there is nowhere to go. -/
theorem approach_self (hd : 0 ≤ d) : approach t t d = t := by
  rw [approach_of_le le_rfl, min_eq_left (by linarith)]

omit [IsStrictOrderedRing K] in
/-- **From below, the target is not passed**, -/
theorem approach_le (h : a ≤ t) : approach t a d ≤ t := by
  rw [approach_of_le h]
  exact min_le_left _ _

/-- …nor from above. -/
theorem le_approach (hd : 0 ≤ d) (h : t ≤ a) : t ≤ approach t a d := by
  rw [approach_of_ge hd h]
  exact le_max_left _ _

/-- **Two moves are one.** -/
theorem approach_approach (hd : 0 ≤ d) (hd' : 0 ≤ d') :
    approach t (approach t a d) d' = approach t a (d + d') := by
  obtain h | h := le_total a t
  · rw [approach_of_le (approach_le h), approach_of_le h, approach_of_le h]
    obtain hreach | hshort := le_total t (a + d)
    · rw [min_eq_left hreach, min_eq_left (by linarith), min_eq_left (by linarith)]
    · rw [min_eq_right hshort, add_assoc]
  · rw [approach_of_ge hd' (le_approach hd h), approach_of_ge hd h,
      approach_of_ge (add_nonneg hd hd') h]
    obtain hreach | hshort := le_total (a - d) t
    · rw [max_eq_left hreach, max_eq_left (by linarith), max_eq_left (by linarith)]
    · rw [max_eq_right hshort, sub_sub]

/-- **The distance shrinks by the move, down to zero.** -/
theorem abs_sub_approach (hd : 0 ≤ d) : |t - approach t a d| = max 0 (|t - a| - d) := by
  obtain h | h := le_total a t
  · rw [abs_of_nonneg (sub_nonneg.mpr (approach_le h)), abs_of_nonneg (sub_nonneg.mpr h),
      approach_of_le h]
    obtain hreach | hshort := le_total t (a + d)
    · rw [min_eq_left hreach, sub_self, max_eq_left (by linarith)]
    · rw [min_eq_right hshort, max_eq_right (by linarith), sub_sub]
  · rw [abs_of_nonpos (sub_nonpos.mpr (le_approach hd h)), abs_of_nonpos (sub_nonpos.mpr h),
      approach_of_ge hd h]
    obtain hreach | hshort := le_total (a - d) t
    · rw [max_eq_left hreach, sub_self, neg_zero, max_eq_left (by linarith)]
    · rw [max_eq_right hshort, max_eq_right (by linarith)]
      linarith

end Exact

/-! ## Rounded moves -/

section Rounded

variable {K : Type*} [LinearOrder K]

/-- **A rounding onto a grid** — what lies on one side of a grid point is rounded to that side. -/
structure Rounding (grid : K → Prop) (rnd : K → K) : Prop where
  grid_rnd : ∀ x, grid (rnd x)
  rnd_le : ∀ {x F}, grid F → x ≤ F → rnd x ≤ F
  le_rnd : ∀ {x F}, grid F → F ≤ x → F ≤ rnd x

/-- `b` lies on the way from `a` to `t`. -/
def Between (a t b : K) : Prop := (a ≤ b ∧ b ≤ t) ∨ (t ≤ b ∧ b ≤ a)

section Between

variable {a b c t : K}

theorem between_left : Between a t a := by
  obtain h | h := le_total a t
  · exact .inl ⟨le_rfl, h⟩
  · exact .inr ⟨h, le_rfl⟩

theorem between_right : Between a t t := by
  obtain h | h := le_total a t
  · exact .inl ⟨h, le_rfl⟩
  · exact .inr ⟨le_rfl, h⟩

/-- **Further on the way is still on the way.** -/
theorem Between.trans (h : Between a t b) (h' : Between b t c) : Between a t c := by
  obtain ⟨hab, hbt⟩ | ⟨htb, hba⟩ := h
  · obtain ⟨hbc, hct⟩ | ⟨htc, hcb⟩ := h'
    · exact .inl ⟨hab.trans hbc, hct⟩
    · exact .inl ⟨hab.trans (hbt.trans htc), hcb.trans hbt⟩
  · obtain ⟨hbc, hct⟩ | ⟨htc, hcb⟩ := h'
    · exact .inr ⟨htb.trans hbc, hct.trans (htb.trans hba)⟩
    · exact .inr ⟨htc, hcb.trans hba⟩

variable [Field K] [IsStrictOrderedRing K]

/-- On the way to the target, the magnitude is at most that of an end. -/
theorem Between.abs_le (h : Between a t b) : |b| ≤ max |a| |t| := by
  obtain ⟨hab, hbt⟩ | ⟨htb, hba⟩ := h
  · exact abs_le_max_abs_abs hab hbt
  · rw [max_comm]
    exact abs_le_max_abs_abs htb hba

/-- On the way to the target, the distance to it is at most what it was. -/
theorem Between.abs_sub_le (h : Between a t b) : |t - b| ≤ |t - a| := by
  obtain ⟨hab, hbt⟩ | ⟨htb, hba⟩ := h
  · rw [abs_of_nonneg (sub_nonneg.mpr hbt), abs_of_nonneg (sub_nonneg.mpr (hab.trans hbt))]
    exact sub_le_sub_left hab t
  · rw [abs_of_nonpos (sub_nonpos.mpr htb), abs_of_nonpos (sub_nonpos.mpr (htb.trans hba))]
    exact neg_le_neg (sub_le_sub_left hba t)

end Between

/-- What is rounded on the way stays on the way. -/
theorem Rounding.between {grid : K → Prop} {rnd : K → K} (hrnd : Rounding grid rnd) {a t x : K}
    (ha : grid a) (ht : grid t) (h : Between a t x) : Between a t (rnd x) := by
  obtain ⟨hax, hxt⟩ | ⟨htx, hxa⟩ := h
  · exact .inl ⟨hrnd.le_rnd ha hax, hrnd.rnd_le ht hxt⟩
  · exact .inr ⟨hrnd.le_rnd ht htx, hrnd.rnd_le ha hxa⟩

variable [Field K]

/-- Where a move from `a` towards `t` by at most `d` ends, when the end is rounded unless it is the
target. -/
def approachRounded (rnd : K → K) (t a d : K) : K :=
  if |t - a| > d then rnd (if a < t then a + d else a - d) else t

variable [IsStrictOrderedRing K] {grid : K → Prop} {rnd : K → K} {t a d : K}

/-- The end of a move that does not reach the target, before it is rounded. -/
theorem between_move (hd : 0 ≤ d) (hfar : d < |t - a|) :
    Between a t (if a < t then a + d else a - d) := by
  split_ifs with h
  · rw [abs_of_pos (sub_pos.mpr h)] at hfar
    exact .inl ⟨by linarith, by linarith⟩
  · rw [abs_of_nonpos (sub_nonpos.mpr (not_lt.mp h))] at hfar
    exact .inr ⟨by linarith, by linarith⟩

/-- **A rounded move neither passes the target nor goes back.** -/
theorem between_approachRounded (hrnd : Rounding grid rnd) (ha : grid a) (ht : grid t)
    (hd : 0 ≤ d) : Between a t (approachRounded rnd t a d) := by
  rw [approachRounded]
  by_cases hfar : |t - a| > d
  · rw [if_pos hfar]
    exact hrnd.between ha ht (between_move hd hfar)
  · rw [if_neg hfar]
    exact between_right

omit [IsStrictOrderedRing K] in
theorem grid_approachRounded (hrnd : Rounding grid rnd) (ht : grid t) :
    grid (approachRounded rnd t a d) := by
  rw [approachRounded]
  split_ifs
  · exact hrnd.grid_rnd _
  · exact hrnd.grid_rnd _
  · exact ht

/-- **A rounded move loses what the rounding takes**, at most. -/
theorem abs_sub_approachRounded_le {ε : K} (hd : 0 ≤ d)
    (herr : ∀ x, Between a t x → |rnd x - x| ≤ ε) :
    |t - approachRounded rnd t a d| ≤ max 0 (|t - a| - (d - ε)) := by
  rw [approachRounded]
  by_cases hfar : |t - a| > d
  · have hbetween := between_move hd hfar
    have hx := herr _ hbetween
    rw [if_pos hfar]
    refine le_max_of_le_right ?_
    have hmove : |t - (if a < t then a + d else a - d)| = |t - a| - d := by
      split_ifs with h
      · rw [abs_of_pos (sub_pos.mpr h)] at hfar ⊢
        rw [abs_of_pos (by linarith)]
        ring
      · rw [abs_of_nonpos (sub_nonpos.mpr (not_lt.mp h))] at hfar ⊢
        rw [abs_of_neg (by linarith)]
        ring
    have := abs_sub_le t (if a < t then a + d else a - d) (rnd (if a < t then a + d else a - d))
    rw [abs_sub_comm] at hx
    linarith
  · rw [if_neg hfar, sub_self, abs_zero]
    exact le_max_left _ _

end Rounded

end EmbeddedMCU

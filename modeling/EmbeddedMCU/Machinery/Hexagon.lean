import Mathlib.Analysis.SpecialFunctions.Trigonometric.Basic
import Mathlib.Tactic.Linarith

/-!
# Machinery/Hexagon — a sine wave in steps of sixty degrees

            a + b
        b  ⟋      ⟍  a
          ⟍        ⟋          one step per sixty degrees, the lower half negated
       -a   ⟍    ⟋   -b
            -(a+b)

Two neighbouring values of a sine wave determine all the others in steps of sixty degrees, by one
addition and signs (`sin_add_hexagon`).  `hexagon` is that rule over any group, so what is computed
by the rule and what is sampled from the wave can be compared value by value (`abs_hexagon_sub_le`).
-/

namespace EmbeddedMCU

variable {G H : Type*} [AddCommGroup G] [AddCommGroup H]

/-- The `k`-th value around the hexagon of `a` and `b`. -/
def hexagon (a b : G) : ℕ → G
  | 0 => b
  | 1 => a + b
  | 2 => a
  | k + 3 => -hexagon a b k

/-- Half way round the sign is turned. -/
theorem hexagon_add_three (a b : G) (k : ℕ) : hexagon a b (k + 3) = -hexagon a b k := rfl

theorem map_hexagon (f : G →+ H) (a b : G) (k : ℕ) :
    f (hexagon a b k) = hexagon (f a) (f b) k := by
  induction k using hexagon.induct with
  | case1 => rfl
  | case2 => exact map_add f a b
  | case3 => rfl
  | case4 k ih => rw [hexagon_add_three, hexagon_add_three, map_neg, ih]

/-- **Hexagons of nearby values are nearby.** -/
theorem abs_hexagon_sub_le [LinearOrder G] [IsOrderedAddMonoid G] (a b a' b' : G) (k : ℕ) :
    |hexagon a b k - hexagon a' b' k| ≤ |a - a'| + |b - b'| := by
  induction k using hexagon.induct with
  | case1 => exact le_add_of_nonneg_left (abs_nonneg _)
  | case2 =>
    have h : hexagon a b 1 - hexagon a' b' 1 = (a - a') + (b - b') := add_sub_add_comm a b a' b'
    rw [h]
    exact abs_add_le _ _
  | case3 => exact le_add_of_nonneg_right (abs_nonneg _)
  | case4 k ih =>
    rwa [hexagon_add_three, hexagon_add_three, neg_sub_neg, abs_sub_comm]

/-- **A sine wave goes round the hexagon of two of its values.** -/
theorem sin_add_hexagon (r x : ℝ) (k : ℕ) :
    r * Real.sin (x + k * (Real.pi / 3))
      = hexagon (r * Real.sin (Real.pi / 3 - x)) (r * Real.sin x) k := by
  have hs := Real.sin_pi_div_three
  have hc := Real.cos_pi_div_three
  induction k using hexagon.induct with
  | case1 => simp [hexagon]
  | case2 =>
    rw [hexagon, Nat.cast_one, one_mul, Real.sin_add, Real.sin_sub, hs, hc]
    ring
  | case3 =>
    have harg : x + (2 : ℕ) * (Real.pi / 3) = Real.pi - (Real.pi / 3 - x) := by
      push_cast
      ring
    rw [hexagon, harg, Real.sin_pi_sub]
  | case4 k ih =>
    have harg : x + (k + 3 : ℕ) * (Real.pi / 3) = x + k * (Real.pi / 3) + Real.pi := by
      push_cast
      ring
    rw [hexagon_add_three, harg, Real.sin_add_pi, mul_neg, ih]

end EmbeddedMCU

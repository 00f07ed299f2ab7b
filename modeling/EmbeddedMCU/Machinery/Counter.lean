import Mathlib.Data.Nat.Basic
import Mathlib.Tactic.Common

/-!
# Machinery/Counter — free-running counters

A counter of period `M` is read after a number of ticks nobody sees.  Between two readings `k ≤ M`
ticks apart it passes its reload at most once, and the difference of the readings is `k`, or `k`
short of a whole period.
-/

namespace EmbeddedMCU

/-- What an up-counter of period `M` reads after `n` ticks. -/
def upCount (M n : ℕ) : ℕ := n % M

/-- What a down-counter of period `M` reads, `n` ticks after it was loaded. -/
def downCount (M n : ℕ) : ℕ := M - 1 - n % M

/-- A time between two readings: at least a tick, at most `longest`. -/
structure Interval (longest : ℕ) where
  ticks : ℕ
  pos : 1 ≤ ticks
  le : ticks ≤ longest

variable {M n k : ℕ}

theorem upCount_lt (hM : 0 < M) : upCount M n < M := Nat.mod_lt n hM

theorem downCount_lt (hM : 0 < M) : downCount M n < M := by
  rw [downCount]
  omega

/-- Short of the period, an up-counter counts. -/
theorem upCount_add (h : upCount M n + k < M) : upCount M (n + k) = upCount M n + k := by
  rw [upCount, ← Nat.mod_add_mod]
  exact Nat.mod_eq_of_lt h

/-- …and past it, starts again. -/
theorem upCount_add_wrap (hk : k ≤ M) (h : M ≤ upCount M n + k) :
    upCount M (n + k) + M = upCount M n + k := by
  rcases Nat.eq_zero_or_pos M with rfl | hM
  · rw [Nat.le_zero.mp hk]
    rfl
  have hlt := upCount_lt (n := n) hM
  have hmod : upCount M (n + k) = (upCount M n + k) % M := by
    rw [upCount, upCount, Nat.mod_add_mod]
  rw [hmod, Nat.mod_eq_sub_mod h, Nat.mod_eq_of_lt (by omega)]
  omega

/-- Down to zero, a down-counter counts. -/
theorem downCount_add (h : k ≤ downCount M n) : downCount M (n + k) + k = downCount M n := by
  rcases Nat.eq_zero_or_pos M with rfl | hM
  · simp only [downCount] at h ⊢
    omega
  have hlt := upCount_lt (n := n) hM
  rw [downCount, ← upCount] at h
  rw [downCount, downCount, ← upCount, ← upCount, upCount_add (by omega)]
  omega

/-- …and below it, is reloaded. -/
theorem downCount_add_wrap (hk : k ≤ M) (h : downCount M n < k) :
    downCount M (n + k) + k = downCount M n + M := by
  have hM : 0 < M := by omega
  have hlt := upCount_lt (n := n) hM
  have hlt' := upCount_lt (n := n + k) hM
  rw [downCount, ← upCount] at h
  have := upCount_add_wrap (n := n) hk (by omega)
  rw [downCount, downCount, ← upCount, ← upCount]
  omega

end EmbeddedMCU

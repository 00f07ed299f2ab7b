import EmbeddedMCU.Machinery.Run
import Mathlib.Algebra.Order.ToIntervalMod
import Mathlib.Tactic.Linarith
import Mathlib.Tactic.Ring
import Mathlib.Tactic.LinearCombination

/-!
# Machinery/Fmod — truncation, `fmod` and reduction to one turn

C reduces an angle in two moves: `fmod` keeps the sign of the dividend, and a negative remainder is
lifted by one period.  `fmodLift_eq_toIcoMod` says the two moves together are Mathlib's reduction
into `[0, p)`, so everything downstream is congruence arithmetic modulo `p`.

A routine that adds its travel to a position and reduces the sum, call after call, does not show the
reductions: after a run the position is the reduction of the sum of all travels
(`run_concat_position`), however often it was reduced on the way, and what the last call emits
modulo `p` is what the unreduced sum would (`run_concat_emitted`).
-/

namespace EmbeddedMCU

variable {K : Type*} [Field K] [LinearOrder K] [FloorRing K]

/-! ## The C conversion to an integer -/

/-- A C conversion to an integer type: the fraction is discarded, towards zero. -/
def ctrunc (x : K) : ℤ := if 0 ≤ x then ⌊x⌋ else ⌈x⌉

theorem ctrunc_of_nonneg {x : K} (h : 0 ≤ x) : ctrunc x = ⌊x⌋ := if_pos h

theorem ctrunc_of_neg {x : K} (h : x < 0) : ctrunc x = ⌈x⌉ := if_neg (not_le.mpr h)

theorem ctrunc_nonneg {x : K} (h : 0 ≤ x) : 0 ≤ ctrunc x := by
  rw [ctrunc_of_nonneg h]
  exact Int.floor_nonneg.mpr h

/-- **The conversion is monotone on the nonnegative side**, against an integer bound. -/
theorem ctrunc_le_of_lt {x : K} {n : ℤ} (h : 0 ≤ x) (hn : x < n + 1) : ctrunc x ≤ n := by
  rw [ctrunc_of_nonneg h]
  have : ⌊x⌋ < n + 1 := Int.floor_lt.mpr (by exact_mod_cast hn)
  omega

theorem ctrunc_nonpos {x : K} (h : x < 0) : ctrunc x ≤ 0 := by
  rw [ctrunc_of_neg h]
  exact Int.ceil_le.mpr (by simpa using h.le)

theorem ctrunc_eq_iff {x : K} {n : ℤ} (h : 0 ≤ x) : ctrunc x = n ↔ (n : K) ≤ x ∧ x < n + 1 := by
  rw [ctrunc_of_nonneg h, Int.floor_eq_iff]

/-! ## `fmod` -/

/-- `fmod`: the remainder of the truncated quotient, with the sign of the dividend. -/
def fmod (x p : K) : K := x - ctrunc (x / p) * p

/-- **`fmod` changes its dividend by whole periods only.** -/
theorem fmod_add_mul (x p : K) : fmod x p + ctrunc (x / p) * p = x := sub_add_cancel _ _

variable [IsStrictOrderedRing K]

/-- A nonnegative dividend leaves a remainder in `[0, p)`. -/
theorem fmod_mem_Ico {x p : K} (hp : 0 < p) (hx : 0 ≤ x) : fmod x p ∈ Set.Ico 0 p := by
  have hq : 0 ≤ x / p := div_nonneg hx hp.le
  have h : x = x / p * p := (div_mul_cancel₀ x hp.ne').symm
  have hlo : (⌊x / p⌋ : K) * p ≤ x / p * p :=
    mul_le_mul_of_nonneg_right (Int.floor_le _) hp.le
  have hhi : x / p * p < ((⌊x / p⌋ : K) + 1) * p :=
    mul_lt_mul_of_pos_right (Int.lt_floor_add_one _) hp
  rw [fmod, ctrunc_of_nonneg hq]
  constructor <;> linarith

/-- …and a negative one a remainder in `(-p, 0]`. -/
theorem fmod_mem_Ioc {x p : K} (hp : 0 < p) (hx : x < 0) : fmod x p ∈ Set.Ioc (-p) 0 := by
  have hq : x / p < 0 := div_neg_of_neg_of_pos hx hp
  have h : x = x / p * p := (div_mul_cancel₀ x hp.ne').symm
  have hlo : x / p * p ≤ (⌈x / p⌉ : K) * p :=
    mul_le_mul_of_nonneg_right (Int.le_ceil _) hp.le
  have hhi : ((⌈x / p⌉ : K) - 1) * p < x / p * p :=
    mul_lt_mul_of_pos_right (by linarith [Int.ceil_lt_add_one (x / p)]) hp
  rw [fmod, ctrunc_of_neg hq]
  constructor <;> linarith

theorem fmod_lt {x p : K} (hp : 0 < p) : fmod x p < p := by
  rcases le_or_gt 0 x with hx | hx
  · exact (fmod_mem_Ico hp hx).2
  · exact (fmod_mem_Ioc hp hx).2.trans_lt hp

theorem neg_lt_fmod {x p : K} (hp : 0 < p) : -p < fmod x p := by
  rcases le_or_gt 0 x with hx | hx
  · exact (neg_neg_of_pos hp).trans_le (fmod_mem_Ico hp hx).1
  · exact (fmod_mem_Ioc hp hx).1

/-- **The period a nonnegative dividend lies in determines its remainder**, -/
theorem fmod_eq_sub {x p : K} {n : ℤ} (hp : 0 < p) (h0 : 0 ≤ x) (hlo : n * p ≤ x)
    (hhi : x < (n + 1) * p) : fmod x p = x - n * p := by
  have hz : ctrunc (x / p) = n :=
    (ctrunc_eq_iff (div_nonneg h0 hp.le)).mpr ⟨(le_div_iff₀ hp).mpr hlo, (div_lt_iff₀ hp).mpr hhi⟩
  rw [fmod, hz]

/-- …counted from the other end for a negative one. -/
theorem fmod_eq_sub_of_neg {x p : K} {n : ℤ} (hp : 0 < p) (h0 : x < 0) (hlo : (n - 1) * p < x)
    (hhi : x ≤ n * p) : fmod x p = x - n * p := by
  have hz : ctrunc (x / p) = n := by
    rw [ctrunc_of_neg (div_neg_of_neg_of_pos h0 hp), Int.ceil_eq_iff]
    exact ⟨(lt_div_iff₀ hp).mpr hlo, (div_le_iff₀ hp).mpr hhi⟩
  rw [fmod, hz]

/-! ## Reduction to one turn -/

/-- **`fmod`, then one period added to a negative remainder, is the reduction into `[0, p)`.** -/
theorem fmodLift_eq_toIcoMod {p : K} (hp : 0 < p) (x : K) :
    (if 0 ≤ fmod x p then fmod x p else fmod x p + p) = toIcoMod hp 0 x := by
  symm
  rw [toIcoMod_eq_iff, zero_add]
  split_ifs with h
  · exact ⟨⟨h, fmod_lt hp⟩, ctrunc (x / p), by rw [fmod, zsmul_eq_mul]; ring⟩
  · refine ⟨⟨?_, ?_⟩, ctrunc (x / p) - 1, ?_⟩
    · linarith [neg_lt_fmod (x := x) hp]
    · linarith [not_le.mp h]
    · rw [fmod, zsmul_eq_mul]
      push_cast
      ring

/-- The remainder of the floored quotient, in `[0, p)`. -/
def floorMod (x p : K) : K := x - ⌊x / p⌋ * p

/-- **…is the same reduction.** -/
theorem floorMod_eq_toIcoMod {p : K} (hp : 0 < p) (x : K) :
    floorMod x p = toIcoMod hp 0 x := by
  rw [toIcoMod, toIcoDiv_eq_floor, sub_zero, zsmul_eq_mul, floorMod]

/-- The reduction of an angle is congruent to it. -/
theorem toIcoMod_modEq {p : K} (hp : 0 < p) (x : K) : toIcoMod hp 0 x ≡ x [PMOD p] :=
  AddCommGroup.modEq_iff_zsmul.mpr ⟨toIcoDiv hp 0 x, (self_sub_toIcoMod hp 0 x).symm⟩

omit [FloorRing K] in
/-- **Scaling by an integer keeps a congruence** — what a pole-pair count does to an angle. -/
theorem modEq_mul_intCast {p x y : K} (n : ℤ) (h : x ≡ y [PMOD p]) :
    x * n ≡ y * n [PMOD p] := by
  obtain ⟨z, hz⟩ := AddCommGroup.modEq_iff_zsmul.mp h
  refine AddCommGroup.modEq_iff_zsmul.mpr ⟨z * n, ?_⟩
  rw [zsmul_eq_mul] at hz ⊢
  push_cast
  linear_combination (n : K) * hz

omit [FloorRing K] in
theorem modEq_mul_natCast {p x y : K} (n : ℕ) (h : x ≡ y [PMOD p]) :
    x * n ≡ y * n [PMOD p] := by
  exact_mod_cast modEq_mul_intCast (n : ℤ) h

/-! ## A position that is reduced at every call -/

section Accumulator

variable {σ ι ω : Type*} (step : σ → ι → σ × ω) (position : σ → K) {travel : ω → K} {p : K}
  (hp : 0 < p)
  (hstep : ∀ s x, position (step s x).1 = toIcoMod hp 0 (position s + travel (step s x).2))

include hstep

/-- **After a run the position is congruent to the sum of all travels.** -/
theorem run_position_modEq (s : σ) (xs : List ι) :
    position (run step s xs).1
      ≡ position s + ((run step s xs).2.map travel).sum [PMOD p] := by
  induction xs generalizing s with
  | nil => simp
  | cons x xs ih =>
    have hx : position (step s x).1 ≡ position s + travel (step s x).2 [PMOD p] := by
      rw [hstep]
      exact toIcoMod_modEq hp _
    have h := (ih (step s x).1).trans (hx.add_right _)
    rwa [run_cons_fst, run_cons_snd, List.map_cons, List.sum_cons, ← add_assoc]

/-- **…and the last reduction makes it the representative in `[0, p)`.** -/
theorem run_concat_position (s : σ) (xs : List ι) (x : ι) :
    position (run step s (xs ++ [x])).1
      = toIcoMod hp 0 (position s + ((run step s (xs ++ [x])).2.map travel).sum) := by
  have h := (run_position_modEq step position hp hstep s xs).add_right
    (travel (step (run step s xs).1 x).2)
  rw [run_concat, hstep, List.map_append, List.map_singleton, List.sum_append, List.sum_singleton,
    ← add_assoc]
  exact h.toIcoMod_eq_toIcoMod hp

/-- **What a call emits at its new position, the last call emits at the unreduced one**, as long as
whole periods make no difference to it. -/
theorem run_concat_emitted {β : Type*} (emitted : ω → β) (emit : K → β)
    (hemit : ∀ {a b}, a ≡ b [PMOD p] → emit a = emit b) (Inv : σ → Prop)
    (hinv : ∀ s x, Inv s → Inv (step s x).1)
    (hout : ∀ s x, Inv s → emitted (step s x).2 = emit (position (step s x).1))
    {s : σ} (hs : Inv s) (xs : List ι) (x : ι) :
    (run step s (xs ++ [x])).2.getLast?.map emitted
      = some (emit (position s + ((run step s (xs ++ [x])).2.map travel).sum)) := by
  have hbefore : Inv (run step s xs).1 :=
    (run_invariant Inv (fun _ => True) (fun _ => True) (fun s x h _ => ⟨hinv s x h, trivial⟩) hs
      fun _ _ => trivial).1
  have hmod := run_position_modEq step position hp hstep s (xs ++ [x])
  rw [← hemit hmod, run_concat, List.getLast?_concat, Option.map_some, hout _ _ hbefore]

end Accumulator

end EmbeddedMCU

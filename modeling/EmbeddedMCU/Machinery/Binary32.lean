import Mathlib.Data.Int.Log
import Mathlib.Data.Rat.Floor
import Mathlib.Tactic.Linarith
import Mathlib.Tactic.Positivity
import Mathlib.Tactic.Ring
import Mathlib.Tactic.NormNum

/-!
# Machinery/Binary32 — rounding a rational to the nearest binary32 number

    x ──÷ 2^e──▸ x / 2^e ──nearest, ties even──▸ an integer of at most 24 bits ──· 2^e──▸ round x

`e` is the exponent of the last place of `x`, kept at `-149` for the subnormals.  A proof never
looks inside: `round_le_of_le` and `le_round_of_le` compare a rounded value with a representable
one, and `round_le_iff`, `le_round_iff` say exactly where the rounding boundary between two
neighbours lies.
-/

namespace EmbeddedMCU

/-! ## The nearest integer -/

section RoundEven

variable {K : Type*} [Field K] [LinearOrder K] [FloorRing K]

/-- The nearer of the two integers around a number, a tie going to the even one. -/
def roundEven (y : K) : ℤ :=
  if y - ⌊y⌋ < ⌊y⌋ + 1 - y then ⌊y⌋
  else if ⌊y⌋ + 1 - y < y - ⌊y⌋ then ⌊y⌋ + 1
  else if ⌊y⌋ % 2 = 0 then ⌊y⌋ else ⌊y⌋ + 1

theorem floor_le_roundEven (y : K) : ⌊y⌋ ≤ roundEven y := by
  unfold roundEven
  split_ifs <;> omega

theorem roundEven_le_floor_add_one (y : K) : roundEven y ≤ ⌊y⌋ + 1 := by
  unfold roundEven
  split_ifs <;> omega

/-- An integer lower bound survives the rounding. -/
theorem le_roundEven {y : K} {n : ℤ} (h : (n : K) ≤ y) : n ≤ roundEven y :=
  (Int.le_floor.mpr h).trans (floor_le_roundEven y)

variable [IsStrictOrderedRing K]

@[simp] theorem roundEven_intCast (n : ℤ) : roundEven (n : K) = n := by
  simp [roundEven]

/-- …and so does an integer upper bound. -/
theorem roundEven_le {y : K} {n : ℤ} (h : y ≤ n) : roundEven y ≤ n := by
  rcases h.eq_or_lt with rfl | hlt
  · exact (roundEven_intCast n).le
  · have hfloor : ⌊y⌋ < n := Int.floor_lt.mpr hlt
    have := roundEven_le_floor_add_one y
    omega

/-- **Above the midpoint the upper neighbour is taken**, at the midpoint an even lower one. -/
theorem roundEven_le_iff {y : K} {n : ℤ} (hn : n % 2 = 0) (hlo : (n : K) ≤ y) (hhi : y < n + 1) :
    roundEven y ≤ n ↔ y ≤ n + 1 / 2 := by
  have hfloor : ⌊y⌋ = n := Int.floor_eq_iff.mpr ⟨hlo, hhi⟩
  unfold roundEven
  rw [hfloor]
  split_ifs with h1 h2
  · exact iff_of_true le_rfl (by linarith)
  · exact iff_of_false (by omega) (by linarith)
  · exact iff_of_true le_rfl (by linarith)

/-- …and below the midpoint the lower one, at the midpoint an even upper one. -/
theorem le_roundEven_iff {y : K} {n : ℤ} (hn : n % 2 = 0) (hlo : (n : K) - 1 ≤ y) (hhi : y < n) :
    n ≤ roundEven y ↔ (n : K) - 1 / 2 ≤ y := by
  have hfloor : ⌊y⌋ = n - 1 :=
    Int.floor_eq_iff.mpr ⟨by push_cast; linarith, by push_cast; linarith⟩
  unfold roundEven
  rw [hfloor]
  push_cast
  split_ifs with h1 h2 h3
  · exact iff_of_false (by omega) (by linarith)
  · exact iff_of_true (by omega) (by linarith)
  · omega
  · exact iff_of_true (by omega) (by linarith)

theorem roundEven_neg (y : K) : roundEven (-y) = -roundEven y := by
  by_cases hint : (⌊y⌋ : K) = y
  · rw [← hint, ← Int.cast_neg, roundEven_intCast, roundEven_intCast]
  · have hlo : (⌊y⌋ : K) < y := lt_of_le_of_ne (Int.floor_le y) hint
    have hhi := Int.lt_floor_add_one y
    have hfloor : ⌊-y⌋ = -⌊y⌋ - 1 :=
      Int.floor_eq_iff.mpr ⟨by push_cast; linarith, by push_cast; linarith⟩
    unfold roundEven
    rw [hfloor]
    push_cast
    split_ifs <;> first | omega | linarith

/-- The nearest integer is within a half. -/
theorem abs_roundEven_sub_le (y : K) : |(roundEven y : K) - y| ≤ 1 / 2 := by
  have hlo := Int.floor_le y
  have hhi := Int.lt_floor_add_one y
  rw [abs_le]
  unfold roundEven
  split_ifs <;> push_cast <;> constructor <;> linarith

end RoundEven

/-! ## The format -/

namespace Binary32

/-- A rational on the binary32 grid: a 24-bit significand, no exponent below the subnormals'. -/
def Representable (x : ℚ) : Prop :=
  ∃ m e : ℤ, |m| < 2 ^ 24 ∧ -149 ≤ e ∧ x = m * 2 ^ e

/-- The exponent of the last place `x` is rounded to. -/
def exponent (x : ℚ) : ℤ := max (Int.log 2 |x| - 23) (-149)

/-- The nearest binary32 number, ties to even.  The exponent is not bounded above: a value past the
largest finite number is outside what this rounding models. -/
def round (x : ℚ) : ℚ := roundEven (x / 2 ^ exponent x) * 2 ^ exponent x

theorem two_zpow_pos (e : ℤ) : (0 : ℚ) < 2 ^ e := zpow_pos two_pos e

theorem representable_zero : Representable 0 := ⟨0, 0, by norm_num, by norm_num, by norm_num⟩

theorem Representable.neg {x : ℚ} (h : Representable x) : Representable (-x) := by
  obtain ⟨m, e, hm, he, rfl⟩ := h
  exact ⟨-m, e, by rwa [abs_neg], he, by push_cast; ring⟩

theorem exponent_neg (x : ℚ) : exponent (-x) = exponent x := by rw [exponent, exponent, abs_neg]

@[simp] theorem round_neg (x : ℚ) : round (-x) = -round x := by
  rw [round, round, exponent_neg, neg_div, roundEven_neg]
  push_cast
  ring

@[simp] theorem round_zero : round 0 = 0 := by
  have h : roundEven (0 : ℚ) = 0 := by exact_mod_cast roundEven_intCast (K := ℚ) 0
  rw [round, zero_div, h]
  simp

theorem exponent_ge (x : ℚ) : -149 ≤ exponent x := le_max_right _ _

/-- A positive value lies below the first power of two its significand cannot reach. -/
theorem lt_two_zpow_exponent {x : ℚ} (hx : 0 < x) : x < 2 ^ (exponent x + 24) := by
  have h : x < (2 : ℚ) ^ (Int.log 2 |x| + 1) := by
    rw [abs_of_pos hx]
    exact_mod_cast Int.lt_zpow_succ_log_self one_lt_two x
  refine h.trans_le (zpow_le_zpow_right₀ one_le_two ?_)
  have := le_max_left (Int.log 2 |x| - 23) (-149)
  rw [exponent]
  omega

/-- Above the subnormals, a positive value fills its 24-bit significand. -/
theorem two_zpow_exponent_le {x : ℚ} (hx : 0 < x) (h : -149 < exponent x) :
    (2 : ℚ) ^ (exponent x + 23) ≤ x := by
  have he : exponent x = Int.log 2 |x| - 23 := by
    rcases max_choice (Int.log 2 |x| - 23) (-149) with hm | hm
    · exact hm
    · exact absurd hm h.ne'
  rw [he, abs_of_pos hx, sub_add_cancel]
  exact_mod_cast Int.zpow_log_le_self one_lt_two hx

/-- The exponent of a value inside the binade `[2^(e+23), 2^(e+24))`. -/
theorem exponent_eq {x : ℚ} {e : ℤ} (he : -149 ≤ e) (hlo : (2 : ℚ) ^ (e + 23) ≤ x)
    (hhi : x < 2 ^ (e + 24)) : exponent x = e := by
  have hx : 0 < x := (two_zpow_pos _).trans_le hlo
  have h1 : e + 23 ≤ Int.log 2 x :=
    (Int.zpow_le_iff_le_log one_lt_two hx).mp (by exact_mod_cast hlo)
  have h2 : Int.log 2 x < e + 24 :=
    (Int.lt_zpow_iff_log_lt one_lt_two hx).mp (by exact_mod_cast hhi)
  rw [exponent, abs_of_pos hx]
  omega

/-! ## Comparison with a representable number -/

/-- A representable number with an exponent at or above `e` is a whole multiple of `2^e`. -/
theorem exists_intCast_mul {m k e : ℤ} (h : e ≤ k) :
    ∃ n : ℤ, (m : ℚ) * 2 ^ k = n * 2 ^ e := by
  refine ⟨m * 2 ^ (k - e).toNat, ?_⟩
  have hk : (2 : ℚ) ^ k = 2 ^ (k - e).toNat * 2 ^ e := by
    rw [← zpow_natCast, Int.toNat_of_nonneg (by omega), ← zpow_add₀ two_ne_zero, sub_add_cancel]
  push_cast
  rw [hk, mul_assoc]

private theorem round_le_of_le_pos {x F : ℚ} (hF : Representable F) (hx : 0 < x) (h : x ≤ F) :
    round x ≤ F := by
  obtain ⟨m, k, hm, hk, rfl⟩ := hF
  have hp := two_zpow_pos (exponent x)
  have hek : exponent x ≤ k := by
    by_contra hlt
    have h1 := two_zpow_exponent_le hx (by omega)
    have h2 : (m : ℚ) * 2 ^ k < 2 ^ (k + 24) := by
      have hm' : (m : ℚ) < 2 ^ 24 := by exact_mod_cast (le_abs_self m).trans_lt hm
      rw [add_comm, zpow_add₀ two_ne_zero]
      exact mul_lt_mul_of_pos_right (by exact_mod_cast hm') (two_zpow_pos k)
    have h3 : (2 : ℚ) ^ (k + 24) ≤ 2 ^ (exponent x + 23) :=
      zpow_le_zpow_right₀ one_le_two (by omega)
    linarith
  obtain ⟨n, hn⟩ := exists_intCast_mul (m := m) hek
  rw [hn] at h ⊢
  have hr : roundEven (x / 2 ^ exponent x) ≤ n := roundEven_le ((div_le_iff₀ hp).mpr h)
  exact mul_le_mul_of_nonneg_right (by exact_mod_cast hr) hp.le

private theorem le_round_of_le_pos {x F : ℚ} (hF : Representable F) (hx : 0 < x) (h : F ≤ x) :
    F ≤ round x := by
  obtain ⟨m, k, hm, hk, rfl⟩ := hF
  have hp := two_zpow_pos (exponent x)
  rcases le_or_gt (exponent x) k with hek | hek
  · obtain ⟨n, hn⟩ := exists_intCast_mul (m := m) hek
    rw [hn] at h ⊢
    have hr : n ≤ roundEven (x / 2 ^ exponent x) := le_roundEven ((le_div_iff₀ hp).mpr h)
    exact mul_le_mul_of_nonneg_right (by exact_mod_cast hr) hp.le
  · have h1 : (m : ℚ) * 2 ^ k ≤ 2 ^ (exponent x + 23) := by
      have hm' : (m : ℚ) ≤ 2 ^ 24 := by exact_mod_cast ((le_abs_self m).trans_lt hm).le
      calc (m : ℚ) * 2 ^ k ≤ 2 ^ (24 : ℤ) * 2 ^ k :=
            mul_le_mul_of_nonneg_right (by exact_mod_cast hm') (two_zpow_pos k).le
        _ = 2 ^ (24 + k) := (zpow_add₀ two_ne_zero _ _).symm
        _ ≤ 2 ^ (exponent x + 23) := zpow_le_zpow_right₀ one_le_two (by omega)
    have h2 := two_zpow_exponent_le hx (by omega)
    have hs : (2 : ℚ) ^ (exponent x + 23) = ((2 ^ 23 : ℤ) : ℚ) * 2 ^ exponent x := by
      rw [add_comm, zpow_add₀ two_ne_zero]
      norm_num
    rw [hs] at h1 h2
    have hr : (2 ^ 23 : ℤ) ≤ roundEven (x / 2 ^ exponent x) :=
      le_roundEven ((le_div_iff₀ hp).mpr h2)
    exact h1.trans (mul_le_mul_of_nonneg_right (by exact_mod_cast hr) hp.le)

theorem round_nonneg {x : ℚ} (h : 0 ≤ x) : 0 ≤ round x := by
  rcases h.eq_or_lt with rfl | hx
  · exact round_zero.ge
  · exact le_round_of_le_pos representable_zero hx h

/-- **A representable upper bound survives the rounding.** -/
theorem round_le_of_le {x F : ℚ} (hF : Representable F) (h : x ≤ F) : round x ≤ F := by
  rcases lt_trichotomy x 0 with hx | rfl | hx
  · rcases le_or_gt 0 F with h0 | h0
    · have := round_nonneg (neg_nonneg.mpr hx.le)
      rw [round_neg] at this
      linarith
    · have := le_round_of_le_pos hF.neg (neg_pos.mpr hx) (neg_le_neg h)
      rw [round_neg] at this
      linarith
  · rwa [round_zero]
  · exact round_le_of_le_pos hF hx h

/-- **…and so does a representable lower bound.** -/
theorem le_round_of_le {x F : ℚ} (hF : Representable F) (h : F ≤ x) : F ≤ round x := by
  have := round_le_of_le hF.neg (neg_le_neg h)
  rw [round_neg] at this
  linarith

/-- **A representable number is its own rounding.** -/
theorem round_eq_self {x : ℚ} (h : Representable x) : round x = x :=
  le_antisymm (round_le_of_le h le_rfl) (le_round_of_le h le_rfl)

/-- **What is rounded is representable** — a significand carried to `2^24` is `2^23` one place
up. -/
theorem representable_round (x : ℚ) : Representable (round x) := by
  wlog hx : 0 < x generalizing x
  · rcases (not_lt.mp hx).eq_or_lt with rfl | hneg
    · rw [round_zero]
      exact representable_zero
    · have h := (this (-x) (neg_pos.mpr hneg)).neg
      rwa [round_neg, neg_neg] at h
  have hp := two_zpow_pos (exponent x)
  have h0 : 0 ≤ roundEven (x / 2 ^ exponent x) :=
    le_roundEven (by exact_mod_cast div_nonneg hx.le hp.le)
  have hle : roundEven (x / 2 ^ exponent x) ≤ 2 ^ 24 := by
    refine roundEven_le ((div_le_iff₀ hp).mpr ?_)
    have h := (lt_two_zpow_exponent hx).le
    rw [add_comm, zpow_add₀ two_ne_zero] at h
    exact_mod_cast h
  rcases hle.eq_or_lt with heq | hlt
  · refine ⟨2 ^ 23, exponent x + 1, by norm_num, by linarith [exponent_ge x], ?_⟩
    rw [round, heq, zpow_add_one₀ two_ne_zero]
    push_cast
    ring
  · exact ⟨_, exponent x, by rwa [abs_of_nonneg h0], exponent_ge x, rfl⟩

@[simp] theorem round_round (x : ℚ) : round (round x) = round x :=
  round_eq_self (representable_round x)

/-- A finite binary32 number. -/
structure Finite where
  val : ℚ
  representable : Representable val
  lt : |val| < 2 ^ 128

@[simp] theorem round_val (x : Finite) : round x.val = x.val := round_eq_self x.representable

/-- **Two neighbours of a binade have nothing in between.** -/
theorem Representable.succ_le {x : ℚ} (hx : Representable x) {n e : ℤ} (hn : 2 ^ 23 ≤ n)
    (h : n * 2 ^ e < x) : ((n : ℚ) + 1) * 2 ^ e ≤ x := by
  obtain ⟨m, k, hm, -, rfl⟩ := hx
  have hek : e ≤ k := by
    have hm' : (m : ℚ) < 2 ^ 24 := by exact_mod_cast (le_abs_self m).trans_lt hm
    have hn' : (2 : ℚ) ^ 23 ≤ n := by exact_mod_cast hn
    have hlt : (2 : ℚ) ^ (23 + e) < 2 ^ (24 + k) := by
      rw [zpow_add₀ two_ne_zero, zpow_add₀ two_ne_zero]
      exact ((mul_le_mul_of_nonneg_right (by exact_mod_cast hn') (two_zpow_pos e).le).trans_lt
        h).trans (mul_lt_mul_of_pos_right (by exact_mod_cast hm') (two_zpow_pos k))
    have := (zpow_lt_zpow_iff_right₀ one_lt_two).mp hlt
    omega
  obtain ⟨j, hj⟩ := exists_intCast_mul (m := m) hek
  rw [hj] at h ⊢
  have hnj : n < j := by exact_mod_cast lt_of_mul_lt_mul_right h (two_zpow_pos e).le
  exact mul_le_mul_of_nonneg_right (by exact_mod_cast hnj) (two_zpow_pos e).le

/-! ## The size of the error -/

/-- **Half a unit in the last place.** -/
theorem abs_round_sub_le (x : ℚ) : |round x - x| ≤ 2 ^ exponent x / 2 := by
  have hp := two_zpow_pos (exponent x)
  have hsplit : round x - x = (roundEven (x / 2 ^ exponent x) - x / 2 ^ exponent x)
      * 2 ^ exponent x := by
    rw [sub_mul, div_mul_cancel₀ _ hp.ne', round]
  rw [hsplit, abs_mul, abs_of_pos hp]
  calc |(roundEven (x / 2 ^ exponent x) : ℚ) - x / 2 ^ exponent x| * 2 ^ exponent x
      ≤ 1 / 2 * 2 ^ exponent x := mul_le_mul_of_nonneg_right (abs_roundEven_sub_le _) hp.le
    _ = 2 ^ exponent x / 2 := by ring

/-- A unit in the last place does not get smaller as the magnitude grows. -/
theorem exponent_mono {x y : ℚ} (hx : x ≠ 0) (h : |x| ≤ |y|) : exponent x ≤ exponent y :=
  max_le_max_right _ (sub_le_sub_right (Int.log_mono_right (abs_pos.mpr hx) h) _)

/-- **The error is relative to a normal number** that is at least the one that is rounded. -/
theorem abs_round_sub_le_mul_of_le {x y : ℚ} (hy : 0 < y) (hyx : y ≤ x)
    (hx : 2 ^ (-126 : ℤ) ≤ x) : |round y - y| ≤ 2 ^ (-24 : ℤ) * x := by
  have hlo : (2 : ℚ) ^ (exponent y + 23) ≤ x := by
    obtain h | h := (exponent_ge y).eq_or_lt
    · rw [← h]
      exact hx
    · exact (two_zpow_exponent_le hy h).trans hyx
  calc |round y - y| ≤ 2 ^ exponent y / 2 := abs_round_sub_le y
    _ = 2 ^ (-24 : ℤ) * 2 ^ (exponent y + 23) := by
        rw [← zpow_add₀ two_ne_zero, div_eq_mul_inv, ← zpow_neg_one, ← zpow_add₀ two_ne_zero]
        congr 1
        ring
    _ ≤ 2 ^ (-24 : ℤ) * x := mul_le_mul_of_nonneg_left hlo (two_zpow_pos _).le

/-- **Above the subnormals the error is relative.** -/
theorem abs_round_sub_le_mul {x : ℚ} (hx : 2 ^ (-126 : ℤ) ≤ x) :
    |round x - x| ≤ 2 ^ (-24 : ℤ) * x :=
  abs_round_sub_le_mul_of_le ((two_zpow_pos _).trans_le hx) le_rfl hx

/-- A rounded normal number is the number, to seven digits. -/
theorem round_mem_relative {x : ℚ} (hx : 2 ^ (-126 : ℤ) ≤ x) :
    (1 - 1e-7) * x ≤ round x ∧ round x ≤ (1 + 1e-7) * x := by
  have hpos : 0 < x := (two_zpow_pos _).trans_le hx
  have hε : (2 : ℚ) ^ (-24 : ℤ) * x ≤ 1e-7 * x := mul_le_mul_of_nonneg_right (by norm_num) hpos.le
  obtain ⟨hlo, hhi⟩ := abs_le.mp ((abs_round_sub_le_mul hx).trans hε)
  constructor <;> linarith

/-! ## Where the boundary lies

Between two neighbours `n·2^e` and `(n±1)·2^e` of one binade, `n` even. -/

private theorem round_of_binade {x : ℚ} {e : ℤ} (he : -149 ≤ e) (hlo : (2 : ℚ) ^ (e + 23) ≤ x)
    (hhi : x < 2 ^ (e + 24)) : round x = roundEven (x / 2 ^ e) * 2 ^ e := by
  rw [round, exponent_eq he hlo hhi]

private theorem two_pow_mul (j : ℕ) (e : ℤ) : (2 : ℚ) ^ (e + j) = 2 ^ j * 2 ^ e := by
  rw [add_comm, zpow_add₀ two_ne_zero, zpow_natCast]

/-- **The boundary above an even neighbour.** -/
theorem round_le_iff {x : ℚ} {n e : ℤ} (he : -149 ≤ e) (hn : n % 2 = 0) (hlo : 2 ^ 23 ≤ n)
    (hhi : n < 2 ^ 24 - 1) : round x ≤ n * 2 ^ e ↔ x ≤ (n + 1 / 2) * 2 ^ e := by
  have hp := two_zpow_pos e
  have hn0 : (2 : ℚ) ^ 23 ≤ n := by exact_mod_cast hlo
  have hn1 : (n : ℚ) + 1 < 2 ^ 24 := by
    have : n + 1 < (2 ^ 24 : ℤ) := by omega
    exact_mod_cast this
  have hrep : Representable (n * 2 ^ e) := ⟨n, e, by rw [abs_of_nonneg] <;> omega, he, rfl⟩
  have hrep' : Representable (((n : ℚ) + 1) * 2 ^ e) :=
    ⟨n + 1, e, by rw [abs_of_nonneg] <;> omega, he, by push_cast; ring⟩
  rcases le_or_gt x (n * 2 ^ e) with h | h
  · refine iff_of_true (round_le_of_le hrep h) (h.trans ?_)
    exact mul_le_mul_of_nonneg_right (by linarith) hp.le
  rcases le_or_gt (((n : ℚ) + 1) * 2 ^ e) x with h' | h'
  · refine iff_of_false (not_le.mpr ?_) (not_le.mpr ?_)
    · exact (mul_lt_mul_of_pos_right (by linarith) hp).trans_le (le_round_of_le hrep' h')
    · exact (mul_lt_mul_of_pos_right (by linarith) hp).trans_le h'
  · rw [round_of_binade he
        ((two_pow_mul 23 e).trans_le ((mul_le_mul_of_nonneg_right hn0 hp.le).trans h.le))
        (h'.trans ((mul_lt_mul_of_pos_right hn1 hp).trans_eq (two_pow_mul 24 e).symm)),
      mul_le_mul_iff_left₀ hp, Int.cast_le,
      roundEven_le_iff hn ((le_div_iff₀ hp).mpr h.le) ((div_lt_iff₀ hp).mpr h'), div_le_iff₀ hp]

/-- **The boundary below an even neighbour.** -/
theorem le_round_iff {x : ℚ} {n e : ℤ} (he : -149 ≤ e) (hn : n % 2 = 0) (hlo : 2 ^ 23 < n)
    (hhi : n < 2 ^ 24) : n * 2 ^ e ≤ round x ↔ (n - 1 / 2) * 2 ^ e ≤ x := by
  have hp := two_zpow_pos e
  have hn0 : (2 : ℚ) ^ 23 ≤ n - 1 := by
    have : (2 ^ 23 : ℤ) ≤ n - 1 := by omega
    exact_mod_cast this
  have hn1 : (n : ℚ) < 2 ^ 24 := by exact_mod_cast hhi
  have hrep : Representable (n * 2 ^ e) := ⟨n, e, by rw [abs_of_nonneg] <;> omega, he, rfl⟩
  have hrep' : Representable (((n : ℚ) - 1) * 2 ^ e) :=
    ⟨n - 1, e, by rw [abs_of_nonneg] <;> omega, he, by push_cast; ring⟩
  rcases le_or_gt ((n : ℚ) * 2 ^ e) x with h | h
  · refine iff_of_true (le_round_of_le hrep h) (le_trans ?_ h)
    exact mul_le_mul_of_nonneg_right (by linarith) hp.le
  rcases lt_or_ge x (((n : ℚ) - 1) * 2 ^ e) with h' | h'
  · refine iff_of_false (not_le.mpr ?_) (not_le.mpr ?_)
    · exact (round_le_of_le hrep' h'.le).trans_lt (mul_lt_mul_of_pos_right (by linarith) hp)
    · exact h'.trans (mul_lt_mul_of_pos_right (by linarith) hp)
  · rw [round_of_binade he
        ((two_pow_mul 23 e).trans_le ((mul_le_mul_of_nonneg_right hn0 hp.le).trans h'))
        (h.trans ((mul_lt_mul_of_pos_right hn1 hp).trans_eq (two_pow_mul 24 e).symm)),
      mul_le_mul_iff_left₀ hp, Int.cast_le,
      le_roundEven_iff hn ((le_div_iff₀ hp).mpr h') ((div_lt_iff₀ hp).mpr h), le_div_iff₀ hp]

/-- **The boundary of the underflow**: half the smallest subnormal, the tie included, becomes
zero. -/
theorem round_eq_zero_iff {x : ℚ} (hx : 0 ≤ x) : round x = 0 ↔ x ≤ 2 ^ (-150 : ℤ) := by
  have hp := two_zpow_pos (-149)
  have hhalf : (2 : ℚ) ^ (-150 : ℤ) = (0 + 1 / 2) * 2 ^ (-149 : ℤ) := by norm_num
  rcases hx.eq_or_lt with rfl | hx
  · exact iff_of_true round_zero (two_zpow_pos _).le
  rcases le_or_gt ((2 : ℚ) ^ (-149 : ℤ)) x with h | h
  · have hrep : Representable ((2 : ℚ) ^ (-149 : ℤ)) :=
      ⟨1, -149, by norm_num, le_rfl, by rw [Int.cast_one, one_mul]⟩
    refine iff_of_false (hp.trans_le (le_round_of_le hrep h)).ne' (not_le.mpr (lt_of_lt_of_le ?_ h))
    rw [hhalf]
    linarith
  · have he : exponent x = -149 := by
      by_contra hne
      have h1 := two_zpow_exponent_le hx (lt_of_le_of_ne (exponent_ge x) (Ne.symm hne))
      have h2 : (2 : ℚ) ^ (-149 : ℤ) ≤ 2 ^ (exponent x + 23) :=
        zpow_le_zpow_right₀ one_le_two (by linarith [exponent_ge x])
      linarith
    have h0 : 0 ≤ roundEven (x / 2 ^ (-149 : ℤ)) :=
      le_roundEven (by exact_mod_cast div_nonneg hx.le hp.le)
    have hiff := roundEven_le_iff (y := x / 2 ^ (-149 : ℤ)) (n := 0) rfl
      (by exact_mod_cast div_nonneg hx.le hp.le) (by simpa using (div_lt_one hp).mpr h)
    rw [Int.cast_zero, div_le_iff₀ hp, ← hhalf] at hiff
    rw [← hiff, round, he, mul_eq_zero, or_iff_left hp.ne', Int.cast_eq_zero]
    omega

end Binary32

end EmbeddedMCU

import EmbeddedMCU.SimpleFoc.Utils
import Mathlib.Analysis.Real.Sqrt

/-!
# SimpleFoc/SqrtApprox — the error of the bit-trick square root

    x = m·2^e,  y = n·2^f        m + 2n + (e + 2f + 447)·2^23 = 2·0x5f375a86 + the bit shifted out

The integers of the bits add up, so `e + 2f` is one of three numbers and `m + 2n` is then constant,
but for the bit shifted out (`rootBits_pieces`).  A product `m·n²` at constant `m + 2n` is largest
where the two are equal and smallest at an end of the range (`mul_sq_mem`): three pieces, one bound.
-/

namespace EmbeddedMCU

/-! ## A product at a constant sum -/

section MulSq

variable {K : Type*} [Field K] [LinearOrder K] [IsStrictOrderedRing K]

/-- **At a constant sum the product is largest where the parts are equal.** -/
theorem mul_sq_le {p q : K} (hp : 0 ≤ p) (hq : 0 ≤ q) : p * q ^ 2 ≤ ((p + 2 * q) / 3) ^ 3 := by
  have h : 0 ≤ (p - q) ^ 2 * (p + 8 * q) := by positivity
  have hdiff : ((p + 2 * q) / 3) ^ 3 - p * q ^ 2 = (p - q) ^ 2 * (p + 8 * q) / 27 := by ring
  linarith [div_nonneg h (by norm_num : (0 : K) ≤ 27)]

/-- **…and smallest at an end of the range**: it grows up to a third of the sum, and falls from
there on. -/
theorem min_le_sub_mul_sq {s q q₀ q₁ : K} (h : 0 ≤ q₀) (h0 : q₀ ≤ q) (h1 : q ≤ q₁) :
    min ((s - 2 * q₀) * q₀ ^ 2) ((s - 2 * q₁) * q₁ ^ 2) ≤ (s - 2 * q) * q ^ 2 := by
  have hq : 0 ≤ q := h.trans h0
  obtain hs | hs := le_total (3 * q) s
  · refine (min_le_left _ _).trans ?_
    have hgrow : 0 ≤ (q - q₀) * (s * (q + q₀) - 2 * (q ^ 2 + q * q₀ + q₀ ^ 2)) := by
      refine mul_nonneg (by linarith) ?_
      nlinarith [mul_le_mul_of_nonneg_right hs (by linarith : 0 ≤ q + q₀), mul_nonneg h hq,
        mul_nonneg h (by linarith : 0 ≤ q - q₀), sq_nonneg (q - q₀)]
    linarith
  · refine (min_le_right _ _).trans ?_
    have hfall : 0 ≤ (q₁ - q) * (2 * (q₁ ^ 2 + q₁ * q + q ^ 2) - s * (q₁ + q)) := by
      refine mul_nonneg (by linarith) ?_
      nlinarith [mul_le_mul_of_nonneg_right hs (by linarith : 0 ≤ q₁ + q),
        mul_nonneg hq (by linarith : 0 ≤ q₁ - q), sq_nonneg (q₁ - q)]
    linarith

/-- Both bounds, at a sum known up to one. -/
theorem mul_sq_mem {s p q q₀ q₁ lo hi : K} (hp : 0 ≤ p) (h : 0 ≤ q₀) (h0 : q₀ ≤ q) (h1 : q ≤ q₁)
    (hs : s ≤ p + 2 * q) (hs' : p + 2 * q ≤ s + 1) (hlo : lo ≤ (s - 2 * q₀) * q₀ ^ 2)
    (hlo' : lo ≤ (s - 2 * q₁) * q₁ ^ 2) (hhi : ((s + 1) / 3) ^ 3 ≤ hi) :
    lo ≤ p * q ^ 2 ∧ p * q ^ 2 ≤ hi := by
  have hq : 0 ≤ q := h.trans h0
  constructor
  · calc lo ≤ (s - 2 * q) * q ^ 2 := (le_min hlo hlo').trans (min_le_sub_mul_sq h h0 h1)
      _ ≤ p * q ^ 2 := mul_le_mul_of_nonneg_right (by linarith) (sq_nonneg q)
  · calc p * q ^ 2 ≤ ((p + 2 * q) / 3) ^ 3 := mul_sq_le hp hq
      _ ≤ ((s + 1) / 3) ^ 3 := by gcongr
      _ ≤ hi := hhi

end MulSq

namespace FocUtils

open Binary32

/-! ## The bits -/

/-- `i >> 1` is a half, rounded down. -/
theorem toInt_shiftRight_one (i : Int32) : (i >>> 1).toInt = i.toInt / 2 := by
  have hone : (BitVec.smod (1 : Int32).toBitVec 32).toNat = 1 := by decide
  rw [← Int32.toInt_toBitVec]
  change (BitVec.sshiftRight' _ _).toInt = _
  rw [BitVec.toInt_sshiftRight', hone, Int.shiftRight_eq_div_pow]
  rfl

theorem toInt_sub_shiftRight {K i : Int32} (hK : 2 ^ 30 ≤ K.toInt) (h0 : 0 ≤ i.toInt) :
    (K - (i >>> 1)).toInt = K.toInt - i.toInt / 2 := by
  have hlt := Int32.toInt_lt i
  have hlt' := Int32.toInt_lt K
  rw [Int32.toInt_sub, toInt_shiftRight_one]
  exact Int.bmod_eq_of_le (by omega) (by omega)

/-- **The bits of a number, and twice what is left when their half is taken from a constant, add up
to twice the constant**, but for the bit shifted out; and the subtraction does not leave the
positive normal numbers. -/
theorem exists_subParts {K : Int32} (hlo : 129 * 2 ^ 23 ≤ K.toInt) (hhi : K.toInt < 255 * 2 ^ 23)
    {m e : ℤ} (h : NormalParts m e) :
    ∃ n f, NormalParts n f ∧ ofBits (K - (toBits (m * 2 ^ e) >>> 1)) = n * 2 ^ f
      ∧ 2 * K.toInt ≤ m + 2 * n + (e + 2 * f + 447) * 2 ^ 23
      ∧ m + 2 * n + (e + 2 * f + 447) * 2 ^ 23 ≤ 2 * K.toInt + 1 := by
  have hx := toInt_toBits h
  obtain ⟨h1, h2, h3, h4⟩ := h
  have hy := toInt_sub_shiftRight (K := K) (i := toBits (m * 2 ^ e)) (by omega) (by omega)
  obtain ⟨n, f, hparts, hn⟩ := exists_normalParts
    (n := (K - (toBits (m * 2 ^ e) >>> 1)).toInt) (by omega) (by omega)
  refine ⟨n, f, hparts, ofBits_of_toInt hparts hn, ?_, ?_⟩ <;> omega

/-- The bits of the number and twice those of the root add up to a constant. -/
theorem exists_rootParts {m e : ℤ} (h : NormalParts m e) :
    ∃ n f, NormalParts n f ∧ ofBits (rootBits (toBits (m * 2 ^ e))) = n * 2 ^ f
      ∧ 2 * 0x5f375a86 ≤ m + 2 * n + (e + 2 * f + 447) * 2 ^ 23
      ∧ m + 2 * n + (e + 2 * f + 447) * 2 ^ 23 ≤ 2 * 0x5f375a86 + 1 :=
  exists_subParts (K := 0x5f375a86) (by decide) (by decide) h

/-! ## The three pieces -/

/-- One piece: the significands add up to `s`, the root's lies between `q₀` and `q₁`. -/
theorem rootBits_piece {m n : ℤ} {lo hi : ℚ} (s q₀ q₁ : ℤ) (k : ℕ) (hm : 0 ≤ m) (h : 0 ≤ q₀)
    (h0 : q₀ ≤ n) (h1 : n ≤ q₁) (hs : s ≤ m + 2 * n) (hs' : m + 2 * n ≤ s + 1)
    (hlo : lo * 2 ^ k ≤ ((s - 2 * q₀) * q₀ ^ 2 : ℚ))
    (hlo' : lo * 2 ^ k ≤ ((s - 2 * q₁) * q₁ ^ 2 : ℚ))
    (hhi : (((s : ℚ) + 1) / 3) ^ 3 ≤ hi * 2 ^ k) :
    lo ≤ (m : ℚ) * n ^ 2 * 2 ^ (-k : ℤ) ∧ (m : ℚ) * n ^ 2 * 2 ^ (-k : ℤ) ≤ hi := by
  rw [zpow_neg, zpow_natCast, ← div_eq_mul_inv, le_div_iff₀ (by positivity),
    div_le_iff₀ (by positivity)]
  exact mul_sq_mem (Int.cast_nonneg hm) (Int.cast_nonneg h) (Int.cast_le.mpr h0)
    (Int.cast_le.mpr h1) (by exact_mod_cast hs) (by exact_mod_cast hs') hlo hlo' hhi

/-- **In each of the three pieces the product is near a power of two.** -/
theorem rootBits_pieces {m e n f : ℤ} (hm : NormalParts m e) (hn : NormalParts n f)
    (hs : 2 * 0x5f375a86 ≤ m + 2 * n + (e + 2 * f + 447) * 2 ^ 23)
    (hs' : m + 2 * n + (e + 2 * f + 447) * 2 ^ 23 ≤ 2 * 0x5f375a86 + 1) :
    0.96 ^ 2 ≤ (m : ℚ) * n ^ 2 * 2 ^ (e + 2 * f)
      ∧ (m : ℚ) * n ^ 2 * 2 ^ (e + 2 * f) ≤ 1.04 ^ 2 := by
  obtain ⟨hm1, hm2, -, -⟩ := hm
  obtain ⟨hn1, hn2, -, -⟩ := hn
  have hexp : e + 2 * f = -72 ∨ e + 2 * f = -71 ∨ e + 2 * f = -70 := by omega
  obtain hexp | hexp | hexp := hexp <;> rw [hexp] at hs hs' ⊢
  · exact rootBits_piece 49198348 16210567 16777215 72 (by omega) (by omega) (by omega) (by omega)
      (by omega) (by omega) (by norm_num) (by norm_num) (by norm_num)
  · exact rootBits_piece 40809740 12016263 16210566 71 (by omega) (by omega) (by omega) (by omega)
      (by omega) (by omega) (by norm_num) (by norm_num) (by norm_num)
  · exact rootBits_piece 32421132 8388608 12016262 70 (by omega) (by omega) (by omega) (by omega)
      (by omega) (by omega) (by norm_num) (by norm_num) (by norm_num)

/-! ## The error -/

/-- The pattern decodes to a positive normal number, and the square of the product is the number
itself, to 4% in the root. -/
theorem mul_rootBits {x : ℚ} (hx : PosNormal x) :
    PosNormal (ofBits (rootBits (toBits x)))
      ∧ 0.96 ^ 2 * x ≤ (x * ofBits (rootBits (toBits x))) ^ 2
      ∧ (x * ofBits (rootBits (toBits x))) ^ 2 ≤ 1.04 ^ 2 * x := by
  have hpos : 0 < x := (two_zpow_pos _).trans_le hx.le
  obtain ⟨m, e, h, rfl⟩ := hx.exists_parts
  obtain ⟨n, f, hparts, hy, hs, hs'⟩ := exists_rootParts h
  obtain ⟨hlo, hhi⟩ := rootBits_pieces h hparts hs hs'
  have hsq : (m * 2 ^ e * (n * 2 ^ f : ℚ)) ^ 2 = m * n ^ 2 * 2 ^ (e + 2 * f) * (m * 2 ^ e) := by
    rw [zpow_add₀ two_ne_zero, two_mul, zpow_add₀ two_ne_zero]
    ring
  rw [hy, hsq]
  exact ⟨hparts.posNormal, mul_le_mul_of_nonneg_right hlo hpos.le,
    mul_le_mul_of_nonneg_right hhi hpos.le⟩

/-- A relative bound on the square is one on the root. -/
theorem abs_sub_sqrt_le {x r : ℝ} (hx : 0 ≤ x) (hr : 0 ≤ r) (hlo : 0.96 ^ 2 * x ≤ r ^ 2)
    (hhi : r ^ 2 ≤ 1.04 ^ 2 * x) : |r - √x| ≤ 0.04 * √x := by
  have hroot : 0 ≤ √x := Real.sqrt_nonneg x
  have h1 : 0.96 * √x ≤ r := by
    rw [← sq_le_sq₀ (by positivity) hr, mul_pow, Real.sq_sqrt hx]
    exact hlo
  have h2 : r ≤ 1.04 * √x := by
    rw [← sq_le_sq₀ hr (by positivity), mul_pow, Real.sq_sqrt hx]
    exact hhi
  rw [abs_le]
  constructor <;> linarith

variable (atan2 : ℚ → ℚ → ℚ) (sqrt : ℚ → ℚ)

/-- **Within 4% of the root, for every positive normal number.** -/
theorem sqrtApprox_error {x : ℚ} (hx : PosNormal x) :
    ofBits (toBits x) = x
      ∧ PosNormal (ofBits (rootBits (toBits x)))
      ∧ sqrtApprox (.exact atan2 sqrt) x = x * ofBits (rootBits (toBits x))
      ∧ 0.96 ^ 2 * x ≤ (x * ofBits (rootBits (toBits x))) ^ 2
      ∧ (x * ofBits (rootBits (toBits x))) ^ 2 ≤ 1.04 ^ 2 * x
      ∧ |((sqrtApprox (.exact atan2 sqrt) x : ℚ) : ℝ) - √x| ≤ 0.04 * √x := by
  obtain ⟨hnormal, hlo, hhi⟩ := mul_rootBits hx
  have hx0 : 0 ≤ x := (two_zpow_pos _).le.trans hx.le
  have hy0 : 0 ≤ ofBits (rootBits (toBits x)) := (two_zpow_pos _).le.trans hnormal.le
  have hread : sqrtApprox (.exact atan2 sqrt) x = x * ofBits (rootBits (toBits x)) := rfl
  have hlo' := Rat.cast_le (K := ℝ).mpr hlo
  have hhi' := Rat.cast_le (K := ℝ).mpr hhi
  refine ⟨ofBits_toBits hx, hnormal, hread, hlo, hhi, ?_⟩
  rw [hread]
  refine abs_sub_sqrt_le (Rat.cast_nonneg.mpr hx0) (Rat.cast_nonneg.mpr (mul_nonneg hx0 hy0)) ?_ ?_
  · push_cast at hlo' ⊢
    exact hlo'
  · push_cast at hhi' ⊢
    exact hhi'

/-- The square of twelve volts. -/
theorem sqrtApprox_error_twelve :
    ofBits (toBits 144) = 144
      ∧ PosNormal (ofBits (rootBits (toBits 144)))
      ∧ sqrtApprox (.exact (fun _ _ => 0) id) 144 = 144 * ofBits (rootBits (toBits 144))
      ∧ 0.96 ^ 2 * 144 ≤ (144 * ofBits (rootBits (toBits 144))) ^ 2
      ∧ (144 * ofBits (rootBits (toBits 144))) ^ 2 ≤ 1.04 ^ 2 * 144
      ∧ |((sqrtApprox (.exact (fun _ _ => 0) id) 144 : ℚ) : ℝ) - √((144 : ℚ) : ℝ)|
          ≤ 0.04 * √((144 : ℚ) : ℝ) :=
  sqrtApprox_error (fun _ _ => 0) id
    ⟨⟨144, 0, by norm_num, by norm_num, by norm_num⟩, by norm_num, by norm_num⟩

end FocUtils

end EmbeddedMCU

import EmbeddedMCU.Machinery.Fmod
import EmbeddedMCU.Machinery.Binary32Bits
import Mathlib.Data.List.GetD

/-!
# SimpleFoc/Utils — `foc_utils`: constants, table sine, angle normalisation

The target computes in `float`, with `double` in between.  `FloatModel` is the reading of that
arithmetic: `store` is what a value becomes when it is put in a `float` variable, parameter or
return value, everything in between being exact.  `FloatModel.exact` reads `float` as exact
arithmetic, `FloatModel.binary32` rounds at every store.
-/

namespace EmbeddedMCU

/-- A reading of the target's `float`, with the two routines nothing is assumed about. -/
structure FloatModel where
  /-- What a value becomes when it is stored to a `float`. -/
  store : ℚ → ℚ
  /-- `atan2` of the C library. -/
  atan2 : ℚ → ℚ → ℚ
  /-- The `_sqrt` macro. -/
  sqrt : ℚ → ℚ

namespace FloatModel

/-- Exact arithmetic: a store changes nothing. -/
def exact (atan2 : ℚ → ℚ → ℚ) (sqrt : ℚ → ℚ) : FloatModel := ⟨id, atan2, sqrt⟩

/-- Every store rounds to the nearest binary32 number. -/
def binary32 (atan2 : ℚ → ℚ → ℚ) (sqrt : ℚ → ℚ) : FloatModel := ⟨Binary32.round, atan2, sqrt⟩

@[simp] theorem exact_store (atan2 : ℚ → ℚ → ℚ) (sqrt : ℚ → ℚ) (x : ℚ) :
    (exact atan2 sqrt).store x = x := rfl

@[simp] theorem binary32_store (atan2 : ℚ → ℚ → ℚ) (sqrt : ℚ → ℚ) (x : ℚ) :
    (binary32 atan2 sqrt).store x = Binary32.round x := rfl

end FloatModel

namespace FocUtils

/-! ## Constants, as written -/

/-- `_SQRT3` -/
def sqrt3 : ℚ := 1.73205080757
/-- `_PI` -/
def pi : ℚ := 3.14159265359
/-- `_PI_2` -/
def pi_2 : ℚ := 1.57079632679
/-- `_PI_3` -/
def pi_3 : ℚ := 1.0471975512
/-- `_2PI` -/
def twoPi : ℚ := 6.28318530718
/-- `_3PI_2` -/
def threePi_2 : ℚ := 4.71238898038

theorem twoPi_pos : 0 < twoPi := by norm_num [twoPi]

theorem pi_3_pos : 0 < pi_3 := by norm_num [pi_3]

/-- **Six sectors cover the turn** — `_PI_3` is rounded up, `_2PI` down. -/
theorem twoPi_lt_six_pi_3 : twoPi < 6 * pi_3 := by norm_num [twoPi, pi_3]

theorem pi_3_lt_pi_2 : pi_3 < pi_2 := by norm_num [pi_3, pi_2]

theorem twoPi_eq_two_pi : twoPi = 2 * pi := by norm_num [twoPi, pi]

/-! ## The table sine -/

/-- `sine_array`: `10000·sin` at 200 points of a quarter turn. -/
def sineArray : List ℤ :=
  [0, 79, 158, 237, 316, 395, 473, 552, 631, 710, 789, 867, 946, 1024, 1103, 1181, 1260, 1338,
   1416, 1494, 1572, 1650, 1728, 1806, 1883, 1961, 2038, 2115, 2192, 2269, 2346, 2423, 2499, 2575,
   2652, 2728, 2804, 2879, 2955, 3030, 3105, 3180, 3255, 3329, 3404, 3478, 3552, 3625, 3699, 3772,
   3845, 3918, 3990, 4063, 4135, 4206, 4278, 4349, 4420, 4491, 4561, 4631, 4701, 4770, 4840, 4909,
   4977, 5046, 5113, 5181, 5249, 5316, 5382, 5449, 5515, 5580, 5646, 5711, 5775, 5839, 5903, 5967,
   6030, 6093, 6155, 6217, 6279, 6340, 6401, 6461, 6521, 6581, 6640, 6699, 6758, 6815, 6873, 6930,
   6987, 7043, 7099, 7154, 7209, 7264, 7318, 7371, 7424, 7477, 7529, 7581, 7632, 7683, 7733, 7783,
   7832, 7881, 7930, 7977, 8025, 8072, 8118, 8164, 8209, 8254, 8298, 8342, 8385, 8428, 8470, 8512,
   8553, 8594, 8634, 8673, 8712, 8751, 8789, 8826, 8863, 8899, 8935, 8970, 9005, 9039, 9072, 9105,
   9138, 9169, 9201, 9231, 9261, 9291, 9320, 9348, 9376, 9403, 9429, 9455, 9481, 9506, 9530, 9554,
   9577, 9599, 9621, 9642, 9663, 9683, 9702, 9721, 9739, 9757, 9774, 9790, 9806, 9821, 9836, 9850,
   9863, 9876, 9888, 9899, 9910, 9920, 9930, 9939, 9947, 9955, 9962, 9969, 9975, 9980, 9985, 9989,
   9992, 9995, 9997, 9999, 10000, 10000]

/-- `sine_array[i]`.  C leaves an index outside `0..199` undefined; here it reads `0`. -/
def sineAt (i : ℤ) : ℤ := if 0 ≤ i then sineArray.getD i.toNat 0 else 0

theorem sineAt_nonneg (i : ℤ) : 0 ≤ sineAt i := by
  have htable : ∀ x ∈ sineArray, 0 ≤ x := by decide +kernel
  rw [sineAt]
  split_ifs
  · obtain h | h := lt_or_ge i.toNat sineArray.length
    · rw [List.getD_eq_getElem _ _ h]
      exact htable _ (List.getElem_mem h)
    · rw [List.getD_eq_default _ _ h]
  · exact le_rfl

/-- The `_round` macro: to the nearest `long`, half away from zero. -/
def round (x : ℚ) : ℤ := if 0 ≤ x then ctrunc (x + 0.5) else ctrunc (x - 0.5)

/-- `_sin`: the table read at the nearest of 200 points, one branch per quadrant. -/
def sin (A : FloatModel) (a : ℚ) : ℚ :=
  let a := A.store a
  if a < pi_2 then A.store (0.0001 * sineAt (round (126.6873 * a)))
  else if a < pi then A.store (0.0001 * sineAt (398 - round (126.6873 * a)))
  else if a < threePi_2 then A.store (-0.0001 * sineAt (-398 + round (126.6873 * a)))
  else A.store (-0.0001 * sineAt (796 - round (126.6873 * a)))

/-- The index `_sin` reads the table at. -/
def sinIndex (a : ℚ) : ℤ :=
  if a < pi_2 then round (126.6873 * a)
  else if a < pi then 398 - round (126.6873 * a)
  else if a < threePi_2 then -398 + round (126.6873 * a)
  else 796 - round (126.6873 * a)

/-- An index of `sine_array`. -/
def InTable (i : ℤ) : Prop := 0 ≤ i ∧ i ≤ 199

instance (i : ℤ) : Decidable (InTable i) := inferInstanceAs (Decidable (_ ∧ _))

/-- **`_sin` reads the table at `sinIndex`**, positive in the first half turn. -/
theorem sin_eq (A : FloatModel) (a : ℚ) :
    sin A a = A.store ((if A.store a < pi then 0.0001 else -0.0001)
      * sineAt (sinIndex (A.store a))) := by
  have h1 : pi_2 < pi := by norm_num [pi_2, pi]
  unfold sin sinIndex
  dsimp only
  split_ifs <;> first | rfl | linarith

/-- `a_sin`, the argument `_cos` passes to `_sin`. -/
def cosArg (A : FloatModel) (a : ℚ) : ℚ :=
  let a_sin := A.store (A.store a + pi_2)
  A.store (if a_sin > twoPi then a_sin - twoPi else a_sin)

/-- `_cos` -/
def cos (A : FloatModel) (a : ℚ) : ℚ := sin A (cosArg A a)

/-! ## Angles -/

/-- `_normalizeAngle`: the angle reduced into one turn. -/
def normalizeAngle (A : FloatModel) (angle : ℚ) : ℚ :=
  let a := A.store (fmod (A.store angle) twoPi)
  A.store (if a ≥ 0 then a else a + twoPi)

/-- `_electricalAngle` -/
def electricalAngle (A : FloatModel) (shaftAngle : ℚ) (polePairs : ℤ) : ℚ :=
  A.store (A.store shaftAngle * polePairs)

/-! ## The bit-trick square root -/

/-- The step of `_sqrtApprox` on the bits: halved and subtracted, they are those of the inverse
root. -/
def rootBits (i : Int32) : Int32 := (0x5f375a86 : Int32) - (i >>> 1)

/-- `_sqrtApprox` -/
def sqrtApprox (A : FloatModel) (number : ℚ) : ℚ :=
  let number := A.store number
  let y := Binary32.ofBits (rootBits (Binary32.toBits number))
  A.store (number * y)

/-! ## Time steps -/

/-- The quick fix the drivers apply to a time step: none at all, or half a second and more, is
replaced by a millisecond. -/
def quickFix (A : FloatModel) (Ts : ℚ) : ℚ := if Ts = 0 ∨ Ts > 0.5 then A.store 1e-3 else Ts

/-! ## The exact reading -/

/-- **Exactly, `_normalizeAngle` is the reduction into `[0, _2PI)`.** -/
theorem normalizeAngle_exact (atan2 : ℚ → ℚ → ℚ) (sqrt : ℚ → ℚ) (angle : ℚ) :
    normalizeAngle (.exact atan2 sqrt) angle = toIcoMod twoPi_pos 0 angle :=
  fmodLift_eq_toIcoMod twoPi_pos angle

/-- The table entry an argument in the first quarter turn is looked up at. -/
def cell (a : ℚ) : ℤ := round (126.6873 * a)

/-- In the first quarter turn the sine is read off the table. -/
theorem sin_exact_of_lt (atan2 : ℚ → ℚ → ℚ) (sqrt : ℚ → ℚ) {a : ℚ} (h : a < pi_2) :
    sin (.exact atan2 sqrt) a = 0.0001 * sineAt (cell a) := by
  rw [sin]
  exact if_pos h

/-! ## Rounding to a table index -/

theorem round_of_nonneg {x : ℚ} (h : 0 ≤ x) : round x = ⌊x + 1 / 2⌋ := by
  rw [round, if_pos h, ctrunc_of_nonneg (by linarith)]
  norm_num

/-- The rounded index is the integer within half a cell. -/
theorem round_bounds {x : ℚ} (h : 0 ≤ x) : (round x : ℚ) - 1 / 2 ≤ x ∧ x < round x + 1 / 2 := by
  rw [round_of_nonneg h]
  have h1 := Int.floor_le (x + 1 / 2)
  have h2 := Int.lt_floor_add_one (x + 1 / 2)
  constructor <;> linarith

theorem round_nonneg {x : ℚ} (h : 0 ≤ x) : 0 ≤ round x := by
  rw [round_of_nonneg h]
  exact Int.floor_nonneg.mpr (by linarith)

/-! ## The quadrants of the table -/

theorem cell_mono {a b : ℚ} (h0 : 0 ≤ a) (h : a ≤ b) : cell a ≤ cell b := by
  have hmul : 126.6873 * a ≤ 126.6873 * b := mul_le_mul_of_nonneg_left h (by norm_num)
  have ha : 0 ≤ 126.6873 * a := mul_nonneg (by norm_num) h0
  rw [cell, cell, round_of_nonneg ha, round_of_nonneg (ha.trans hmul)]
  exact Int.floor_mono (by linarith)

/-- **A quadrant is 199 cells.** -/
theorem cell_quadrants :
    cell 0 = 0 ∧ cell pi_2 = 199 ∧ cell pi = 398 ∧ cell threePi_2 = 597 ∧ cell twoPi = 796 := by
  decide +kernel

/-- **The index is in the table**, in each of the four branches. -/
theorem sinIndex_mem {a : ℚ} (ha : a ∈ Set.Icc 0 twoPi) : InTable (sinIndex a) := by
  obtain ⟨h0, h1⟩ := ha
  obtain ⟨c0, c1, c2, c3, c4⟩ := cell_quadrants
  have hpi_2 : 0 ≤ pi_2 := by norm_num [pi_2]
  have hpi : 0 ≤ pi := by norm_num [pi]
  have hthreePi_2 : 0 ≤ threePi_2 := by norm_num [threePi_2]
  have hcell : round (126.6873 * a) = cell a := rfl
  rw [sinIndex, hcell, InTable]
  split_ifs with q1 q2 q3
  · have hlo := cell_mono le_rfl h0
    have hhi := cell_mono h0 q1.le
    omega
  · have hlo := cell_mono hpi_2 (not_lt.mp q1)
    have hhi := cell_mono h0 q2.le
    omega
  · have hlo := cell_mono hpi (not_lt.mp q2)
    have hhi := cell_mono h0 q3.le
    omega
  · have hlo := cell_mono hthreePi_2 (not_lt.mp q3)
    have hhi := cell_mono h0 h1
    omega

end FocUtils

end EmbeddedMCU

import EmbeddedMCU.Machinery.Binary32

/-!
# Machinery/Binary32Bits — binary32 numbers as 32-bit integers

    m · 2^e, 2^23 ≤ m < 2^24      ◂──ofBits──  ──toBits──▸      (e + 149) · 2^23 + m

The bits of a positive number are one integer: the exponent field counts the binades, and the
hidden bit of the significand carries into it, so the field of a normal number is `e + 150`.
-/

namespace EmbeddedMCU

namespace Binary32

/-! ## The fields -/

/-- The exponent field. -/
def expField (b : Int32) : ℤ := b.toInt / 2 ^ 23 % 2 ^ 8

/-- The fraction field. -/
def fracField (b : Int32) : ℤ := b.toInt % 2 ^ 23

/-- The number a pattern stands for.  The patterns of the infinities and of what is not a number are
read as if they were of one more binade. -/
def ofBits (b : Int32) : ℚ :=
  let magnitude : ℚ :=
    if expField b = 0 then fracField b * 2 ^ (-149 : ℤ)
    else (2 ^ 23 + fracField b) * 2 ^ (expField b - 150)
  if b < 0 then -magnitude else magnitude

/-- The pattern of a representable number; there is one zero here, and it is positive. -/
def toBits (x : ℚ) : Int32 :=
  let magnitude :=
    if x = 0 then 0 else (exponent x + 149) * 2 ^ 23 + ⌊|x| / 2 ^ exponent x⌋
  Int32.ofInt (if x < 0 then magnitude - 2 ^ 31 else magnitude)

/-! ## Positive normal numbers -/

/-- A positive normal number. -/
structure PosNormal (x : ℚ) : Prop where
  representable : Representable x
  le : 2 ^ (-126 : ℤ) ≤ x
  lt : x < 2 ^ (128 : ℤ)

/-- A significand and an exponent of a positive normal number. -/
structure NormalParts (m e : ℤ) : Prop where
  le_significand : 2 ^ 23 ≤ m
  significand_lt : m < 2 ^ 24
  le_exponent : -149 ≤ e
  exponent_le : e ≤ 104

/-- **A full significand puts a number into its binade**, and only a full one does. -/
theorem binade_iff (m e : ℤ) :
    ((2 : ℚ) ^ (e + 23) ≤ m * 2 ^ e ∧ m * 2 ^ e < (2 : ℚ) ^ (e + 24))
      ↔ 2 ^ 23 ≤ m ∧ m < 2 ^ 24 := by
  have hp := two_zpow_pos e
  rw [add_comm e, add_comm e, zpow_add₀ two_ne_zero, zpow_add₀ two_ne_zero,
    mul_le_mul_iff_left₀ hp, mul_lt_mul_iff_left₀ hp]
  norm_cast

theorem NormalParts.binade {m e : ℤ} (h : NormalParts m e) :
    (2 : ℚ) ^ (e + 23) ≤ m * 2 ^ e ∧ m * 2 ^ e < (2 : ℚ) ^ (e + 24) :=
  (binade_iff m e).mpr ⟨h.le_significand, h.significand_lt⟩

theorem NormalParts.posNormal {m e : ℤ} (h : NormalParts m e) : PosNormal (m * 2 ^ e) := by
  obtain ⟨hlo, hhi⟩ := h.binade
  have hm : |m| < 2 ^ 24 := by
    rw [abs_of_nonneg (by have := h.le_significand; omega)]
    exact h.significand_lt
  have he := h.le_exponent
  have he' := h.exponent_le
  exact ⟨⟨m, e, hm, he, rfl⟩, (zpow_le_zpow_right₀ one_le_two (by omega)).trans hlo,
    hhi.trans_le (zpow_le_zpow_right₀ one_le_two (by omega))⟩

/-- **A positive normal number has a full significand**, at the exponent it is rounded to. -/
theorem PosNormal.exists_parts {x : ℚ} (hx : PosNormal x) :
    ∃ m e, NormalParts m e ∧ x = m * 2 ^ e := by
  have hpos : 0 < x := (two_zpow_pos _).trans_le hx.le
  have he := exponent_ge x
  have hlo : (2 : ℚ) ^ (exponent x + 23) ≤ x := by
    obtain h | h := he.eq_or_lt
    · rw [← h]
      exact hx.le
    · exact two_zpow_exponent_le hpos h
  have hhi := lt_two_zpow_exponent hpos
  have hparts : x = roundEven (x / 2 ^ exponent x) * 2 ^ exponent x :=
    (round_eq_self hx.representable).symm
  generalize roundEven (x / 2 ^ exponent x) = m at hparts
  generalize exponent x = e at *
  have hexp : e + 23 < 128 := (zpow_lt_zpow_iff_right₀ one_lt_two).mp (hlo.trans_lt hx.lt)
  rw [hparts] at hlo hhi
  obtain ⟨h1, h2⟩ := (binade_iff m e).mp ⟨hlo, hhi⟩
  exact ⟨m, e, ⟨h1, h2, he, by omega⟩, hparts⟩

/-! ## The two directions -/

/-- **The bits of a positive normal number, as one integer.** -/
theorem toInt_toBits {m e : ℤ} (h : NormalParts m e) :
    (toBits (m * 2 ^ e)).toInt = (e + 149) * 2 ^ 23 + m := by
  obtain ⟨hlo, hhi⟩ := h.binade
  have hpos : (0 : ℚ) < m * 2 ^ e := (two_zpow_pos _).trans_le hlo
  have hexp : exponent (m * 2 ^ e) = e := exponent_eq h.le_exponent hlo hhi
  have hfloor : ⌊|(m : ℚ) * 2 ^ e| / 2 ^ e⌋ = m := by
    rw [abs_of_pos hpos, mul_div_cancel_right₀ _ (two_zpow_pos e).ne', Int.floor_intCast]
  obtain ⟨h1, h2, h3, h4⟩ := h
  rw [toBits, if_neg hpos.ne', hexp, hfloor, if_neg hpos.not_gt, Int32.toInt_ofInt]
  exact Int.bmod_eq_of_le (by norm_num [Int32.size]; omega) (by norm_num [Int32.size]; omega)

/-- …and the number of such an integer. -/
theorem ofBits_of_toInt {b : Int32} {m e : ℤ} (h : NormalParts m e)
    (hb : b.toInt = (e + 149) * 2 ^ 23 + m) : ofBits b = m * 2 ^ e := by
  obtain ⟨h1, h2, h3, h4⟩ := h
  have hexp : expField b = e + 150 := by
    rw [expField, hb]
    omega
  have hfrac : fracField b = m - 2 ^ 23 := by
    rw [fracField, hb]
    omega
  have hsign : ¬b < 0 := by
    rw [Int32.lt_iff_toInt_lt, hb, Int32.toInt_zero]
    omega
  rw [ofBits, if_neg hsign, if_neg (by omega), hexp, hfrac, add_sub_cancel_right]
  push_cast
  ring

/-- **Every integer between the two ends is a positive normal number.** -/
theorem exists_normalParts {n : ℤ} (h0 : 2 ^ 23 ≤ n) (h1 : n < 255 * 2 ^ 23) :
    ∃ m e, NormalParts m e ∧ n = (e + 149) * 2 ^ 23 + m := by
  refine ⟨2 ^ 23 + n % 2 ^ 23, n / 2 ^ 23 - 150, ⟨?_, ?_, ?_, ?_⟩, ?_⟩ <;> omega

/-- **Positive normal numbers survive the way through their bits.** -/
theorem ofBits_toBits {x : ℚ} (hx : PosNormal x) : ofBits (toBits x) = x := by
  obtain ⟨m, e, h, rfl⟩ := hx.exists_parts
  exact ofBits_of_toInt h (toInt_toBits h)

end Binary32

end EmbeddedMCU

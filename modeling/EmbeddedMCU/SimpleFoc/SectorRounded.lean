import EmbeddedMCU.SimpleFoc.Foc

/-!
# SimpleFoc/SectorRounded — the error branch of the modulator, with every store rounded

    angle_el + _PI_2 ──round──▸ x ──fmod──▸ r ──round──▸ a ──lift, round──▸ angle_el

`_2PI` lies between two neighbouring floats, and the upper one is past `6·_PI_3`.  So a remainder
that is rounded up to it, or lifted into it, is in no sector, and one that is rounded past `-_2PI`
is lifted to a negative angle.  All three happen just beside a whole number of turns
(`sector_valid_iff`), and nowhere else.
-/

namespace EmbeddedMCU

open FocUtils

namespace Svpwm

variable (atan2 : ℚ → ℚ → ℚ) (sqrt : ℚ → ℚ)

/-! ## The floats around a turn -/

/-- The float below `_2PI`. -/
def floatBelow : ℚ := 13176794 / 2 ^ 21

/-- The float above `_2PI`. -/
def floatAbove : ℚ := 13176795 / 2 ^ 21

/-- The midpoint between the two. -/
def turnMidpoint : ℚ := 26353589 / 2 ^ 22

/-- How far a remainder may lie below zero and still be lifted past the midpoint. -/
def liftMargin : ℚ := 17894331 / 2 ^ 48

/-- Half the smallest float. -/
def underflow : ℚ := 2 ^ (-150 : ℤ)

theorem floatBelow_lt_twoPi : floatBelow < twoPi := by norm_num [floatBelow, twoPi]

/-- **`6·_PI_3` lies below the float above `_2PI`.** -/
theorem six_pi_3_lt_floatAbove : 6 * pi_3 < floatAbove := by norm_num [floatAbove, pi_3]

theorem underflow_pos : 0 < underflow := Binary32.two_zpow_pos _

theorem underflow_lt_turnMidpoint : underflow < turnMidpoint := by
  norm_num [underflow, turnMidpoint]

theorem representable_floatAbove : Binary32.Representable floatAbove :=
  ⟨13176795, -21, by norm_num, by norm_num, by norm_num [floatAbove]⟩

/-- A rounded value above the lower float is at least the upper one. -/
theorem floatAbove_le_round {y : ℚ} (h : floatBelow < Binary32.round y) :
    floatAbove ≤ Binary32.round y := by
  have hbelow : floatBelow = ((13176794 : ℤ) : ℚ) * 2 ^ (-21 : ℤ) := by norm_num [floatBelow]
  have habove : floatAbove = (((13176794 : ℤ) : ℚ) + 1) * 2 ^ (-21 : ℤ) := by norm_num [floatAbove]
  rw [hbelow] at h
  rw [habove]
  exact (Binary32.representable_round y).succ_le (by norm_num) h

/-- **The midpoint is where the rounding turns from the lower float to the upper one.** -/
theorem round_le_floatBelow_iff (y : ℚ) : Binary32.round y ≤ floatBelow ↔ y ≤ turnMidpoint := by
  have hbelow : floatBelow = ((13176794 : ℤ) : ℚ) * 2 ^ (-21 : ℤ) := by norm_num [floatBelow]
  have hmid : turnMidpoint = (((13176794 : ℤ) : ℚ) + 1 / 2) * 2 ^ (-21 : ℤ) := by
    norm_num [turnMidpoint]
  rw [hbelow, hmid]
  exact Binary32.round_le_iff (by norm_num) (by norm_num) (by norm_num) (by norm_num)

/-- Whatever lies between the two floats, a rounded value is below it or past it with the lower
one. -/
theorem round_le_iff_of_between {c : ℚ} (hlo : floatBelow ≤ c) (hhi : c < floatAbove) (y : ℚ) :
    Binary32.round y ≤ c ↔ y ≤ turnMidpoint := by
  rw [← round_le_floatBelow_iff]
  refine ⟨fun h => ?_, fun h => h.trans hlo⟩
  by_contra hgt
  exact not_lt.mpr ((floatAbove_le_round (not_le.mp hgt)).trans h) hhi

theorem round_le_twoPi_iff (y : ℚ) : Binary32.round y ≤ twoPi ↔ y ≤ turnMidpoint :=
  round_le_iff_of_between floatBelow_lt_twoPi.le
    (twoPi_lt_six_pi_3.trans six_pi_3_lt_floatAbove) y

theorem round_lt_six_pi_3_iff (y : ℚ) : Binary32.round y < 6 * pi_3 ↔ y ≤ turnMidpoint := by
  constructor
  · intro h
    exact (round_le_iff_of_between (floatBelow_lt_twoPi.trans twoPi_lt_six_pi_3).le
      six_pi_3_lt_floatAbove y).mp h.le
  · intro h
    exact ((round_le_twoPi_iff y).mpr h).trans_lt twoPi_lt_six_pi_3

/-- **A remainder below zero is lifted to the midpoint at most** when it is at least the margin
away, once rounded. -/
theorem sub_turnMidpoint_le_round_iff (y : ℚ) :
    twoPi - turnMidpoint ≤ Binary32.round y ↔ liftMargin ≤ y := by
  have hmargin : liftMargin = ((8947166 : ℤ) - 1 / 2) * 2 ^ (-47 : ℤ) := by norm_num [liftMargin]
  have hlo : ((8947165 : ℤ) : ℚ) * 2 ^ (-47 : ℤ) < twoPi - turnMidpoint := by
    norm_num [twoPi, turnMidpoint]
  have hhi : twoPi - turnMidpoint ≤ ((8947166 : ℤ) : ℚ) * 2 ^ (-47 : ℤ) := by
    norm_num [twoPi, turnMidpoint]
  rw [hmargin, ← Binary32.le_round_iff (by norm_num) (by norm_num) (by norm_num) (by norm_num)]
  refine ⟨fun h => ?_, fun h => hhi.trans h⟩
  have := (Binary32.representable_round y).succ_le (by norm_num) (hlo.trans_le h)
  norm_num at this ⊢
  exact this

/-! ## The normalised angle -/

/-- A remainder, as `_normalizeAngle` stores, lifts and returns it. -/
def lifted (r : ℚ) : ℚ :=
  Binary32.round
    (if 0 ≤ Binary32.round r then Binary32.round r else Binary32.round r + twoPi)

theorem normalizeAngle_binary32 (angle : ℚ) :
    normalizeAngle (.binary32 atan2 sqrt) angle = lifted (fmod (Binary32.round angle) twoPi) := rfl

/-- The remainders that stay inside the turn. -/
def StaysInside (r : ℚ) : Prop :=
  |r| ≤ turnMidpoint ∧ (-r ≤ underflow ∨ liftMargin ≤ -r)

theorem lifted_of_nonneg {r : ℚ} (h : 0 ≤ r) : lifted r = Binary32.round r := by
  rw [lifted, if_pos (Binary32.round_nonneg h), Binary32.round_round]

/-- A remainder that underflows is zero. -/
theorem lifted_of_underflow {r : ℚ} (h0 : r < 0) (h : -r ≤ underflow) : lifted r = 0 := by
  have hz := (Binary32.round_eq_zero_iff (neg_pos.mpr h0).le).mpr h
  rw [Binary32.round_neg, neg_eq_zero] at hz
  rw [lifted, hz, if_pos le_rfl, Binary32.round_zero]

/-- …and any other one below zero is lifted. -/
theorem lifted_of_neg {r : ℚ} (h : underflow < -r) :
    lifted r = Binary32.round (twoPi - Binary32.round (-r)) := by
  have hpos : 0 < -r := underflow_pos.trans h
  have hne : Binary32.round (-r) ≠ 0 := fun hz =>
    not_le.mpr h ((Binary32.round_eq_zero_iff hpos.le).mp hz)
  have hlt : 0 < Binary32.round (-r) := lt_of_le_of_ne (Binary32.round_nonneg hpos.le) hne.symm
  rw [Binary32.round_neg] at hlt
  rw [lifted, if_neg (by linarith), Binary32.round_neg]
  congr 1
  ring

/-- A lifted remainder is negative exactly when it was rounded past `-_2PI`. -/
theorem round_sub_nonneg_iff (y : ℚ) :
    0 ≤ Binary32.round (twoPi - Binary32.round y) ↔ y ≤ turnMidpoint := by
  rw [← round_le_twoPi_iff]
  refine ⟨fun h => ?_, fun h => Binary32.round_nonneg (by linarith)⟩
  by_contra hgt
  have habove := floatAbove_le_round (floatBelow_lt_twoPi.trans (not_le.mp hgt))
  have hgap : twoPi - floatAbove ≤ -(1 / 2 ^ 23) := by norm_num [twoPi, floatAbove]
  have hneg : Binary32.round (twoPi - Binary32.round y) ≤ -(1 / 2 ^ 23) :=
    Binary32.round_le_of_le ⟨-1, -23, by norm_num, by norm_num, by norm_num⟩ (by linarith)
  linarith

/-- **The normalised angle lies in a sector exactly for the remainders that stay inside.** -/
theorem lifted_mem_iff (r : ℚ) : lifted r ∈ Set.Ico 0 (6 * pi_3) ↔ StaysInside r := by
  obtain h0 | h0 := le_or_gt 0 r
  · have hu : -r ≤ underflow := (neg_nonpos.mpr h0).trans underflow_pos.le
    rw [lifted_of_nonneg h0, Set.mem_Ico, and_iff_right (Binary32.round_nonneg h0),
      round_lt_six_pi_3_iff, StaysInside, abs_of_nonneg h0, and_iff_left (.inl hu)]
  obtain hu | hu := le_or_gt (-r) underflow
  · refine iff_of_true ?_ ⟨?_, .inl hu⟩
    · rw [lifted_of_underflow h0 hu]
      exact ⟨le_rfl, by linarith [pi_3_pos]⟩
    · rw [abs_of_neg h0]
      exact hu.trans underflow_lt_turnMidpoint.le
  · rw [lifted_of_neg hu, Set.mem_Ico, round_sub_nonneg_iff, round_lt_six_pi_3_iff, StaysInside,
      abs_of_neg h0, or_iff_right (not_le.mpr hu), ← sub_turnMidpoint_le_round_iff, sub_le_comm]

/-- A normalised angle is never a whole sector below zero. -/
theorem neg_pi_3_le_lifted {r : ℚ} (h : -twoPi < r) : -pi_3 ≤ lifted r := by
  have hpi := pi_3_pos
  obtain h0 | h0 := le_or_gt 0 r
  · rw [lifted_of_nonneg h0]
    linarith [Binary32.round_nonneg h0]
  obtain hu | hu := le_or_gt (-r) underflow
  · rw [lifted_of_underflow h0 hu]
    linarith
  · have habove : twoPi < floatAbove := twoPi_lt_six_pi_3.trans six_pi_3_lt_floatAbove
    have hr : Binary32.round (-r) ≤ floatAbove :=
      Binary32.round_le_of_le representable_floatAbove (by linarith)
    have hgap : floatAbove ≤ 1 + twoPi := by norm_num [twoPi, floatAbove]
    have h1 : (-1 : ℚ) ≤ Binary32.round (twoPi - Binary32.round (-r)) :=
      Binary32.le_round_of_le ⟨-1, 0, by norm_num, by norm_num, by norm_num⟩ (by linarith)
    have h2 : -pi_3 ≤ -1 := by norm_num [pi_3]
    rw [lifted_of_neg hu]
    exact h2.trans h1

/-! ## Beside a whole number of turns -/

/-- **Just beside a whole number of turns**: less than half a float's place short of a positive one,
or of a negative one from either side — below it, by more than an underflow. -/
def BesideTurn (x : ℚ) : Prop :=
  ∃ k : ℤ,
    (0 < k ∧ k * twoPi - (twoPi - turnMidpoint) < x ∧ x < k * twoPi)
      ∨ (k < 0 ∧ k * twoPi < x ∧ x < k * twoPi + (twoPi - turnMidpoint))
      ∨ (k ≤ 0 ∧ k * twoPi - liftMargin < x ∧ x < k * twoPi - underflow)

theorem not_staysInside_iff (r : ℚ) :
    ¬ StaysInside r ↔ turnMidpoint < |r| ∨ (underflow < -r ∧ -r < liftMargin) := by
  rw [StaysInside, not_and_or, not_or, not_le, not_le, not_le]

theorem besideTurn_of_not_staysInside {x : ℚ} (h : ¬ StaysInside (fmod x twoPi)) :
    BesideTurn x := by
  have hp := twoPi_pos
  have hx := fmod_add_mul x twoPi
  rw [not_staysInside_iff] at h
  obtain h0 | h0 := le_or_gt 0 x
  · obtain ⟨hr0, hr1⟩ := fmod_mem_Ico hp h0
    have hn : 0 ≤ ctrunc (x / twoPi) := ctrunc_nonneg (div_nonneg h0 hp.le)
    rw [abs_of_nonneg hr0] at h
    obtain h | ⟨h, -⟩ := h
    · refine ⟨ctrunc (x / twoPi) + 1, .inl ⟨by omega, ?_, ?_⟩⟩ <;> push_cast <;> linarith
    · linarith [underflow_pos]
  · obtain ⟨hr0, hr1⟩ := fmod_mem_Ioc hp h0
    have hn : ctrunc (x / twoPi) ≤ 0 := ctrunc_nonpos (div_neg_of_neg_of_pos h0 hp)
    rw [abs_of_nonpos hr1] at h
    obtain h | ⟨h, h'⟩ := h
    · refine ⟨ctrunc (x / twoPi) - 1, .inr (.inl ⟨by omega, ?_, ?_⟩)⟩ <;> push_cast <;> linarith
    · refine ⟨ctrunc (x / twoPi), .inr (.inr ⟨hn, ?_, ?_⟩)⟩ <;> linarith

theorem not_staysInside_of_besideTurn {x : ℚ} (h : BesideTurn x) :
    ¬ StaysInside (fmod x twoPi) := by
  have hp := twoPi_pos
  have hm : 0 < turnMidpoint := underflow_pos.trans underflow_lt_turnMidpoint
  have hl : liftMargin < twoPi := by norm_num [liftMargin, twoPi]
  rw [not_staysInside_iff]
  obtain ⟨k, ⟨hk, hlo, hhi⟩ | ⟨hk, hlo, hhi⟩ | ⟨hk, hlo, hhi⟩⟩ := h
  · have hk' : (1 : ℚ) ≤ k := by exact_mod_cast hk
    have hturn : twoPi ≤ k * twoPi := le_mul_of_one_le_left hp.le hk'
    have hr : fmod x twoPi = x - (k - 1 : ℤ) * twoPi :=
      fmod_eq_sub hp (by linarith) (by push_cast; linarith) (by push_cast; linarith)
    push_cast at hr
    exact .inl (lt_abs.mpr (.inl (by linarith)))
  · have hk' : (k : ℚ) + 1 ≤ 0 := by exact_mod_cast hk
    have hturn : (k + 1) * twoPi ≤ 0 := mul_nonpos_of_nonpos_of_nonneg hk' hp.le
    have hr : fmod x twoPi = x - (k + 1 : ℤ) * twoPi :=
      fmod_eq_sub_of_neg hp (by linarith) (by push_cast; linarith) (by push_cast; linarith)
    push_cast at hr
    exact .inl (lt_abs.mpr (.inr (by linarith)))
  · have hk' : (k : ℚ) ≤ 0 := by exact_mod_cast hk
    have hturn : k * twoPi ≤ 0 := mul_nonpos_of_nonpos_of_nonneg hk' hp.le
    have hu := underflow_pos
    have hr : fmod x twoPi = x - k * twoPi :=
      fmod_eq_sub_of_neg hp (by linarith) (by linarith) (by linarith)
    exact .inr ⟨by linarith, by linarith⟩

/-- **The remainder leaves the turn exactly beside a whole number of turns.** -/
theorem besideTurn_iff (x : ℚ) : BesideTurn x ↔ ¬ StaysInside (fmod x twoPi) :=
  ⟨not_staysInside_of_besideTurn, besideTurn_of_not_staysInside⟩

/-! ## The table index -/

/-- A rounded argument between zero and `_PI_3` is looked up in the table. -/
theorem sinIndex_round_mem {a : ℚ} (h0 : 0 ≤ a) (h : a ≤ pi_3) :
    InTable (sinIndex (Binary32.round a)) := by
  have hlo := Binary32.round_nonneg h0
  have hhi : Binary32.round a ≤ 9 / 8 :=
    Binary32.round_le_of_le ⟨9, -3, by norm_num, by norm_num, by norm_num⟩
      (h.trans (by norm_num [pi_3]))
  exact sinIndex_mem ⟨hlo, hhi.trans (by norm_num [twoPi])⟩

end Svpwm

/-! ## The error branch -/

variable (atan2 : ℚ → ℚ → ℚ) (sqrt : ℚ → ℚ)

/-- The angle the modulator normalises a command to when `Ud` is zero. -/
theorem Svpwm.angleEl_binary32 (Uq angle : Binary32.Finite) :
    angleEl (.binary32 atan2 sqrt) Uq.val 0 angle.val
      = lifted (fmod (Binary32.round (angle.val + pi_2)) twoPi) := by
  rw [angleEl, if_neg (not_not.mpr rfl)]
  exact normalizeAngle_binary32 atan2 sqrt _

/-- A sector that is none of the six switches every phase off. -/
theorem Svpwm.sectorDuty_of_not_mem (A : FloatModel) {s : ℕ} (h : s ∉ Set.Icc 1 6)
    (T0 T1 T2 : ℚ) : sectorDuty A s T0 T1 T2 = ⟨0, 0, 0⟩ := by
  obtain _ | _ | _ | _ | _ | _ | _ | s := s
  · rfl
  all_goals first | rfl | exact absurd ⟨by omega, by omega⟩ h

/-- **When the modulator stays out of its error branch**: always, but for the angles whose float sum
with `_PI_2` is just beside a whole number of turns — there every phase is switched off.

The constants are the decimals as they are written.  A compiled `_2PI` is the `double` next to its
decimal, which makes a difference after very many turns: at an angle of `3296986398720` it gives
another sector. -/
theorem sector_valid_iff (Uq angle : Binary32.Finite) :
    let A := FloatModel.binary32 atan2 sqrt
    let θ := Svpwm.angleEl A (A.store Uq.val) (A.store 0) (A.store angle.val)
    ((Svpwm.sector θ ∈ Set.Icc 1 6
        ∧ InTable (sinIndex (A.store (Svpwm.sector θ * pi_3 - θ)))
        ∧ InTable (sinIndex (A.store (θ - (Svpwm.sector θ - 1.0) * pi_3))))
      ↔ ¬ Svpwm.BesideTurn (Binary32.round (angle.val + pi_2)))
    ∧ (Svpwm.BesideTurn (Binary32.round (angle.val + pi_2)) →
        ∀ cfg : Foc.FOCConfig, Foc.setPhaseVoltage A cfg Uq.val 0 angle.val = ⟨0, 0, 0⟩) := by
  intro A θ
  have hθ : θ = Svpwm.lifted (fmod (Binary32.round (angle.val + pi_2)) twoPi) := by
    simp only [θ, A, FloatModel.binary32_store, Binary32.round_val, Binary32.round_zero]
    exact Svpwm.angleEl_binary32 atan2 sqrt Uq angle
  have hlow : -pi_3 ≤ θ := hθ ▸ Svpwm.neg_pi_3_le_lifted (neg_lt_fmod twoPi_pos)
  have hsector : Svpwm.sector θ ∈ Set.Icc 1 6
      ↔ ¬ Svpwm.BesideTurn (Binary32.round (angle.val + pi_2)) := by
    rw [Svpwm.sector_mem_iff hlow, hθ, Svpwm.lifted_mem_iff, Svpwm.besideTurn_iff, not_not]
  obtain ⟨h1, h1'⟩ := Svpwm.arg1_mem hlow
  obtain ⟨h2, h2'⟩ := Svpwm.arg2_mem hlow
  refine ⟨?_, fun hbeside cfg => ?_⟩
  · rw [← hsector]
    exact and_iff_left
      ⟨Svpwm.sinIndex_round_mem h1.le h1', Svpwm.sinIndex_round_mem h2 h2'.le⟩
  · exact Svpwm.sectorDuty_of_not_mem A (mt hsector.mp (not_not.mpr hbeside)) _ _ _

/-- The float nearest to `-_PI_2`. -/
def Binary32.nearNegPi_2 : Binary32.Finite where
  val := -13176795 / 2 ^ 23
  representable := ⟨-13176795, -23, by norm_num, by norm_num, by norm_num⟩
  lt := by norm_num [abs_div]

/-- **At the float nearest to `-_PI_2` the sector is 7**, and every phase off. -/
theorem sector_seven :
    let A := FloatModel.binary32 (fun _ _ => 0) id
    Svpwm.sector (Svpwm.angleEl A (A.store 1) (A.store 0) (A.store Binary32.nearNegPi_2.val)) = 7
      ∧ Foc.setPhaseVoltage A ⟨.velocityOpenloop, 12, 6, 2, 7, 0⟩ 1 0 Binary32.nearNegPi_2.val
        = ⟨0, 0, 0⟩ := by
  decide +kernel

end EmbeddedMCU

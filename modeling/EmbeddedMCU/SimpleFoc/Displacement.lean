import EmbeddedMCU.Machinery.Run
import EmbeddedMCU.SimpleFoc.Foc

/-!
# SimpleFoc/Displacement — what `ShaftVelocity` measures across the seam

    θ ──moves by δ──▸ θ + δ          the shaft, unwrapped
    │                   │            reduced into [0, _2PI) by the sensor
    prev ───────────▸ now            temp : the displacement the driver computes

A movement of less than `_PI` crosses the seam at most once.  Without a crossing and across a
forward one `temp` is `δ`; across a backward one it is `-δ` (`displacement_reading`), because the
two branches of the source subtract in opposite orders but do not turn the sign.
-/

namespace EmbeddedMCU

namespace Foc

open FocUtils

/-- A movement of the shaft between two readings: less than half a turn, in either direction. -/
structure Movement where
  delta : ℚ
  lt : |delta| < pi

/-- What the sensor reads at an unwrapped angle. -/
def reading (θ : ℚ) : ℚ := floorMod θ twoPi

/-- The turn an unwrapped angle is in. -/
def turn (θ : ℚ) : ℤ := ⌊θ / twoPi⌋

theorem reading_add_turn (θ : ℚ) : reading θ + turn θ * twoPi = θ := sub_add_cancel _ _

theorem reading_mem (θ : ℚ) : reading θ ∈ Set.Ico 0 twoPi := by
  rw [reading, floorMod_eq_toIcoMod twoPi_pos]
  exact toIcoMod_mem_Ico' _ _

/-- What a call of `ShaftVelocity` has in hand: the two readings, and the displacement it computes
from them. -/
structure Measurement where
  anglePrev : ℚ
  angleNow : ℚ
  temp : ℚ
  deriving DecidableEq

/-- A call of `ShaftVelocity` after a movement of the shaft, which is at `s.2`, with the pointers
into the `FOC` its caller passes. -/
def measure (A : FloatModel) (s : FOC × ℚ) (x : Movement × UInt64) : (FOC × ℚ) × Measurement :=
  let θ := s.2 + x.1.delta
  let v := shaftVelocity A s.1 s.1.timePrev x.2 s.1.anglePrev (reading θ)
  (({ s.1 with timePrev := v.updateTime, anglePrev := v.updateAngle }, θ),
    ⟨s.1.anglePrev, reading θ, v.temp⟩)

/-! ## One call -/

section Exact

variable (atan2 : ℚ → ℚ → ℚ) (sqrt : ℚ → ℚ)

/-- A movement reaches the neighbouring turns at most. -/
theorem turn_add (θ : ℚ) (m : Movement) :
    turn (θ + m.delta) = turn θ ∨ turn (θ + m.delta) = turn θ + 1
      ∨ turn (θ + m.delta) = turn θ - 1 := by
  have hp := twoPi_pos
  have hpi := twoPi_eq_two_pi
  obtain ⟨hlo, hhi⟩ := abs_lt.mp m.lt
  have h1 := reading_add_turn θ
  have h2 := reading_add_turn (θ + m.delta)
  obtain ⟨r0, r1⟩ := reading_mem θ
  obtain ⟨r0', r1'⟩ := reading_mem (θ + m.delta)
  have hup : ((turn (θ + m.delta) - turn θ : ℤ) : ℚ) * twoPi < (2 : ℤ) * twoPi := by
    push_cast
    linarith
  have hdown : ((-2 : ℤ) : ℚ) * twoPi < (turn (θ + m.delta) - turn θ : ℤ) * twoPi := by
    push_cast
    linarith
  have hup' : turn (θ + m.delta) - turn θ < 2 := by
    exact_mod_cast lt_of_mul_lt_mul_right hup hp.le
  have hdown' : -2 < turn (θ + m.delta) - turn θ := by
    exact_mod_cast lt_of_mul_lt_mul_right hdown hp.le
  omega

/-- **The displacement is the movement, but for its sign after a backward crossing.** -/
theorem displacement_reading (θ : ℚ) (m : Movement) :
    displacement (.exact atan2 sqrt) (reading θ) (reading (θ + m.delta))
      = if turn (θ + m.delta) < turn θ then -m.delta else m.delta := by
  have hp := twoPi_pos
  have hpi := twoPi_eq_two_pi
  obtain ⟨hlo, hhi⟩ := abs_lt.mp m.lt
  have h1 := reading_add_turn θ
  have h2 := reading_add_turn (θ + m.delta)
  simp only [displacement, FloatModel.exact_store]
  obtain h | h | h := turn_add θ m <;> rw [h] at h2 ⊢ <;> push_cast at h2
  · rw [if_neg (by linarith), if_neg (by linarith), if_neg (lt_irrefl _)]
    linarith
  · rw [if_pos (by linarith), if_neg (by omega)]
    linarith
  · rw [if_neg (by linarith), if_pos (by linarith), if_pos (by omega)]
    linarith

/-- A movement that changes the turn is not zero. -/
theorem delta_ne_zero {θ : ℚ} {m : Movement} (h : turn (θ + m.delta) ≠ turn θ) : m.delta ≠ 0 := by
  intro h0
  rw [h0, add_zero] at h
  exact h rfl

theorem displacement_eq_iff (θ : ℚ) (m : Movement) :
    displacement (.exact atan2 sqrt) (reading θ) (reading (θ + m.delta)) = m.delta
      ↔ turn θ ≤ turn (θ + m.delta) := by
  rw [displacement_reading]
  split_ifs with h
  · refine iff_of_false (fun heq => delta_ne_zero h.ne (by linarith)) (not_le.mpr h)
  · exact iff_of_true rfl (not_lt.mp h)

/-- The same movement, made backwards. -/
def Movement.back (m : Movement) : Movement := ⟨-m.delta, by rw [abs_neg]; exact m.lt⟩

/-- **With the readings swapped the displacement is the movement back, but for its sign after a
forward crossing.** -/
theorem displacement_swap_eq_iff (θ : ℚ) (m : Movement) :
    displacement (.exact atan2 sqrt) (reading (θ + m.delta)) (reading θ) = -m.delta
      ↔ turn (θ + m.delta) ≤ turn θ := by
  have h := displacement_eq_iff atan2 sqrt (θ + m.delta) m.back
  rwa [Movement.back, add_neg_cancel_right] at h

end Exact

/-! ## What a measurement should be -/

/-- **A faithful measurement of a movement**: the displacement is the movement, hence in
`(-_PI, _PI)` and congruent to the difference of the readings. -/
structure Faithful (x : Movement × UInt64) (o : Measurement) : Prop where
  exact : o.temp = x.1.delta
  mem : o.temp ∈ Set.Ioo (-pi) pi
  modEq : o.temp ≡ o.angleNow - o.anglePrev [PMOD twoPi]

/-- Swapping the two readings changes the sign. -/
def SwapOdd (A : FloatModel) (o : Measurement) : Prop :=
  displacement A o.angleNow o.anglePrev = -o.temp

/-- The movement does not cross the seam backwards. -/
def NoBackwardCrossing (s : FOC × ℚ) (x : Movement × UInt64) : Prop :=
  turn s.2 ≤ turn (s.2 + x.1.delta)

/-- The movement does not cross the seam. -/
def NoCrossing (s : FOC × ℚ) (x : Movement × UInt64) : Prop :=
  turn (s.2 + x.1.delta) = turn s.2

instance (s : FOC × ℚ) (x : Movement × UInt64) : Decidable (NoBackwardCrossing s x) :=
  inferInstanceAs (Decidable (_ ≤ _))

instance (s : FOC × ℚ) (x : Movement × UInt64) : Decidable (NoCrossing s x) :=
  inferInstanceAs (Decidable (_ = _))

/-! ## Runs -/

/-- The driver holds the reading at the angle the shaft is at. -/
def InStep (s : FOC × ℚ) : Prop := s.1.anglePrev = reading s.2

/-- The net rotation of a run. -/
def netRotation (xs : List (Movement × UInt64)) : ℚ := (xs.map fun x => x.1.delta).sum

/-- The shaft has turned by the net rotation. -/
theorem run_measure_angle (A : FloatModel) (s : FOC × ℚ) (xs : List (Movement × UInt64)) :
    (run (measure A) s xs).1.2 = s.2 + netRotation xs := by
  induction xs generalizing s with
  | nil => simp [netRotation]
  | cons x xs ih =>
    rw [run_cons_fst, ih, netRotation, netRotation, List.map_cons, List.sum_cons, ← add_assoc]
    rfl

/-- Faithful measurements sum to the net rotation. -/
theorem sum_temp_of_faithful {xs : List (Movement × UInt64)} {os : List Measurement}
    (h : List.Forall₂ (fun x o => o.temp = x.1.delta) xs os) :
    (os.map Measurement.temp).sum = netRotation xs := by
  induction h with
  | nil => rfl
  | cons hx _ ih => rw [List.map_cons, List.sum_cons, hx, ih, netRotation, netRotation,
      List.map_cons, List.sum_cons]

variable (atan2 : ℚ → ℚ → ℚ) (sqrt : ℚ → ℚ)

theorem measure_inStep (A : FloatModel) (s : FOC × ℚ) (x : Movement × UInt64) :
    InStep (measure A s x).1 := rfl

theorem faithful_iff {s : FOC × ℚ} (hs : InStep s) (x : Movement × UInt64) :
    Faithful x (measure (.exact atan2 sqrt) s x).2 ↔ NoBackwardCrossing s x := by
  have htemp : (measure (.exact atan2 sqrt) s x).2.temp
      = displacement (.exact atan2 sqrt) (reading s.2) (reading (s.2 + x.1.delta)) := by
    rw [← hs]
    rfl
  rw [NoBackwardCrossing, ← displacement_eq_iff atan2 sqrt, ← htemp]
  refine ⟨Faithful.exact, fun h => ⟨h, h ▸ abs_lt.mp x.1.lt, ?_⟩⟩
  have hmod : x.1.delta ≡ reading (s.2 + x.1.delta) - reading s.2 [PMOD twoPi] := by
    refine AddCommGroup.modEq_iff_zsmul.mpr ⟨turn s.2 - turn (s.2 + x.1.delta), ?_⟩
    have h1 := reading_add_turn s.2
    have h2 := reading_add_turn (s.2 + x.1.delta)
    rw [zsmul_eq_mul]
    push_cast
    linarith
  rw [h]
  have hs' : s.1.anglePrev = reading s.2 := hs
  change x.1.delta ≡ reading (s.2 + x.1.delta) - s.1.anglePrev [PMOD twoPi]
  rwa [hs']

/-- Without a crossing the measurement is faithful and odd, and only then. -/
theorem faithful_swapOdd_iff {s : FOC × ℚ} (hs : InStep s) (x : Movement × UInt64) :
    (Faithful x (measure (.exact atan2 sqrt) s x).2
        ∧ SwapOdd (.exact atan2 sqrt) (measure (.exact atan2 sqrt) s x).2)
      ↔ NoCrossing s x := by
  have hswap : displacement (.exact atan2 sqrt) (measure (.exact atan2 sqrt) s x).2.angleNow
      (measure (.exact atan2 sqrt) s x).2.anglePrev
      = displacement (.exact atan2 sqrt) (reading (s.2 + x.1.delta)) (reading s.2) := by
    rw [← hs]
    rfl
  rw [faithful_iff atan2 sqrt hs]
  constructor
  · rintro ⟨hback, hodd⟩
    have hexact := ((faithful_iff atan2 sqrt hs x).mpr hback).exact
    rw [SwapOdd, hswap, hexact, displacement_swap_eq_iff] at hodd
    exact le_antisymm hodd hback
  · intro h
    have hback : NoBackwardCrossing s x := h.ge
    have hexact := ((faithful_iff atan2 sqrt hs x).mpr hback).exact
    refine ⟨hback, ?_⟩
    rw [SwapOdd, hswap, hexact, displacement_swap_eq_iff]
    exact h.le

/-- **When the displacements of a run are the movements of the shaft.**  They are, and sum to the
net rotation, exactly when no call follows a backward crossing of the seam; and they are odd in the
two readings as well exactly when none follows a crossing at all. -/
theorem displacement_run_iff (foc : FOC) (θ : ℚ) (xs : List (Movement × UInt64)) :
    let s : FOC × ℚ := ({ foc with anglePrev := reading θ }, θ)
    let r := run (measure (.exact atan2 sqrt)) s xs
    ((List.Forall₂ Faithful xs r.2 ∧ (r.2.map Measurement.temp).sum = r.1.2 - θ)
      ↔ AllCalls (measure (.exact atan2 sqrt)) NoBackwardCrossing s xs)
    ∧ ((List.Forall₂ (fun x o => Faithful x o ∧ SwapOdd (.exact atan2 sqrt) o) xs r.2
        ∧ (r.2.map Measurement.temp).sum = r.1.2 - θ)
      ↔ AllCalls (measure (.exact atan2 sqrt)) NoCrossing s xs) := by
  intro s r
  have hs : InStep s := rfl
  have hnet : r.1.2 - θ = netRotation xs := by
    rw [run_measure_angle]
    exact add_sub_cancel_left θ _
  constructor
  · rw [← run_forall₂_iff InStep NoBackwardCrossing Faithful
      (fun s x hs => ⟨faithful_iff atan2 sqrt hs x, fun _ => measure_inStep _ s x⟩) hs xs]
    refine and_iff_left_of_imp fun h => ?_
    rw [hnet]
    exact sum_temp_of_faithful (h.imp fun _ _ => Faithful.exact)
  · rw [← run_forall₂_iff InStep NoCrossing
      (fun x o => Faithful x o ∧ SwapOdd (.exact atan2 sqrt) o)
      (fun s x hs => ⟨faithful_swapOdd_iff atan2 sqrt hs x, fun _ => measure_inStep _ s x⟩) hs xs]
    refine and_iff_left_of_imp fun h => ?_
    rw [hnet]
    exact sum_temp_of_faithful (h.imp fun _ _ h => h.1.exact)

/-- Two tenths of a radian backwards. -/
def Movement.backwards : Movement := ⟨-1 / 5, by norm_num [pi, abs_div]⟩

/-- **One movement backwards across the seam**: from a tenth of a radian by two tenths, measured as
two tenths forwards. -/
theorem displacement_backward :
    let x : Movement × UInt64 := (Movement.backwards, 1)
    let s : FOC × ℚ := ({ (default : FOC) with anglePrev := reading (1 / 10) }, 1 / 10)
    let r := run (measure (.exact (fun _ _ => 0) id)) s [x]
    r.2.map Measurement.temp = [1 / 5] ∧ r.1.2 - 1 / 10 = -1 / 5
      ∧ (r.2.map Measurement.temp).sum ≠ r.1.2 - 1 / 10 := by
  decide +kernel

end Foc

end EmbeddedMCU

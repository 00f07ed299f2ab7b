import Mathlib.Data.List.Forall2
import Mathlib.Data.List.Induction
import Mathlib.Tactic.Common

/-!
# Machinery/Run — runs of a routine that is called again and again

A routine keeps a state between calls and hands something out at each of them: it is a step
`σ → ι → σ × ω`.  `run` feeds it a list of inputs.  Six rules carry every statement about runs:

* `run_invariant` — what one call preserves, a run preserves;
* `run_history`, `run_outputs` — and so for an invariant on the inputs, or the outputs, so far;
* `run_simulation` — two routines that agree call by call;
* `run_stamps` — a routine that compares what it reads with what the call before it read;
* `run_forall₂_iff` — a condition that is exact for one call is exact for a run.
-/

namespace EmbeddedMCU

variable {σ ι ω : Type*}

/-- The state after the calls of `xs`, and what each of them handed out. -/
def run (step : σ → ι → σ × ω) : σ → List ι → σ × List ω
  | s, [] => (s, [])
  | s, x :: xs =>
      let call := step s x
      let rest := run step call.1 xs
      (rest.1, call.2 :: rest.2)

section Basic

variable (step : σ → ι → σ × ω)

@[simp] theorem run_nil (s : σ) : run step s [] = (s, []) := rfl

theorem run_cons (s : σ) (x : ι) (xs : List ι) :
    run step s (x :: xs)
      = ((run step (step s x).1 xs).1, (step s x).2 :: (run step (step s x).1 xs).2) := rfl

@[simp] theorem run_cons_fst (s : σ) (x : ι) (xs : List ι) :
    (run step s (x :: xs)).1 = (run step (step s x).1 xs).1 := rfl

@[simp] theorem run_cons_snd (s : σ) (x : ι) (xs : List ι) :
    (run step s (x :: xs)).2 = (step s x).2 :: (run step (step s x).1 xs).2 := rfl

@[simp] theorem length_run (s : σ) (xs : List ι) : (run step s xs).2.length = xs.length := by
  induction xs generalizing s with
  | nil => rfl
  | cons x xs ih => rw [run_cons_snd, List.length_cons, ih, List.length_cons]

/-- A run is resumed where its first part stopped. -/
theorem run_append (s : σ) (xs ys : List ι) :
    run step s (xs ++ ys)
      = ((run step (run step s xs).1 ys).1,
          (run step s xs).2 ++ (run step (run step s xs).1 ys).2) := by
  induction xs generalizing s with
  | nil => rfl
  | cons x xs ih => simp only [List.cons_append, run_cons, ih]

/-- **The last call of a run**, made in the state the calls before it left. -/
theorem run_concat (s : σ) (xs : List ι) (x : ι) :
    run step s (xs ++ [x])
      = ((step (run step s xs).1 x).1, (run step s xs).2 ++ [(step (run step s xs).1 x).2]) :=
  run_append step s xs [x]

end Basic

/-- **What holds after some of the inputs** held before the last, or holds after it. -/
theorem exists_take_concat {P : List ι → Prop} (xs : List ι) (x : ι) :
    (∃ k, P ((xs ++ [x]).take k)) ↔ (∃ k, P (xs.take k)) ∨ P (xs ++ [x]) := by
  constructor
  · rintro ⟨k, hk⟩
    obtain hlt | hle := Nat.lt_or_ge xs.length k
    · exact .inr (by rwa [List.take_of_length_le (by rw [List.length_append]; exact hlt)] at hk)
    · exact .inl ⟨k, by rwa [List.take_append_of_le_length hle] at hk⟩
  · rintro (⟨k, hk⟩ | hlast)
    · refine ⟨min k xs.length, ?_⟩
      rwa [List.take_append_of_le_length (Nat.min_le_right _ _), ← List.take_take,
        List.take_length]
    · exact ⟨xs.length + 1, by rwa [List.take_of_length_le (by simp)]⟩

/-! ## The rules -/

/-- **What one call preserves, a run preserves** — and every output of the run is one the invariant
vouches for. -/
theorem run_invariant {step : σ → ι → σ × ω} (Inv : σ → Prop) (Good : ω → Prop) (Ok : ι → Prop)
    (hstep : ∀ s x, Inv s → Ok x → Inv (step s x).1 ∧ Good (step s x).2) {s : σ} {xs : List ι}
    (hs : Inv s) (hxs : ∀ x ∈ xs, Ok x) :
    Inv (run step s xs).1 ∧ ∀ o ∈ (run step s xs).2, Good o := by
  induction xs generalizing s with
  | nil => exact ⟨hs, fun o ho => absurd ho List.not_mem_nil⟩
  | cons x xs ih =>
    obtain ⟨hx, hrest⟩ := List.forall_mem_cons.mp hxs
    obtain ⟨hinv, hgood⟩ := hstep s x hs hx
    obtain ⟨hend, houts⟩ := ih hinv hrest
    exact ⟨hend, List.forall_mem_cons.mpr ⟨hgood, houts⟩⟩

/-- **An invariant on the inputs so far** — what one more call keeps, a run from none keeps. -/
theorem run_history {step : σ → ι → σ × ω} (Inv : List ι → σ → Prop)
    (hstep : ∀ hist s x, Inv hist s → Inv (hist ++ [x]) (step s x).1) {s : σ} (hs : Inv [] s)
    (xs : List ι) : Inv xs (run step s xs).1 := by
  induction xs using List.reverseRecOn with
  | nil => exact hs
  | append_singleton xs x ih =>
    rw [run_concat]
    exact hstep xs _ x ih

/-- **An invariant on the outputs so far** — what one more call keeps, a run from none keeps. -/
theorem run_outputs {step : σ → ι → σ × ω} (Inv : List ω → σ → Prop)
    (hstep : ∀ outs s x, Inv outs s → Inv (outs ++ [(step s x).2]) (step s x).1) {s : σ}
    (hs : Inv [] s) (xs : List ι) : Inv (run step s xs).2 (run step s xs).1 := by
  induction xs using List.reverseRecOn with
  | nil => exact hs
  | append_singleton xs x ih =>
    rw [run_concat]
    exact hstep _ _ x ih

/-- **Two routines that agree call by call** agree on a run. -/
theorem run_simulation {σ' : Type*} {step : σ → ι → σ × ω} {step' : σ' → ι → σ' × ω}
    (R : σ → σ' → Prop)
    (hstep : ∀ s s' x, R s s' → R (step s x).1 (step' s' x).1 ∧ (step s x).2 = (step' s' x).2)
    {s : σ} {s' : σ'} (hs : R s s') (xs : List ι) :
    R (run step s xs).1 (run step' s' xs).1 ∧ (run step s xs).2 = (run step' s' xs).2 := by
  induction xs generalizing s s' with
  | nil => exact ⟨hs, rfl⟩
  | cons x xs ih =>
    obtain ⟨hnext, hout⟩ := hstep s s' x hs
    obtain ⟨hend, houts⟩ := ih hnext
    exact ⟨hend, by rw [run_cons_snd, run_cons_snd, hout, houts]⟩

/-- What each call hands on of its input, a run hands on. -/
theorem map_run {β : Type*} {step : σ → ι → σ × ω} (shown : ω → β) (e : ι → β)
    (hstep : ∀ s x, shown (step s x).2 = e x) (s : σ) (xs : List ι) :
    (run step s xs).2.map shown = xs.map e := by
  induction xs generalizing s with
  | nil => rfl
  | cons x xs ih => rw [run_cons_snd, List.map_cons, hstep, ih, List.map_cons]

/-- **A routine that stores what it reads** hands out what it makes of two successive readings. -/
theorem run_stamps {κ β : Type*} {step : σ → ι → σ × ω} (Inv : σ → Prop) (stamp : σ → κ)
    (reading : ι → κ) (shown : ω → β) (g : κ → κ → β)
    (hstep : ∀ s x, Inv s → Inv (step s x).1 ∧ stamp (step s x).1 = reading x
      ∧ shown (step s x).2 = g (stamp s) (reading x)) {s : σ} (hs : Inv s) (xs : List ι) :
    (run step s xs).2.map shown
      = List.zipWith g (stamp s :: xs.map reading) (xs.map reading) := by
  induction xs generalizing s with
  | nil => rfl
  | cons x xs ih =>
    obtain ⟨hinv, hstamp, hshown⟩ := hstep s x hs
    rw [run_cons_snd, List.map_cons, hshown, ih hinv, hstamp, List.map_cons,
      List.zipWith_cons_cons]

/-- **A condition met at every call of a run**, each time in the state the calls before it left. -/
def AllCalls (step : σ → ι → σ × ω) (c : σ → ι → Prop) : σ → List ι → Prop
  | _, [] => True
  | s, x :: xs => c s x ∧ AllCalls step c (step s x).1 xs

@[simp] theorem allCalls_nil (step : σ → ι → σ × ω) (c : σ → ι → Prop) (s : σ) :
    AllCalls step c s [] := trivial

@[simp] theorem allCalls_cons (step : σ → ι → σ × ω) (c : σ → ι → Prop) (s : σ) (x : ι)
    (xs : List ι) :
    AllCalls step c s (x :: xs) ↔ c s x ∧ AllCalls step c (step s x).1 xs := Iff.rfl

/-- **A condition that is exact for one call is exact for a run.**  The invariant only has to
survive the calls that meet the condition: at the first that does not, the outputs are already
bad. -/
theorem run_forall₂_iff {step : σ → ι → σ × ω} (Inv : σ → Prop) (c : σ → ι → Prop)
    (Good : ι → ω → Prop)
    (hstep : ∀ s x, Inv s → (Good x (step s x).2 ↔ c s x) ∧ (c s x → Inv (step s x).1))
    {s : σ} (hs : Inv s) (xs : List ι) :
    List.Forall₂ Good xs (run step s xs).2 ↔ AllCalls step c s xs := by
  induction xs generalizing s with
  | nil => exact iff_of_true List.Forall₂.nil trivial
  | cons x xs ih =>
    obtain ⟨hiff, hinv⟩ := hstep s x hs
    rw [run_cons_snd, List.forall₂_cons, allCalls_cons, hiff]
    exact and_congr_right fun hc => ih (hinv hc)

/-- A condition on the inputs alone is met at every call when every input meets it. -/
theorem allCalls_iff_forall_mem (step : σ → ι → σ × ω) (c : ι → Prop) (s : σ) (xs : List ι) :
    AllCalls step (fun _ => c) s xs ↔ ∀ x ∈ xs, c x := by
  induction xs generalizing s with
  | nil => simp
  | cons x xs ih => rw [allCalls_cons, ih, List.forall_mem_cons]

/-- A property of the outputs alone, as a relation between the two lists. -/
theorem forall₂_run_iff_forall_mem (step : σ → ι → σ × ω) (p : ω → Prop) (s : σ) (xs : List ι) :
    List.Forall₂ (fun _ o => p o) xs (run step s xs).2 ↔ ∀ o ∈ (run step s xs).2, p o := by
  induction xs generalizing s with
  | nil => simp
  | cons x xs ih => rw [run_cons_snd, List.forall₂_cons, ih, List.forall_mem_cons]

/-- Outputs that are a function of the inputs, as a relation between the two lists. -/
theorem forall₂_eq_map_iff (e : ι → ω) (xs : List ι) (os : List ω) :
    List.Forall₂ (fun x o => o = e x) xs os ↔ os = xs.map e := by
  induction xs generalizing os with
  | nil => rw [List.forall₂_nil_left_iff, List.map_nil]
  | cons x xs ih =>
    cases os with
    | nil => simp
    | cons o os => rw [List.forall₂_cons, ih, List.map_cons, List.cons.injEq]

end EmbeddedMCU

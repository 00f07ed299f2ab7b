import Mathlib.Data.List.Forall2
import Mathlib.Tactic.Common

/-!
# Machinery/Script — routines that follow a script and stop where it fails

    script    q₁  q₂  …  qₖ  qₖ₊₁ …          what is asked, and what is expected of the reply
    log       r₁  r₂  …  rₖ                  r₁ … rₖ₋₁ as expected, rₖ the first that is not

`Outcome` relates a script to the logs it may leave: complete and as expected throughout, or broken
off at the first reply that is not.  A stateful routine `Follows` a script when every run of it
leaves such a log and its result tells which; the rules compose the scripts of its parts.
-/

namespace EmbeddedMCU

variable {Q R : Type*}

/-- **The log of a script**, and whether it was finished. -/
inductive Outcome (ok bad : Q → R → Prop) : List Q → List R → Bool → Prop
  | nil : Outcome ok bad [] [] true
  | cons {q r qs rs b} : ok q r → Outcome ok bad qs rs b → Outcome ok bad (q :: qs) (r :: rs) b
  | stop {q r qs} : bad q r → Outcome ok bad (q :: qs) [r] false

/-- **Broken off at the first reply that is not as expected**: the log ends with it, and everything
before is as expected. -/
def StopsAtFirst (ok bad : Q → R → Prop) (qs : List Q) (rs : List R) : Prop :=
  ∃ done q rest acc r, qs = done ++ q :: rest ∧ rs = acc ++ [r] ∧ List.Forall₂ ok done acc ∧ bad q r

namespace Outcome

variable {ok bad : Q → R → Prop} {qs qs' : List Q} {rs rs' : List R} {b : Bool}

theorem forall₂ (h : Outcome ok bad qs rs true) : List.Forall₂ ok qs rs := by
  generalize hb : true = b at h
  induction h with
  | nil => exact List.Forall₂.nil
  | cons hq _ ih => exact List.Forall₂.cons hq (ih hb)
  | stop => cases hb

theorem stopsAtFirst (h : Outcome ok bad qs rs false) : StopsAtFirst ok bad qs rs := by
  generalize hb : false = b at h
  induction h with
  | nil => cases hb
  | cons hq _ ih =>
    obtain ⟨done, q, rest, acc, r, rfl, rfl, hdone, hbad⟩ := ih hb
    exact ⟨_ :: done, q, rest, _ :: acc, r, rfl, rfl, List.Forall₂.cons hq hdone, hbad⟩
  | stop hbad => exact ⟨[], _, _, [], _, rfl, rfl, List.Forall₂.nil, hbad⟩

/-- A finished script is continued, -/
theorem append (h : Outcome ok bad qs rs true) (h' : Outcome ok bad qs' rs' b) :
    Outcome ok bad (qs ++ qs') (rs ++ rs') b := by
  generalize hb : true = b at h
  induction h with
  | nil => exact h'
  | cons hq _ ih => exact cons hq (ih hb)
  | stop => cases hb

/-- …one that was broken off is not. -/
theorem append_right (h : Outcome ok bad qs rs false) (qs' : List Q) :
    Outcome ok bad (qs ++ qs') rs false := by
  generalize hb : false = b at h
  induction h with
  | nil => cases hb
  | cons hq _ ih => exact cons hq (ih hb)
  | stop hbad => exact stop hbad

end Outcome

/-! ## Routines -/

variable {W α β : Type}

/-- **A routine follows a script**: what it adds to the log is an outcome of the script, and its
result says whether it was finished. -/
def Follows (ok bad : Q → R → Prop) (view : W → List R) (script : List Q) (m : StateM W α)
    (finished : α → Bool) : Prop :=
  ∀ w, ∃ log, view (m w).2 = view w ++ log ∧ Outcome ok bad script log (finished (m w).1)

namespace Follows

variable {ok bad : Q → R → Prop} {view : W → List R} {script script' : List Q}

/-- A routine nobody logs follows the empty script. -/
theorem of_view_eq {m : StateM W α} (h : ∀ w, view (m w).2 = view w) :
    Follows ok bad view [] m fun _ => true :=
  fun w => ⟨[], by rw [h, List.append_nil], Outcome.nil⟩

/-- **One after the other**: a finished script is continued, and after one that was broken off
nothing more is logged. -/
theorem bind {m : StateM W α} {k : α → StateM W β} {finished : α → Bool} {finished' : β → Bool}
    (hm : Follows ok bad view script m finished)
    (hk : ∀ a, finished a = true → Follows ok bad view script' (k a) finished')
    (hstop : ∀ a, finished a = false → ∀ w, view (k a w).2 = view w ∧ finished' (k a w).1 = false) :
    Follows ok bad view (script ++ script') (m >>= k) finished' := by
  intro w
  obtain ⟨log, hlog, hout⟩ := hm w
  change ∃ log', view (k (m w).1 (m w).2).2 = view w ++ log'
    ∧ Outcome ok bad (script ++ script') log' (finished' (k (m w).1 (m w).2).1)
  cases ha : finished (m w).1 with
  | true =>
    obtain ⟨log', hlog', hout'⟩ := hk _ ha (m w).2
    rw [ha] at hout
    exact ⟨log ++ log', by rw [hlog', hlog, List.append_assoc], hout.append hout'⟩
  | false =>
    obtain ⟨hview, hfin⟩ := hstop _ ha (m w).2
    rw [ha] at hout
    exact ⟨log, by rw [hview, hlog], by rw [hfin]; exact hout.append_right _⟩

/-- …where the first part always finishes. -/
theorem seq {m : StateM W α} {k : α → StateM W β} {finished' : β → Bool}
    (hm : Follows ok bad view script m fun _ => true)
    (hk : ∀ a, Follows ok bad view script' (k a) finished') :
    Follows ok bad view (script ++ script') (m >>= k) finished' :=
  hm.bind (fun a _ => hk a) fun _ h => Bool.noConfusion h

/-- What a routine that follows a script leaves in an empty log. -/
theorem outcome {m : StateM W α} {finished : α → Bool} (h : Follows ok bad view script m finished)
    {w : W} (hw : view w = []) : Outcome ok bad script (view (m w).2) (finished (m w).1) := by
  obtain ⟨log, hlog, hout⟩ := h w
  rw [hlog, hw, List.nil_append]
  exact hout

end Follows

end EmbeddedMCU

import EmbeddedMCU.FreeRTOS.TasksPriorities

/-!
# FreeRTOS/TasksRuns — the running task has the highest priority

In any order of calls, ticks and interrupts the scheduler goes on: none of its loops runs on for
ever, and there is always a task to select.  A task that is ready never has a priority above that of
the running one, unless a context switch is on its way, and a context switch selects one of the
highest priority (`scheduler_runs_highest`).
-/

namespace EmbeddedMCU

namespace Tasks

open Kernel

section Steps

variable {idle : ℕ} {k : Kernel}

/-! ## Switching -/

/-- **A switch selects a ready task of the highest priority**, and moves no task. -/
theorem vTaskSwitchContext_highest (h : Placed none k) (hidle : k.IsReady idle)
    (hrunning : k.uxSchedulerSuspended = 0) :
    ∃ k', k.vTaskSwitchContext = some k' ∧ Placed none k' ∧ k'.container = k.container
      ∧ k'.uxCurrentNumberOfTasks = k.uxCurrentNumberOfTasks ∧ k'.IsReady k'.pxCurrentTCB
      ∧ ∀ t, k'.IsReady t → k'.uxPriority t ≤ k'.uxPriority k'.pxCurrentTCB := by
  have hempty : ∀ p, (k.items (.pxReadyTasksLists p)).isEmpty = false
      ↔ ∃ t, k.container (.xStateListItem t) = some (.pxReadyTasksLists p) := by
    intro p
    rw [List.isEmpty_eq_false_iff]
    constructor
    · intro hne
      obtain ⟨x, hx⟩ := List.exists_mem_of_ne_nil _ hne
      obtain ⟨t, rfl⟩ := h.exists_state (.inl ⟨p, rfl⟩) (h.mem_items.mp hx)
      exact ⟨t, h.mem_items.mp hx⟩
    · rintro ⟨t, ht⟩
      exact List.ne_nil_of_mem (h.mem_items.mpr ht)
  have hlow : ∀ p, (k.items (.pxReadyTasksLists p)).isEmpty = false → p < configMAX_PRIORITIES := by
    intro p hp
    obtain ⟨t, ht⟩ := (hempty p).mp hp
    rw [h.ready_eq ht]
    exact h.priority_lt t
  obtain ⟨p₀, hp₀⟩ := hidle
  have hsome := (hempty p₀).mpr ⟨idle, hp₀⟩
  obtain ⟨top, htop, hready, hmax⟩ := TopReady.Covers.highest (h.top.congr hempty)
    ⟨p₀, hlow p₀ hsome, hsome⟩ hlow
  obtain ⟨x, hx, hlast⟩ := TaskList.exists_next (List.isEmpty_eq_false_iff.mp hready)
  have hc : k.container x = some (.pxReadyTasksLists top) := h.mem_items.mp hx
  obtain ⟨t, rfl⟩ := h.exists_state (.inl ⟨top, rfl⟩) hc
  have hcur : (((k.lists.next (.pxReadyTasksLists top)).list
      (.pxReadyTasksLists top)).before.getLastD (.pxReadyTasksLists top)).pvOwner = t := by
    rw [TaskLists.next_list_self, List.getLastD_eq_getLast?, hlast]
    rfl
  have hpriority : top = k.uxPriority t := h.ready_eq hc
  have habove : ∀ t', k.IsReady t' → k.uxPriority t' ≤ k.uxPriority t := by
    rintro t' ⟨p, hp⟩
    rw [← hpriority, ← h.ready_eq hp]
    exact hmax p ((hempty p).mpr ⟨t', hp⟩)
  have hwf := h.wf.next (.pxReadyTasksLists top)
  unfold Kernel.vTaskSwitchContext
  rw [if_neg (not_not_intro hrunning)]
  refine ⟨_, congrArg (Option.map _) htop, ?_⟩
  dsimp only
  cases hsel : k.uxTopReadyPriority with
  | priority old =>
    refine ⟨⟨hwf, h.fits, h.waits, h.swapped, h.priority_lt, ?_⟩, rfl, rfl, ?_, ?_⟩
    · refine ⟨hlow top hready, fun p ⟨t', ht'⟩ => hmax p ((hempty p).mpr ⟨t', ht'⟩)⟩
    · exact hcur ▸ ⟨top, hc⟩
    · intro t' ht'
      change k.uxPriority t' ≤ k.uxPriority _
      rw [hcur]
      exact habove t' ht'
  | bits b =>
    have hcovers := h.top
    rw [hsel] at hcovers
    refine ⟨⟨hwf, h.fits, h.waits, h.swapped, h.priority_lt, hcovers⟩, rfl, rfl, ?_, ?_⟩
    · exact hcur ▸ ⟨top, hc⟩
    · intro t' ht'
      change k.uxPriority t' ≤ k.uxPriority _
      rw [hcur]
      exact habove t' ht'

/-- The switch of the port's interrupt. -/
theorem Inv.vTaskSwitchContext (h : Inv idle false k) :
    ∃ k', ({ k with pendSV := false } : Kernel).vTaskSwitchContext = some k'
      ∧ Inv idle false k' := by
  by_cases hrunning : k.uxSchedulerSuspended = 0
  · have hplaced : Placed none { k with pendSV := false } :=
      ⟨h.placed.wf, h.placed.fits, h.placed.waits, h.placed.swapped, h.placed.priority_lt,
        h.placed.top⟩
    obtain ⟨k', hswitch, hplaced', hc, hcount, -, hmax⟩ :=
      vTaskSwitchContext_highest hplaced h.idle hrunning
    refine ⟨k', hswitch, hplaced', ?_, hcount ▸ h.counted, fun t ht => .inl (hmax t ht)⟩
    obtain ⟨p, hp⟩ := h.idle
    exact ⟨p, by rw [hc]; exact hp⟩
  · refine ⟨_, if_pos hrunning, ?_⟩
    exact h.of_same ⟨rfl, rfl, rfl, fun _ => .inr rfl, id⟩ rfl rfl .inr

/-! ## Runs -/

/-- **One step keeps the invariant**, and the kernel goes on. -/
theorem step_inv (h : Inv idle false k) (a : Action) :
    Inv idle false (step idle k a).1 ∧ (step idle k a).2 = true := by
  cases a with
  | tick =>
    obtain ⟨k', flag, htick, hinv⟩ := xTaskIncrementTick_inv h
    simp only [step, htick, Option.map_some, Kernel.goesOn]
    refine ⟨?_, trivial⟩
    split_ifs with hflag
    · exact hinv.of_same ⟨rfl, rfl, rfl, fun _ => .inl rfl, id⟩ rfl rfl fun _ => .inl (.inl rfl)
    · exact hinv.of_same (.refl k') rfl rfl fun hf => absurd hf hflag
  | switchContext =>
    by_cases hpending : k.pendSV = true
    · obtain ⟨k', hswitch, hinv⟩ := h.vTaskSwitchContext
      simp only [step, hpending, if_true, hswitch, Kernel.goesOn]
      exact ⟨hinv, trivial⟩
    · rw [step, if_neg hpending]
      exact ⟨h, rfl⟩
  | yield => exact ⟨h.of_same ⟨rfl, rfl, rfl, fun _ => .inl rfl, id⟩ rfl rfl .inr, rfl⟩
  | suspendAll => exact ⟨h.of_same ⟨rfl, rfl, rfl, id, id⟩ rfl rfl .inr, rfl⟩
  | resumeAll =>
    by_cases hrunning : k.uxSchedulerSuspended = 0
    · simp only [step, if_pos hrunning]
      exact ⟨h, trivial⟩
    · obtain ⟨k', already, hresume, hinv⟩ := xTaskResumeAll_inv h
      simp only [step, if_neg hrunning, hresume, Option.map_some, Kernel.goesOn]
      exact ⟨hinv, trivial⟩
  | delay xTicksToDelay =>
    refine ⟨?_, rfl⟩
    simp only [step, Kernel.vTaskDelay]
    split_ifs with hwait hticks
    · exact h.delay hwait _ _
    · exact h
    · exact h
  | delayUntil xPreviousWakeTime xTimeIncrement =>
    refine ⟨?_, rfl⟩
    simp only [step, Kernel.xTaskDelayUntil]
    split_ifs with hwait
    · split
      · exact h.delay hwait _ _
      · exact h
    · exact h
  | placeOnEventList e xTicksToWait =>
    refine ⟨?_, rfl⟩
    simp only [step]
    split_ifs with hwait
    · exact h.vTaskPlaceOnEventList hwait.1 _ _
    · exact h
  | removeFromEventList e =>
    simp only [step]
    cases hitems : k.items (.eventList e) with
    | nil => exact ⟨h, rfl⟩
    | cons x rest =>
      have hx : k.container x = some (.eventList e) :=
        h.placed.mem_items.mp (hitems ▸ List.mem_cons_self)
      obtain ⟨t, rfl⟩ := h.placed.exists_event (.inr ⟨e, rfl⟩) hx
      exact ⟨h.xTaskRemoveFromEventList hx, rfl⟩
  | suspend t =>
    refine ⟨?_, rfl⟩
    simp only [step]
    split_ifs with hstate
    · exact h.vTaskSuspend hstate.1 hstate.2
    · exact h
  | resetNextTaskUnblockTime => exact ⟨h.prvResetNextTaskUnblockTime, rfl⟩
  | resume t => exact ⟨h.vTaskResume t, rfl⟩
  | resumeFromISR t => exact ⟨h.xTaskResumeFromISR t, rfl⟩
  | prioritySet t p =>
    refine ⟨?_, rfl⟩
    simp only [step]
    split_ifs
    · exact h.vTaskPrioritySet t p
    · exact h
  | create t p => exact ⟨h.xTaskCreate t p, rfl⟩

/-- Before the scheduler starts, every task there is is ready. -/
structure Starting (k : Kernel) : Prop where
  placed : Placed none k
  ready : ∀ t, k.container (.xStateListItem t) ≠ none → k.IsReady t
  counted : ∀ t, k.IsReady t → 0 < k.uxCurrentNumberOfTasks
  current : 0 < k.uxCurrentNumberOfTasks → k.IsReady k.pxCurrentTCB
  preempts : ∀ t, k.IsReady t → k.uxPriority t ≤ k.uxPriority k.pxCurrentTCB ∨ k.Switching

theorem starting_blank (portOptimised : Bool) : Starting (blank portOptimised) where
  placed :=
    ⟨TaskLists.Wf.initial _, fun _ _ => nofun, fun _ _ h => absurd rfl h, .inl ⟨rfl, rfl⟩,
      fun _ => Nat.succ_pos 4, by
        cases portOptimised with
        | false => exact ⟨by decide, fun p ⟨t, ht⟩ => nomatch ht⟩
        | true =>
          intro p _
          refine iff_of_false (by simp) fun ⟨t, ht⟩ => nomatch ht⟩
  ready := fun _ h => absurd rfl h
  counted := fun _ ⟨_, h⟩ => nomatch h
  current := fun h => absurd h (Nat.lt_irrefl 0)
  preempts := fun _ ⟨_, h⟩ => nomatch h

/-- A task is created before the scheduler starts. -/
theorem Starting.xTaskCreate (h : Starting k) (t p : ℕ) :
    Starting (k.xTaskCreate t p) ∧ (k.xTaskCreate t p).IsReady t := by
  unfold Kernel.xTaskCreate
  by_cases hnew : k.container (.xStateListItem t) = none
      ∧ (t = k.pxCurrentTCB → k.uxCurrentNumberOfTasks = 0)
  · rw [if_pos hnew]
    have hadding : Adding t k := ⟨h.placed, hnew.1, h.counted, hnew.2, h.preempts⟩
    have hadded := (hadding.prvInitialiseNewTask p).prvAddNewTaskToReadyList
    obtain ⟨q, hc⟩ := hadded.container
    have hself : ((k.prvInitialiseNewTask t p).prvAddNewTaskToReadyList t).IsReady t :=
      ⟨q, by rw [hc, Function.update_self]⟩
    have hold : ∀ t', k.IsReady t' →
        ((k.prvInitialiseNewTask t p).prvAddNewTaskToReadyList t).IsReady t' := by
      intro t' ht'
      by_cases heq : t' = t
      · exact heq ▸ hself
      · exact hadded.ready ht' heq
    refine ⟨⟨hadded.placed, fun t' ht' => ?_, fun _ _ => hadded.counted, fun _ => ?_,
      hadded.preempts⟩, hself⟩
    · by_cases heq : t' = t
      · exact heq ▸ hself
      · refine hold t' (h.ready t' ?_)
        rwa [hc, Function.update_of_ne (by simpa using heq)] at ht'
    · obtain hcur | ⟨hcur, hpos⟩ := hadded.current
      · rw [hcur]
        exact hself
      · rw [hcur]
        exact hold _ (h.current hpos)
  · rw [if_neg hnew]
    refine ⟨h, ?_⟩
    by_cases hoff : k.container (.xStateListItem t) = none
    · rw [not_and, Classical.not_imp] at hnew
      obtain ⟨hcur, hne⟩ := hnew hoff
      rw [hcur]
      exact h.current (Nat.pos_of_ne_zero hne)
    · exact h.ready t hoff

theorem starting_foldl (tasks : List (ℕ × ℕ)) (h : Starting k) :
    Starting (tasks.foldl (fun (k : Kernel) task => k.xTaskCreate task.1 task.2) k) := by
  induction tasks generalizing k with
  | nil => exact h
  | cons task tasks ih => exact ih (h.xTaskCreate task.1 task.2).1

/-- The scheduler is started. -/
theorem started_inv (portOptimised : Bool) (tasks : List (ℕ × ℕ)) (idle : ℕ) :
    Inv idle false (started portOptimised tasks idle) := by
  obtain ⟨hstarting, hidle⟩ :=
    (starting_foldl tasks (starting_blank portOptimised)).xTaskCreate idle 0
  unfold started
  rw [List.foldl_append]
  exact Inv.of_same ⟨hstarting.placed, hidle, hstarting.counted _ hidle,
    fun t ht => (hstarting.preempts t ht).imp_right .inl⟩ ⟨rfl, rfl, rfl, id, id⟩ rfl rfl .inr

end Steps

/-- **The scheduler runs a ready task of the highest priority.**  Over any run of ticks, interrupts
and calls it goes on; a ready task that is above the running one means that a switch is pending or
comes with the next tick; and a switch, at any time the scheduler is not suspended, selects a ready
task that no other is above. -/
theorem scheduler_runs_highest (portOptimised : Bool) (tasks : List (ℕ × ℕ)) (idle : ℕ)
    (actions : List Action) :
    let outcome := run (step idle) (started portOptimised tasks idle) actions
    let k := outcome.1
    (∀ wentOn ∈ outcome.2, wentOn = true)
      ∧ (∀ t, k.IsReady t → k.uxPriority k.pxCurrentTCB < k.uxPriority t →
        k.pendSV = true ∨ k.xYieldPending = true)
      ∧ (k.uxSchedulerSuspended = 0 → ∃ k', k.vTaskSwitchContext = some k'
        ∧ k'.IsReady k'.pxCurrentTCB
        ∧ ∀ t, k'.IsReady t → k'.uxPriority t ≤ k'.uxPriority k'.pxCurrentTCB) := by
  intro outcome k
  obtain ⟨hinv, hwent⟩ := run_invariant (Inv idle false) (fun wentOn => wentOn = true)
    (fun _ => True) (fun _ a h _ => step_inv h a) (started_inv portOptimised tasks idle)
    (fun a (_ : a ∈ actions) => trivial)
  refine ⟨hwent, fun t ht hlt => ?_, fun hrunning => ?_⟩
  · obtain hle | hsw | hflag := hinv.preempts t ht
    · exact absurd hle hlt.not_ge
    · exact hsw
    · exact absurd hflag (by simp)
  · obtain ⟨k', hswitch, -, -, -, hready, hmax⟩ :=
      vTaskSwitchContext_highest hinv.placed hinv.idle hrunning
    exact ⟨k', hswitch, hready, hmax⟩

end Tasks

end EmbeddedMCU

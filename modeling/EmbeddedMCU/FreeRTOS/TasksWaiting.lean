import EmbeddedMCU.FreeRTOS.TasksPlaces

/-!
# FreeRTOS/TasksWaiting — tasks that wait, and what wakes them

    ready ──delay, placeOnEventList, suspend──▸ blocked ──tick, event, resume──▸ ready

A task that is ready never has a priority above that of the running one, unless a context switch is
on its way (`Inv`).  A call that puts a task aside makes no other ready (`Inv.moved`); one that
makes a task ready has to ask for a switch when the task is above the running one (`Inv.wake`).  The
loops of the tick and of `xTaskResumeAll` end, since each turn takes a task off the list they look
at.
-/

namespace EmbeddedMCU

namespace Tasks

open Kernel

/-- **No ready task is above the running one**, unless a switch is on its way, or a flag says that
one has to come. -/
structure Inv (idle : ℕ) (flag : Bool) (k : Kernel) : Prop where
  placed : Placed none k
  idle : k.IsReady idle
  counted : 0 < k.uxCurrentNumberOfTasks
  preempts : ∀ t, k.IsReady t →
    k.uxPriority t ≤ k.uxPriority k.pxCurrentTCB ∨ k.Switching ∨ flag = true

section Steps

variable {idle t : ℕ} {flag flag' : Bool} {moving : Option ℕ} {k k' : Kernel} {l : Addr}

/-- Tasks are moved, and none becomes ready. -/
theorem Inv.moved (h : Inv idle flag k) (hp : Placed none k') (hs : Same k k')
    (hi : k'.IsReady idle) (hr : ∀ t, k'.IsReady t → k.IsReady t) : Inv idle flag k' where
  placed := hp
  idle := hi
  counted := hs.uxCurrentNumberOfTasks ▸ h.counted
  preempts := by
    intro t ht
    rw [hs.uxPriority, hs.pxCurrentTCB]
    exact (h.preempts t (hr t ht)).imp_right (Or.imp_left hs.switching)

/-- No task is moved; the flag is passed on. -/
theorem Inv.of_same (h : Inv idle flag k) (hs : Same k k') (hl : k'.lists = k.lists)
    (htop : k'.uxTopReadyPriority = k.uxTopReadyPriority)
    (hf : flag = true → k'.Switching ∨ flag' = true) : Inv idle flag' k' where
  placed := h.placed.of_same hs hl htop
  idle := by
    have := h.idle
    unfold IsReady Kernel.container at this ⊢
    rwa [hl]
  counted := hs.uxCurrentNumberOfTasks ▸ h.counted
  preempts := by
    intro t ht
    have hready : k.IsReady t := by
      unfold IsReady Kernel.container at ht ⊢
      rwa [hl] at ht
    rw [hs.uxPriority, hs.pxCurrentTCB]
    obtain hle | hsw | hflag := h.preempts t hready
    · exact .inl hle
    · exact .inr (.inl (hs.switching hsw))
    · exact .inr (hf hflag)

/-- A blocked task, off its lists, is made ready. -/
theorem Inv.wake (h : Inv idle flag k) (hb : k.IsBlocked t) (hp : Placed (some t) k')
    (hs : Same k k')
    (hc : ∀ x, k'.container x
      = if x = .xStateListItem t ∨ x = .xEventListItem t then none else k.container x)
    (hf : flag = true → flag' = true)
    (hprio : k.uxPriority k.pxCurrentTCB < k.uxPriority t → flag' = true) :
    Inv idle flag' (k'.prvAddTaskToReadyList t) where
  placed := hp.add_ready (.inr rfl) (by rw [hc, if_pos (.inl rfl)]) (by rw [hc, if_pos (.inr rfl)])
  idle := by
    obtain ⟨p, hready⟩ := h.idle
    have hne : idle ≠ t := by
      rintro rfl
      obtain ⟨l, hl, hnot⟩ := hb
      exact hnot p (Option.some.inj (hl.symm.trans hready))
    refine ⟨p, ?_⟩
    rw [container_prvAddTaskToReadyList, Function.update_of_ne (by simpa using hne), hc,
      if_neg (by simpa using hne)]
    exact hready
  counted := by
    have := h.counted
    rwa [← hs.uxCurrentNumberOfTasks] at this
  preempts := by
    intro t' ht'
    change k'.uxPriority t' ≤ k'.uxPriority k'.pxCurrentTCB ∨ k'.Switching ∨ flag' = true
    rw [hs.uxPriority, hs.pxCurrentTCB]
    by_cases heq : t' = t
    · rw [heq]
      obtain hlt | hle := Nat.lt_or_ge (k.uxPriority k.pxCurrentTCB) (k.uxPriority t)
      · exact .inr (.inr (hprio hlt))
      · exact .inl hle
    · obtain ⟨p, hready⟩ := ht'
      rw [container_prvAddTaskToReadyList, Function.update_of_ne (by simpa using heq), hc,
        if_neg (by simpa using heq)] at hready
      obtain hle | hsw | hflag := h.preempts t' ⟨p, hready⟩
      · exact .inl hle
      · exact .inr (.inl (hs.switching hsw))
      · exact .inr (.inr (hf hflag))

theorem Kernel.IsBlocked.not_ready (hb : k.IsBlocked t) : ¬k.IsReady t := by
  rintro ⟨p, hp⟩
  obtain ⟨l, hl, hne⟩ := hb
  exact hne p (Option.some.inj (hl.symm.trans hp))

/-- A moving task that is off its state list comes off its event list. -/
theorem then_event {k₁ : Kernel} (h : Placed (some t) k₁) (hs : Same k k₁)
    (hc : k₁.container = Function.update k.container (.xStateListItem t) none) :
    let k₂ := if k₁.container (.xEventListItem t) ≠ none then
      (k₁.uxListRemove (.xEventListItem t)).1 else k₁
    Placed (some t) k₂ ∧ Same k k₂
      ∧ ∀ x, k₂.container x
        = if x = .xStateListItem t ∨ x = .xEventListItem t then none else k.container x := by
  intro k₂
  by_cases hev : k₁.container (.xEventListItem t) ≠ none
  · have hk₂ : k₂ = (k₁.uxListRemove (.xEventListItem t)).1 := if_pos hev
    rw [hk₂]
    refine ⟨h.take_event t, hs.trans ⟨rfl, rfl, rfl, id, id⟩, fun x => ?_⟩
    rw [container_uxListRemove, hc]
    simp only [Function.update_apply]
    split_ifs <;> simp_all
  · have hk₂ : k₂ = k₁ := if_neg hev
    rw [hk₂]
    refine ⟨h, hs, fun x => ?_⟩
    rw [not_not, hc, Function.update_of_ne (by simp)] at hev
    rw [hc, Function.update_apply]
    split_ifs with h₁ h₂ h₂
    · rfl
    · exact absurd (.inl h₁) h₂
    · obtain h₂ | h₂ := h₂
      · exact absurd h₂ h₁
      · rw [h₂, hev]
    · rfl

/-- Off both its lists, the state list first. -/
theorem off_state_event (h : Placed none k) (hb : k.IsBlocked t) :
    let k₁ := (k.uxListRemove (.xStateListItem t)).1
    let k₂ := if k₁.container (.xEventListItem t) ≠ none then
      (k₁.uxListRemove (.xEventListItem t)).1 else k₁
    Placed (some t) k₂ ∧ Same k k₂
      ∧ ∀ x, k₂.container x
        = if x = .xStateListItem t ∨ x = .xEventListItem t then none else k.container x :=
  then_event (h.take_blocked (.inl rfl) hb.not_ready) ⟨rfl, rfl, rfl, id, id⟩
    (container_uxListRemove ..)

/-- …and the event list first. -/
theorem off_event_state (h : Placed none k) (hb : k.IsBlocked t) :
    let k₁ := (k.uxListRemove (.xEventListItem t)).1
    let k₂ := (k₁.uxListRemove (.xStateListItem t)).1
    Placed (some t) k₂ ∧ Same k k₂
      ∧ ∀ x, k₂.container x
        = if x = .xStateListItem t ∨ x = .xEventListItem t then none else k.container x := by
  intro k₁ k₂
  have hready : ¬k₁.IsReady t := by
    rintro ⟨p, hp⟩
    exact hb.not_ready ⟨p, (Placed.container_of_remove hp).2⟩
  refine ⟨(h.take_event t).take_blocked (.inl rfl) hready, ⟨rfl, rfl, rfl, id, id⟩, fun x => ?_⟩
  rw [container_uxListRemove, container_uxListRemove]
  simp only [Function.update_apply]
  split_ifs <;> simp_all

/-- The list a task is taken off to be made ready is shorter then. -/
theorem length_items_wake (h : Placed none k) (hwf : (k'.prvAddTaskToReadyList t).lists.Wf)
    (hc : ∀ x, k'.container x
      = if x = .xStateListItem t ∨ x = .xEventListItem t then none else k.container x)
    {x : Addr} (hxt : x = .xStateListItem t ∨ x = .xEventListItem t)
    (hx : k.container x = some l) (hl : ∀ p, l ≠ .pxReadyTasksLists p) :
    ((k'.prvAddTaskToReadyList t).items l).length < (k.items l).length := by
  refine h.length_items_lt hwf hx fun y hy => ?_
  rw [container_prvAddTaskToReadyList, Function.update_apply] at hy
  by_cases hyt : y = .xStateListItem t
  · rw [if_pos hyt] at hy
    exact absurd (Option.some.inj hy).symm (hl _)
  · rw [if_neg hyt, hc] at hy
    by_cases hoff : y = .xStateListItem t ∨ y = .xEventListItem t
    · rw [if_pos hoff] at hy
      exact absurd hy (by simp)
    · rw [if_neg hoff] at hy
      exact ⟨fun heq => hoff (heq ▸ hxt), hy⟩

/-! ## The tick -/

theorem Placed.delayed_not_ready (h : Placed moving k) (p : ℕ) :
    k.pxDelayedTaskList ≠ .pxReadyTasksLists p := by
  obtain heq | heq := h.delayed_eq <;> rw [heq] <;> exact nofun

theorem unblock_eq (k : Kernel) (t : ℕ) :
    (k.unblock t).pxDelayedTaskList = k.pxDelayedTaskList := by
  unfold unblock
  dsimp only
  split_ifs <;> rfl

/-- One turn of the loop of the tick. -/
theorem Inv.unblock (h : Inv idle flag k)
    (hx : k.container (.xStateListItem t) = some k.pxDelayedTaskList) :
    Inv idle (flag || decide (k.uxPriority k.pxCurrentTCB ≤ k.uxPriority t)) (k.unblock t)
      ∧ ((k.unblock t).items k.pxDelayedTaskList).length
        < (k.items k.pxDelayedTaskList).length := by
  have hb : k.IsBlocked t := ⟨_, hx, h.placed.delayed_not_ready⟩
  obtain ⟨hplaced, hsame, hc⟩ := off_state_event h.placed hb
  have hwoken : Inv idle
      (flag || decide (k.uxPriority k.pxCurrentTCB ≤ k.uxPriority t)) (k.unblock t) :=
    h.wake hb hplaced hsame hc (fun hf => by simp [hf]) fun hlt => by simp [hlt.le]
  exact ⟨hwoken,
    length_items_wake h.placed hwoken.placed.wf hc (.inl rfl) hx h.placed.delayed_not_ready⟩

/-- The loop of the tick ends, and makes tasks ready. -/
theorem unblockLoop_inv {n : ℕ} (h : Inv idle flag k)
    (hn : (k.items k.pxDelayedTaskList).length < n) :
    ∃ k' flag', unblockLoop n k flag = some (k', flag') ∧ Inv idle flag' k' := by
  induction n generalizing k flag with
  | zero => exact absurd hn (Nat.not_lt_zero _)
  | succ n ih =>
    rw [unblockLoop]
    cases hitems : k.items k.pxDelayedTaskList with
    | nil =>
      exact ⟨_, _, rfl, h.of_same ⟨rfl, rfl, rfl, id, id⟩ rfl rfl .inr⟩
    | cons x rest =>
      have hx : k.container x = some k.pxDelayedTaskList :=
        h.placed.mem_items.mp (hitems ▸ List.mem_cons_self)
      obtain ⟨t, rfl⟩ := h.placed.exists_state (.inr h.placed.delayed_eq) hx
      by_cases hlater : k.xTickCount < k.lists.value (.xStateListItem t)
      · exact ⟨_, _, if_pos hlater, h.of_same ⟨rfl, rfl, rfl, id, id⟩ rfl rfl .inr⟩
      · obtain ⟨hwoken, hlt⟩ := h.unblock hx
        obtain ⟨k', flag', hloop, hinv⟩ := ih hwoken (by rw [unblock_eq]; omega)
        exact ⟨k', flag', (if_neg hlater).trans hloop, hinv⟩

/-- Where `xNextTaskUnblockTime` is set. -/
theorem Inv.prvResetNextTaskUnblockTime (h : Inv idle flag k) :
    Inv idle flag k.prvResetNextTaskUnblockTime := by
  unfold Kernel.prvResetNextTaskUnblockTime
  split <;> exact h.of_same ⟨rfl, rfl, rfl, id, id⟩ rfl rfl .inr

theorem Inv.taskSWITCH_DELAYED_LISTS (h : Inv idle flag k) :
    Inv idle flag k.taskSWITCH_DELAYED_LISTS := by
  unfold Kernel.taskSWITCH_DELAYED_LISTS
  refine Inv.prvResetNextTaskUnblockTime ?_
  exact h.of_same ⟨rfl, rfl, rfl, id, fun hs => hs.symm.imp And.symm And.symm⟩ rfl rfl .inr

/-- **A tick is counted**, and says when a switch has to come. -/
theorem xTaskIncrementTick_inv (h : Inv idle false k) :
    ∃ k' flag', k.xTaskIncrementTick = some (k', flag') ∧ Inv idle flag' k' := by
  unfold xTaskIncrementTick
  by_cases hrunning : k.uxSchedulerSuspended = 0
  · rw [if_pos hrunning]
    have hticked : Inv idle false { k with xTickCount := k.xTickCount + 1 } :=
      h.of_same ⟨rfl, rfl, rfl, id, id⟩ rfl rfl .inr
    generalize ({ k with xTickCount := k.xTickCount + 1 } : Kernel) = k₁ at hticked
    dsimp only
    have hswitched : Inv idle false
        (if k₁.xTickCount = 0 then k₁.taskSWITCH_DELAYED_LISTS else k₁) := by
      split_ifs
      · exact hticked.taskSWITCH_DELAYED_LISTS
      · exact hticked
    generalize (if k₁.xTickCount = 0 then k₁.taskSWITCH_DELAYED_LISTS else k₁) = k₂ at hswitched
    have hloop : ∃ k' flag',
        (if k₂.xNextTaskUnblockTime ≤ k₂.xTickCount then
          unblockLoop ((k₂.items k₂.pxDelayedTaskList).length + 1) k₂ false
        else some (k₂, false)) = some (k', flag') ∧ Inv idle flag' k' := by
      split_ifs
      · exact unblockLoop_inv hswitched (Nat.lt_succ_self _)
      · exact ⟨k₂, false, rfl, hswitched⟩
    obtain ⟨k₃, flag', hloop, hinv⟩ := hloop
    rw [hloop]
    exact ⟨k₃, _, rfl, hinv.of_same (.refl k₃) rfl rfl fun hf => .inr (by simp [hf])⟩
  · rw [if_neg hrunning]
    exact ⟨_, _, rfl, h.of_same ⟨rfl, rfl, rfl, id, id⟩ rfl rfl .inr⟩

/-! ## Resuming the scheduler -/

/-- The loop over the tasks that were readied meanwhile ends. -/
theorem readyPending_inv {n : ℕ} {any : Bool} (h : Inv idle false k)
    (hn : (k.items .xPendingReadyList).length < n) :
    ∃ k' any', readyPending n k any = some (k', any') ∧ Inv idle false k' := by
  induction n generalizing k any with
  | zero => exact absurd hn (Nat.not_lt_zero _)
  | succ n ih =>
    rw [readyPending]
    cases hitems : k.items .xPendingReadyList with
    | nil => exact ⟨_, _, rfl, h⟩
    | cons x rest =>
      have hx : k.container x = some .xPendingReadyList :=
        h.placed.mem_items.mp (hitems ▸ List.mem_cons_self)
      obtain ⟨t, rfl⟩ := h.placed.exists_event (.inl rfl) hx
      have hb : k.IsBlocked t := h.placed.waits t nofun (by rw [hx]; simp)
      obtain ⟨hplaced, hsame, hc⟩ := off_event_state h.placed hb
      dsimp only [Addr.pvOwner]
      generalize ((k.uxListRemove (.xEventListItem t)).1.uxListRemove (.xStateListItem t)).1 = k₁
        at hplaced hsame hc
      have hwoken : Inv idle (decide (k.uxPriority k.pxCurrentTCB < k.uxPriority t))
          (k₁.prvAddTaskToReadyList t) :=
        h.wake hb hplaced hsame hc (fun hf => absurd hf (by simp)) fun hlt => by simp [hlt]
      have hlt : ((k₁.prvAddTaskToReadyList t).items .xPendingReadyList).length
          < (k.items .xPendingReadyList).length :=
        length_items_wake h.placed hwoken.placed.wf hc (.inr rfl) hx fun p => nofun
      have hpriority : (k₁.prvAddTaskToReadyList t).uxPriority = k.uxPriority :=
        hsame.uxPriority
      have hcurrent : (k₁.prvAddTaskToReadyList t).pxCurrentTCB = k.pxCurrentTCB :=
        hsame.pxCurrentTCB
      rw [← hpriority, ← hcurrent] at hwoken
      generalize k₁.prvAddTaskToReadyList t = k₂ at hwoken hlt
      split_ifs with hle
      · exact ih (hwoken.of_same ⟨rfl, rfl, rfl, fun _ => .inr rfl, id⟩ rfl rfl
          fun _ => .inl (.inr rfl)) (by change (k₂.items _).length < n; omega)
      · refine ih (hwoken.of_same (.refl k₂) rfl rfl fun hf => ?_) (by omega)
        exact absurd (of_decide_eq_true hf).le hle

/-- The ticks that were held back are counted. -/
theorem unwindTicks_inv {n : ℕ} (h : Inv idle false k) :
    ∃ k', unwindTicks n k = some k' ∧ Inv idle false k' := by
  induction n generalizing k with
  | zero => exact ⟨k, rfl, h⟩
  | succ n ih =>
    obtain ⟨k₁, flag, htick, hinv⟩ := xTaskIncrementTick_inv h
    rw [unwindTicks, htick, Option.bind_some]
    refine ih ?_
    split_ifs with hflag
    · exact hinv.of_same ⟨rfl, rfl, rfl, fun _ => .inr rfl, id⟩ rfl rfl fun _ => .inl (.inr rfl)
    · exact hinv.of_same (.refl k₁) rfl rfl fun hf => absurd hf hflag

/-- **The scheduler is resumed.** -/
theorem xTaskResumeAll_inv (h : Inv idle false k) :
    ∃ k' already, k.xTaskResumeAll = some (k', already) ∧ Inv idle false k' := by
  unfold xTaskResumeAll
  have hresumed : Inv idle false { k with uxSchedulerSuspended := k.uxSchedulerSuspended - 1 } :=
    h.of_same ⟨rfl, rfl, rfl, id, id⟩ rfl rfl .inr
  generalize ({ k with uxSchedulerSuspended := k.uxSchedulerSuspended - 1 } : Kernel) = k₁
    at hresumed
  dsimp only
  split_ifs with hlast
  · have hloop : ∃ k' any, readyPending ((k₁.items .xPendingReadyList).length + 1) k₁ false
        = some (k', any) ∧ Inv idle false k' := readyPending_inv hresumed (Nat.lt_succ_self _)
    obtain ⟨k₂, any, hpending, hinv⟩ := hloop
    have hreset : Inv idle false (if any then k₂.prvResetNextTaskUnblockTime else k₂) := by
      split_ifs
      · exact hinv.prvResetNextTaskUnblockTime
      · exact hinv
    rw [hpending, Option.bind_some]
    dsimp only
    generalize (if any then k₂.prvResetNextTaskUnblockTime else k₂) = k₃ at hreset
    obtain ⟨k₄, hticks, hinv⟩ := unwindTicks_inv (n := k₃.xPendedTicks.toNat) hreset
    rw [hticks]
    refine ⟨_, _, rfl, ?_⟩
    split_ifs
    · exact hinv.of_same ⟨rfl, rfl, rfl, fun _ => .inl rfl, id⟩ rfl rfl .inr
    · exact hinv.of_same ⟨rfl, rfl, rfl, id, id⟩ rfl rfl .inr
  · exact ⟨_, _, rfl, hresumed⟩

/-! ## Waiting -/

/-- The running task is moved to a list of those that wait. -/
theorem delayed_placed (h : Placed moving k) (hm : moving = none ∨ moving = some k.pxCurrentTCB)
    (hr : k.IsReady k.pxCurrentTCB) {xTicksToWait : UInt32} {xCanBlockIndefinitely : Bool}
    (hk' : k.prvAddCurrentTaskToDelayedList xTicksToWait xCanBlockIndefinitely = k') :
    Placed none k' ∧ Same k k' ∧ ∃ l, (∀ p, l ≠ .pxReadyTasksLists p)
      ∧ k'.container = Function.update k.container (.xStateListItem k.pxCurrentTCB) (some l) := by
  have hoff := h.take_ready hm hr
  have hsame := same_removeReady k k.pxCurrentTCB (k.uxPriority k.pxCurrentTCB)
  have hc := k.container_removeReady k.pxCurrentTCB (k.uxPriority k.pxCurrentTCB)
  unfold prvAddCurrentTaskToDelayedList at hk'
  dsimp only at hk'
  generalize k.removeReady k.pxCurrentTCB (k.uxPriority k.pxCurrentTCB) = k₁
    at hk' hoff hsame hc
  have hnone : k₁.container (.xStateListItem k.pxCurrentTCB) = none := by
    rw [hc, Function.update_self]
  have hon : ∀ {k₂ : Kernel} {l : Addr},
      (l = .xDelayedTaskList1 ∨ l = .xDelayedTaskList2 ∨ l = .xSuspendedTaskList) →
      k₂.lists.Wf → Same k₁ k₂ → k₂.uxTopReadyPriority = k₁.uxTopReadyPriority →
      k₂.container = Function.update k₁.container (.xStateListItem k.pxCurrentTCB) (some l) →
      Placed none k₂ ∧ Same k k₂ ∧ ∃ l, (∀ p, l ≠ .pxReadyTasksLists p)
        ∧ k₂.container
          = Function.update k.container (.xStateListItem k.pxCurrentTCB) (some l) := by
    intro k₂ l hl hwf hs htop hc₂
    refine ⟨hoff.add_blocked hnone hl hwf hs htop hc₂, hsame.trans hs, l, ?_, ?_⟩
    · obtain rfl | rfl | rfl := hl <;> exact fun p => nofun
    · rw [hc₂, hc, Function.update_idem]
  have hwf := hoff.wf
  have hset := hwf.setItemValue (.xStateListItem k.pxCurrentTCB) (k.xTickCount + xTicksToWait)
  have hdelayed := hoff.delayed_eq
  have hoverflow := hoff.overflow_eq
  split_ifs at hk' <;> subst hk'
  · exact hon (.inr (.inr rfl)) (hwf.insertEnd hnone) ⟨rfl, rfl, rfl, id, id⟩ rfl rfl
  · exact hon (hoverflow.imp_right .inl) (hset.insert hnone) ⟨rfl, rfl, rfl, id, id⟩ rfl rfl
  · exact hon (hdelayed.imp_right .inl) (hset.insert hnone) ⟨rfl, rfl, rfl, id, id⟩ rfl rfl
  · exact hon (hdelayed.imp_right .inl) (hset.insert hnone) ⟨rfl, rfl, rfl, id, id⟩ rfl rfl

/-- The running task may wait. -/
theorem mayWait_iff (h : Placed moving k) : k.mayWait idle = true
    ↔ k.pxCurrentTCB ≠ idle ∧ k.IsReady k.pxCurrentTCB := by
  rw [mayWait, decide_eq_true_iff]
  exact and_congr_right fun _ => ⟨fun hc => ⟨_, hc⟩, Placed.IsReady.priority h⟩

/-- **A task goes to wait**, when it may. -/
theorem Inv.wait (h : Inv idle flag k) (hw : k.mayWait idle = true) (hsame : Same k k')
    (hplaced : Placed none k') (hl : ∀ p, l ≠ .pxReadyTasksLists p)
    (hc : ∀ t, k'.container (.xStateListItem t)
      = if t = k.pxCurrentTCB then some l else k.container (.xStateListItem t)) :
    Inv idle flag k' := by
  obtain ⟨hne, -⟩ := (mayWait_iff h.placed).mp hw
  refine h.moved hplaced hsame ?_ fun t ⟨p, hp⟩ => ?_
  · obtain ⟨p, hp⟩ := h.idle
    exact ⟨p, by rw [hc, if_neg (Ne.symm hne), hp]⟩
  · rw [hc] at hp
    split_ifs at hp with ht
    · exact absurd (Option.some.inj hp) (hl p)
    · exact ⟨p, hp⟩

theorem Inv.delay (h : Inv idle flag k) (hw : k.mayWait idle = true) (xTicksToWait : UInt32)
    (xCanBlockIndefinitely : Bool) :
    Inv idle flag (k.prvAddCurrentTaskToDelayedList xTicksToWait xCanBlockIndefinitely) := by
  obtain ⟨-, hready⟩ := (mayWait_iff h.placed).mp hw
  obtain ⟨hplaced, hsame, l, hl, hc⟩ :=
    delayed_placed h.placed (.inl rfl) hready rfl
  refine h.wait hw hsame hplaced hl fun t => ?_
  rw [hc, Function.update_apply]
  simp only [Addr.xStateListItem.injEq]

/-- A ready task is put on an event list, and is on its way to wait. -/
theorem placed_on_event_list (h : Placed none k) (hready : k.IsReady t) (e : ℕ) :
    Placed (some t) (k.vListInsert (.eventList e) (.xEventListItem t))
      ∧ (k.vListInsert (.eventList e) (.xEventListItem t)).IsReady t := by
  have hevent : k.container (.xEventListItem t) = none := by
    by_contra hne
    exact (h.waits _ nofun hne).not_ready hready
  have hc : (k.vListInsert (.eventList e) (.xEventListItem t)).container
      = Function.update k.container (.xEventListItem t) (some (.eventList e)) := rfl
  refine ⟨h.add_event (.inl rfl) (.inr ⟨e, rfl⟩) (h.wf.insert hevent)
    ⟨rfl, rfl, rfl, id, id⟩ rfl hc, ?_⟩
  obtain ⟨p, hp⟩ := hready
  exact ⟨p, by rw [hc, Function.update_of_ne (by simp), hp]⟩

theorem Inv.vTaskPlaceOnEventList (h : Inv idle flag k) (hw : k.mayWait idle = true) (e : ℕ)
    (xTicksToWait : UInt32) : Inv idle flag (k.vTaskPlaceOnEventList e xTicksToWait) := by
  obtain ⟨-, hready⟩ := (mayWait_iff h.placed).mp hw
  obtain ⟨hplaced₁, hready₁⟩ := placed_on_event_list h.placed hready e
  set k₁ := k.vListInsert (.eventList e) (.xEventListItem k.pxCurrentTCB) with hk₁
  have hc₁ : k₁.container
      = Function.update k.container (.xEventListItem k.pxCurrentTCB) (some (.eventList e)) := rfl
  have hsame₁ : Same k k₁ := ⟨rfl, rfl, rfl, id, id⟩
  obtain ⟨hplaced, hsame, l, hl, hc⟩ := delayed_placed hplaced₁ (.inr rfl) hready₁ rfl
  refine h.wait hw (hsame₁.trans hsame) hplaced hl fun t => ?_
  change (k₁.prvAddCurrentTaskToDelayedList xTicksToWait true).container _ = _
  rw [hc, Function.update_apply, hc₁, Function.update_of_ne (by simp)]
  simp only [Addr.xStateListItem.injEq]
  rfl

/-! ## Events -/

/-- The state items are where they were. -/
theorem Inv.of_event (h : Inv idle flag k) (hp : Placed none k') (hs : Same k k')
    (hc : ∀ t, k'.container (.xStateListItem t) = k.container (.xStateListItem t)) :
    Inv idle flag k' := by
  refine h.moved hp hs ?_ fun t ⟨p, hp⟩ => ⟨p, hc t ▸ hp⟩
  obtain ⟨p, hready⟩ := h.idle
  exact ⟨p, hc idle ▸ hready⟩

/-- A blocked task is held back until the scheduler is resumed. -/
theorem Inv.hold (h : Inv idle flag k) (hb : k.IsBlocked t)
    (hnone : k.container (.xEventListItem t) = none) :
    Inv idle flag (k.vListInsertEnd .xPendingReadyList (.xEventListItem t)) := by
  set k₁ := k.vListInsertEnd .xPendingReadyList (.xEventListItem t)
  have hc : k₁.container
      = Function.update k.container (.xEventListItem t) (some .xPendingReadyList) := rfl
  have hstate : ∀ t, k₁.container (.xStateListItem t) = k.container (.xStateListItem t) :=
    fun t => by rw [hc, Function.update_of_ne (by simp)]
  have hsame : Same k k₁ := ⟨rfl, rfl, rfl, id, id⟩
  have hmoving : Placed (some t) k₁ :=
    h.placed.add_event (.inl rfl) (.inl rfl) (h.placed.wf.insertEnd hnone) hsame rfl hc
  refine h.of_event (hmoving.settle ?_) hsame hstate
  obtain ⟨l, hl, hne⟩ := hb
  exact ⟨l, by rw [hstate, hl], hne⟩

theorem Inv.removeEvent (h : Inv idle flag k) (t : ℕ) :
    Inv idle flag (k.uxListRemove (.xEventListItem t)).1 :=
  h.of_event (h.placed.take_event t) ⟨rfl, rfl, rfl, id, id⟩ fun t' => by
    rw [container_uxListRemove, Function.update_of_ne (by simp)]

/-- **A task is taken off an event list.** -/
theorem Inv.xTaskRemoveFromEventList (h : Inv idle false k) {e : ℕ}
    (hx : k.container (.xEventListItem t) = some (.eventList e)) :
    Inv idle false (k.xTaskRemoveFromEventList t).1 := by
  have hb : k.IsBlocked t := h.placed.waits t nofun (by rw [hx]; simp)
  unfold Kernel.xTaskRemoveFromEventList
  dsimp only
  have hmoved : ∀ {k₂ : Kernel}, (if (k.uxListRemove (.xEventListItem t)).1.uxSchedulerSuspended = 0
        then ((k.uxListRemove (.xEventListItem t)).1.uxListRemove
          (.xStateListItem t)).1.prvAddTaskToReadyList t
        else (k.uxListRemove (.xEventListItem t)).1.vListInsertEnd .xPendingReadyList
          (.xEventListItem t)) = k₂ →
      Inv idle (decide (k₂.uxPriority k₂.pxCurrentTCB < k₂.uxPriority t)) k₂ := by
    intro k₂ hk₂
    split_ifs at hk₂ <;> subst hk₂
    · obtain ⟨hplaced, hsame, hc⟩ := off_event_state h.placed hb
      exact h.wake hb hplaced hsame hc (fun hf => absurd hf (by simp)) fun hlt =>
        decide_eq_true hlt
    · have hoff := h.removeEvent t
      have hheld := hoff.hold (t := t) ?_ (by rw [container_uxListRemove, Function.update_self])
      · exact hheld.of_same (.refl _) rfl rfl fun hf => absurd hf (by simp)
      · obtain ⟨l, hl, hne⟩ := hb
        exact ⟨l, by rw [container_uxListRemove, Function.update_of_ne (by simp), hl], hne⟩
  generalize (if (k.uxListRemove (.xEventListItem t)).1.uxSchedulerSuspended = 0
        then ((k.uxListRemove (.xEventListItem t)).1.uxListRemove
          (.xStateListItem t)).1.prvAddTaskToReadyList t
        else (k.uxListRemove (.xEventListItem t)).1.vListInsertEnd .xPendingReadyList
          (.xEventListItem t)) = k₂ at hmoved
  have hinv := hmoved rfl
  by_cases hlt : k₂.uxPriority k₂.pxCurrentTCB < k₂.uxPriority t
  · rw [if_pos hlt]
    exact hinv.of_same ⟨rfl, rfl, rfl, fun _ => .inr rfl, id⟩ rfl rfl fun _ => .inl (.inr rfl)
  · rw [if_neg hlt]
    exact hinv.of_same (.refl k₂) rfl rfl fun hf => absurd (of_decide_eq_true hf) hlt

/-! ## Suspending a task -/

/-- **A task is suspended**, whatever state it is in. -/
theorem Inv.vTaskSuspend (h : Inv idle flag k) (ht : t ≠ idle)
    (hstate : k.container (.xStateListItem t) ≠ none) : Inv idle flag (k.vTaskSuspend t) := by
  have hplaced := h.placed.take_suspended hstate
  unfold Kernel.vTaskSuspend
  dsimp only
  have hoff : ∀ {k₁ : Kernel}, (if (k.uxListRemove (.xStateListItem t)).2 = 0 then
        (k.uxListRemove (.xStateListItem t)).1.taskRESET_READY_PRIORITY (k.uxPriority t)
      else (k.uxListRemove (.xStateListItem t)).1) = k₁ →
      Same k k₁ ∧ k₁.container = Function.update k.container (.xStateListItem t) none := by
    rintro k₁ rfl
    unfold taskRESET_READY_PRIORITY
    refine ⟨?_, ?_⟩
    · split_ifs <;> exact ⟨rfl, rfl, rfl, id, id⟩
    · split_ifs <;> exact container_uxListRemove ..
  generalize (if (k.uxListRemove (.xStateListItem t)).2 = 0 then
      (k.uxListRemove (.xStateListItem t)).1.taskRESET_READY_PRIORITY (k.uxPriority t)
    else (k.uxListRemove (.xStateListItem t)).1) = k₁ at hplaced hoff
  obtain ⟨hsame, hc⟩ := hoff rfl
  have hevent := then_event hplaced hsame hc
  dsimp only at hevent
  generalize (if k₁.container (.xEventListItem t) ≠ none then
    (k₁.uxListRemove (.xEventListItem t)).1 else k₁) = k₂ at hevent
  obtain ⟨hplaced, hsame, hc⟩ := hevent
  have hnone : k₂.container (.xStateListItem t) = none := by rw [hc, if_pos (.inl rfl)]
  have hcontainer : ∀ t', (k₂.vListInsertEnd .xSuspendedTaskList (.xStateListItem t)).container
      (.xStateListItem t')
      = if t' = t then some .xSuspendedTaskList else k.container (.xStateListItem t') := by
    intro t'
    rw [container_vListInsertEnd, Function.update_apply, hc]
    split_ifs <;> simp_all
  refine h.moved (hplaced.add_blocked hnone (.inr (.inr rfl)) (hplaced.wf.insertEnd hnone)
    ⟨rfl, rfl, rfl, id, id⟩ rfl rfl) (hsame.trans ⟨rfl, rfl, rfl, id, id⟩) ?_ fun t' ⟨p, hp⟩ => ?_
  · obtain ⟨p, hp⟩ := h.idle
    exact ⟨p, by rw [hcontainer, if_neg (Ne.symm ht), hp]⟩
  · rw [hcontainer] at hp
    split_ifs at hp with heq
    · simp at hp
    · exact ⟨p, hp⟩

/-- A suspended task waits for nothing. -/
theorem prvTaskIsTaskSuspended_iff : k.prvTaskIsTaskSuspended t = true
    ↔ k.container (.xStateListItem t) = some .xSuspendedTaskList
      ∧ k.container (.xEventListItem t) = none := by
  rw [prvTaskIsTaskSuspended, decide_eq_true_iff]
  exact and_congr_right fun _ => ⟨And.right, fun hnone => ⟨by simp [hnone], hnone⟩⟩

/-- A suspended task is made ready. -/
theorem Inv.unsuspend (h : Inv idle flag k) (ht : k.prvTaskIsTaskSuspended t = true)
    (hf : flag = true → flag' = true)
    (hprio : k.uxPriority k.pxCurrentTCB < k.uxPriority t → flag' = true) :
    Inv idle flag' ((k.uxListRemove (.xStateListItem t)).1.prvAddTaskToReadyList t) := by
  obtain ⟨hstate, hevent⟩ := prvTaskIsTaskSuspended_iff.mp ht
  have hb : k.IsBlocked t := ⟨_, hstate, fun p => nofun⟩
  refine h.wake hb (h.placed.take_blocked (.inl rfl) hb.not_ready) ⟨rfl, rfl, rfl, id, id⟩
    (fun x => ?_) hf hprio
  rw [container_uxListRemove, Function.update_apply]
  split_ifs with h₁ h₂ h₂
  · rfl
  · exact absurd (.inl h₁) h₂
  · obtain h₂ | h₂ := h₂
    · exact absurd h₂ h₁
    · rw [h₂, hevent]
  · rfl

/-- **A task is resumed.** -/
theorem Inv.vTaskResume (h : Inv idle false k) (t : ℕ) : Inv idle false (k.vTaskResume t) := by
  unfold Kernel.vTaskResume
  by_cases ht : t ≠ k.pxCurrentTCB ∧ k.prvTaskIsTaskSuspended t = true
  · rw [if_pos ht]
    have hinv : Inv idle (decide (k.uxPriority k.pxCurrentTCB ≤ k.uxPriority t))
        ((k.uxListRemove (.xStateListItem t)).1.prvAddTaskToReadyList t) :=
      h.unsuspend ht.2 (fun hf => absurd hf (by simp)) fun hlt => decide_eq_true hlt.le
    change Inv idle false (if k.uxPriority k.pxCurrentTCB ≤ k.uxPriority t then _ else _)
    by_cases hle : k.uxPriority k.pxCurrentTCB ≤ k.uxPriority t
    · rw [if_pos hle]
      exact hinv.of_same ⟨rfl, rfl, rfl, fun _ => .inl rfl, id⟩ rfl rfl fun _ => .inl (.inl rfl)
    · rw [if_neg hle]
      exact hinv.of_same (.refl _) rfl rfl fun hf => absurd (of_decide_eq_true hf) hle
  · rw [if_neg ht]
    exact h

/-- …by an interrupt. -/
theorem Inv.xTaskResumeFromISR (h : Inv idle false k) (t : ℕ) :
    Inv idle false (k.xTaskResumeFromISR t).1 := by
  unfold Kernel.xTaskResumeFromISR
  by_cases ht : k.prvTaskIsTaskSuspended t = true
  · rw [if_pos ht]
    by_cases hrunning : k.uxSchedulerSuspended = 0
    · rw [if_pos hrunning]
      dsimp only
      by_cases hle : k.uxPriority k.pxCurrentTCB ≤ k.uxPriority t
      · have hpending : Inv idle false { k with xYieldPending := true } :=
          h.of_same ⟨rfl, rfl, rfl, fun _ => .inr rfl, id⟩ rfl rfl fun hf => absurd hf (by simp)
        have hinv : Inv idle true ((({ k with xYieldPending := true } : Kernel).uxListRemove
            (.xStateListItem t)).1.prvAddTaskToReadyList t) :=
          hpending.unsuspend ht (fun _ => rfl) fun _ => rfl
        rw [if_pos (decide_eq_true hle)]
        exact hinv.of_same (.refl _) rfl rfl fun _ => .inl (.inr rfl)
      · rw [if_neg (by simpa using hle)]
        exact h.unsuspend ht id fun hlt => absurd hlt.le hle
    · rw [if_neg hrunning]
      obtain ⟨hstate, hevent⟩ := prvTaskIsTaskSuspended_iff.mp ht
      exact h.hold ⟨_, hstate, fun p => nofun⟩ hevent
  · rw [if_neg ht]
    exact h

end Steps

end Tasks

end EmbeddedMCU

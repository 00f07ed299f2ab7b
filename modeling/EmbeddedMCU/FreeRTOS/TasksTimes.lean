import EmbeddedMCU.FreeRTOS.TasksRuns

/-!
# FreeRTOS/TasksTimes — no task oversleeps

    pxDelayedTaskList          xTickCount < xItemValue₀ ≤ xItemValue₁ ≤ …
    pxOverflowDelayedTaskList  xItemValue₀ ≤ xItemValue₁ ≤ … < xTickCount

A delayed task is on the one list when it is due in this round of the tick count, and on the other
when it is due in the next.  In any run both are in order and none of the tasks on them is due
already (`delayed_not_due`), although the tick looks at them only from `xNextTaskUnblockTime` on.
-/

namespace EmbeddedMCU

namespace Tasks

open Kernel

open List_t (portMAX_DELAY)

/-- The lists of the delayed tasks. -/
def IsDelayed : Addr → Prop
  | .xDelayedTaskList1 => True
  | .xDelayedTaskList2 => True
  | _ => False

/-- There are two of them. -/
theorem isDelayed_iff {l : Addr} :
    IsDelayed l ↔ l = .xDelayedTaskList1 ∨ l = .xDelayedTaskList2 := by
  cases l <;> simp [IsDelayed]

/-- The time is the same, and no task has come onto the delayed lists. -/
structure Keeps (k k' : Kernel) : Prop where
  tick : k'.xTickCount = k.xTickCount
  next : k'.xNextTaskUnblockTime = k.xNextTaskUnblockTime
  delayed : k'.pxDelayedTaskList = k.pxDelayedTaskList
  overflow : k'.pxOverflowDelayedTaskList = k.pxOverflowDelayedTaskList
  items : ∀ l, IsDelayed l → (k'.items l).Sublist (k.items l)
  value : ∀ t, k'.lists.value (.xStateListItem t) = k.lists.value (.xStateListItem t)

section Keeps

variable {k k' k₁ k₂ k₃ : Kernel} {l : Addr}

theorem Keeps.refl (k : Kernel) : Keeps k k :=
  ⟨rfl, rfl, rfl, rfl, fun _ _ => List.Sublist.refl _, fun _ => rfl⟩

/-- What two moves keep, both of them keep. -/
theorem Keeps.trans (h : Keeps k₁ k₂) (h' : Keeps k₂ k₃) : Keeps k₁ k₃ :=
  ⟨h'.tick.trans h.tick, h'.next.trans h.next, h'.delayed.trans h.delayed,
    h'.overflow.trans h.overflow, fun l hl => (h'.items l hl).trans (h.items l hl),
    fun t => (h'.value t).trans (h.value t)⟩

/-- Other fields may change. -/
theorem Keeps.of_eq (hlists : k'.lists = k.lists) (htick : k'.xTickCount = k.xTickCount)
    (hnext : k'.xNextTaskUnblockTime = k.xNextTaskUnblockTime)
    (hdelayed : k'.pxDelayedTaskList = k.pxDelayedTaskList)
    (hoverflow : k'.pxOverflowDelayedTaskList = k.pxOverflowDelayedTaskList) : Keeps k k' := by
  refine ⟨htick, hnext, hdelayed, hoverflow, fun l _ => ?_, fun t => by rw [hlists]⟩
  unfold Kernel.items
  rw [hlists]

/-- **The moves of the kernel keep it**: taking an item off a list, -/
theorem keeps_remove (k : Kernel) (x : Addr) : Keeps k (k.uxListRemove x).1 :=
  ⟨rfl, rfl, rfl, rfl, fun l _ => TaskLists.remove_sublist l, fun t => by
    change (k.lists.remove x).1.value _ = _
    rw [TaskLists.remove_value]⟩

/-- …putting one at the end of another list than the delayed ones, -/
theorem keeps_insertEnd (k : Kernel) (x : Addr) (hl : ¬IsDelayed l) :
    Keeps k (k.vListInsertEnd l x) := by
  refine ⟨rfl, rfl, rfl, rfl, fun l' hl' => ?_, fun _ => rfl⟩
  have hne : l' ≠ l := fun heq => hl (heq ▸ hl')
  change ((k.lists.insertEnd l x).list l').items.Sublist _
  rw [TaskLists.insertEnd_list_of_ne hne]
  exact List.Sublist.refl _

/-- …or in its place there, -/
theorem keeps_insert (k : Kernel) (x : Addr) (hl : ¬IsDelayed l) :
    Keeps k (k.vListInsert l x) := by
  refine ⟨rfl, rfl, rfl, rfl, fun l' hl' => ?_, fun _ => rfl⟩
  have hne : l' ≠ l := fun heq => hl (heq ▸ hl')
  change ((k.lists.insert l x).list l').items.Sublist _
  rw [TaskLists.insert_list_of_ne hne]
  exact List.Sublist.refl _

/-- …and making a task ready. -/
theorem keeps_addReady (k : Kernel) (t : ℕ) : Keeps k (k.prvAddTaskToReadyList t) := by
  unfold prvAddTaskToReadyList
  refine Keeps.trans ?_ (keeps_insertEnd _ _ id)
  exact .of_eq rfl rfl rfl rfl rfl

/-- Values of event items are not those of the delayed tasks. -/
theorem keeps_value (k : Kernel) (t : ℕ) (v : UInt32) :
    Keeps k (k.listSET_LIST_ITEM_VALUE (.xEventListItem t) v) :=
  ⟨rfl, rfl, rfl, rfl, fun _ _ => List.Sublist.refl _, fun t' => by
    change Function.update k.lists.value (.xEventListItem t) v (.xStateListItem t') = _
    rw [Function.update_of_ne (by simp)]⟩

/-- A task that is unblocked leaves the delayed list. -/
theorem keeps_unblock (k : Kernel) (t : ℕ) : Keeps k (k.unblock t) := by
  unfold unblock
  dsimp only
  split_ifs
  · exact (keeps_remove _ _).trans ((keeps_remove _ _).trans (keeps_addReady _ _))
  · exact (keeps_remove _ _).trans (keeps_addReady _ _)

/-- A suspended task leaves its lists for another that is not delayed. -/
theorem keeps_suspend (k : Kernel) (t : ℕ) : Keeps k (k.vTaskSuspend t) := by
  have hreset : Keeps k (if (k.uxListRemove (.xStateListItem t)).2 = 0 then
      (k.uxListRemove (.xStateListItem t)).1.taskRESET_READY_PRIORITY (k.uxPriority t)
    else (k.uxListRemove (.xStateListItem t)).1) := by
    unfold taskRESET_READY_PRIORITY
    split_ifs
    · exact (keeps_remove _ _).trans (.of_eq rfl rfl rfl rfl rfl)
    · exact keeps_remove _ _
    · exact keeps_remove _ _
  unfold vTaskSuspend
  dsimp only
  generalize (if (k.uxListRemove (.xStateListItem t)).2 = 0 then
      (k.uxListRemove (.xStateListItem t)).1.taskRESET_READY_PRIORITY (k.uxPriority t)
    else (k.uxListRemove (.xStateListItem t)).1) = k₁ at hreset
  refine (hreset.trans ?_).trans (keeps_insertEnd _ _ id)
  split_ifs
  · exact keeps_remove _ _
  · exact .refl _

/-- A resumed task becomes ready, -/
theorem keeps_resume (k : Kernel) (t : ℕ) : Keeps k (k.vTaskResume t) := by
  unfold vTaskResume
  dsimp only
  split_ifs
  · exact ((keeps_remove _ _).trans (keeps_addReady _ _)).trans (.of_eq rfl rfl rfl rfl rfl)
  · exact (keeps_remove _ _).trans (keeps_addReady _ _)
  · exact .refl k

/-- …or, resumed by an interrupt while the scheduler is suspended, pending. -/
theorem keeps_resumeFromISR (k : Kernel) (t : ℕ) : Keeps k (k.xTaskResumeFromISR t).1 := by
  unfold xTaskResumeFromISR
  by_cases ht : k.prvTaskIsTaskSuspended t = true
  · rw [if_pos ht]
    by_cases hrunning : k.uxSchedulerSuspended = 0
    · rw [if_pos hrunning]
      dsimp only
      refine Keeps.trans ?_ ((keeps_remove _ _).trans (keeps_addReady _ _))
      split_ifs
      · exact .of_eq rfl rfl rfl rfl rfl
      · exact .refl k
    · rw [if_neg hrunning]
      exact keeps_insertEnd _ _ id
  · rw [if_neg ht]
    exact .refl k

/-- So does a task whose event has come. -/
theorem keeps_removeFromEventList (k : Kernel) (t : ℕ) :
    Keeps k (k.xTaskRemoveFromEventList t).1 := by
  have hmoved : Keeps k (if (k.uxListRemove (.xEventListItem t)).1.uxSchedulerSuspended = 0
      then ((k.uxListRemove (.xEventListItem t)).1.uxListRemove
        (.xStateListItem t)).1.prvAddTaskToReadyList t
      else (k.uxListRemove (.xEventListItem t)).1.vListInsertEnd .xPendingReadyList
        (.xEventListItem t)) := by
    split_ifs
    · exact (keeps_remove _ _).trans ((keeps_remove _ _).trans (keeps_addReady _ _))
    · exact (keeps_remove _ _).trans (keeps_insertEnd _ _ id)
  unfold xTaskRemoveFromEventList
  dsimp only
  generalize (if (k.uxListRemove (.xEventListItem t)).1.uxSchedulerSuspended = 0
      then ((k.uxListRemove (.xEventListItem t)).1.uxListRemove
        (.xStateListItem t)).1.prvAddTaskToReadyList t
      else (k.uxListRemove (.xEventListItem t)).1.vListInsertEnd .xPendingReadyList
        (.xEventListItem t)) = k₂ at hmoved
  by_cases hlt : k₂.uxPriority k₂.pxCurrentTCB < k₂.uxPriority t
  · rw [if_pos hlt]
    exact hmoved.trans (.of_eq rfl rfl rfl rfl rfl)
  · rw [if_neg hlt]
    exact hmoved

/-- A ready task that is taken off its list was not delayed. -/
theorem keeps_removeReady (k : Kernel) (t p : ℕ) : Keeps k (k.removeReady t p) := by
  unfold removeReady
  dsimp only
  split_ifs
  · exact (keeps_remove _ _).trans (.of_eq rfl rfl rfl rfl rfl)
  · exact keeps_remove _ _

/-- A ready task goes to the list of its new priority. -/
theorem keeps_moveReady (k : Kernel) (t p : ℕ) : Keeps k (k.moveReady t p) := by
  unfold moveReady
  split_ifs
  · exact (keeps_removeReady _ _ _).trans (keeps_addReady _ _)
  · exact .refl k

/-- **A change of priority moves no delayed task**, and sets no value but an event item's. -/
theorem keeps_prioritySet (k : Kernel) (t p : ℕ) : Keeps k (k.vTaskPrioritySet t p) := by
  unfold vTaskPrioritySet
  dsimp only
  generalize (if configMAX_PRIORITIES ≤ p then configMAX_PRIORITIES - 1 else p) = new
  by_cases hne : k.uxBasePriority t ≠ new
  · rw [if_pos hne]
    have hmoved : ∀ {k₁ : Kernel}, Keeps k k₁ → ∀ {y : Prop} [Decidable y],
        Keeps k (if y then (k₁.moveReady t (k.uxPriority t)).portYIELD
          else k₁.moveReady t (k.uxPriority t)) := by
      intro k₁ hk₁ y _
      have hmove := hk₁.trans (keeps_moveReady k₁ t (k.uxPriority t))
      split_ifs
      · exact hmove.trans (.of_eq rfl rfl rfl rfl rfl)
      · exact hmove
    refine hmoved ?_
    by_cases hbase : k.uxBasePriority t = k.uxPriority t
    · simp only [if_pos hbase]
      split_ifs
      · refine Keeps.trans ?_ (keeps_value _ _ _)
        exact .of_eq rfl rfl rfl rfl rfl
      · exact .of_eq rfl rfl rfl rfl rfl
    · simp only [if_neg hbase]
      split_ifs
      · refine Keeps.trans ?_ (keeps_value _ _ _)
        exact .of_eq rfl rfl rfl rfl rfl
      · exact .of_eq rfl rfl rfl rfl rfl
  · rw [if_neg hne]
    exact .refl k

/-- A switch goes on in a ready list, and moves no task. -/
theorem keeps_switch (k : Kernel)
    (heq : ({ k with pendSV := false } : Kernel).vTaskSwitchContext = some k') : Keeps k k' := by
  unfold vTaskSwitchContext at heq
  by_cases hrunning : k.uxSchedulerSuspended ≠ 0
  · have hstays := (if_pos hrunning).symm.trans heq
    cases hstays
    exact .of_eq rfl rfl rfl rfl rfl
  · have hmap := (if_neg hrunning).symm.trans heq
    obtain ⟨top, -, hlast⟩ := Option.map_eq_some_iff.mp hmap
    have hnext : ∀ l, ((k.lists.next (.pxReadyTasksLists top)).list l).items.Sublist
        (k.lists.list l).items := fun l => by
      rw [TaskLists.items_next]
    dsimp only at hlast
    split at hlast <;> subst hlast <;>
      exact ⟨rfl, rfl, rfl, rfl, fun l _ => hnext l, fun _ => rfl⟩

/-- A new task is ready. -/
theorem keeps_create (k : Kernel) (t p : ℕ) : Keeps k (k.xTaskCreate t p) := by
  have hadd : ∀ k : Kernel, Keeps k (k.prvAddNewTaskToReadyList t) := by
    intro k
    unfold prvAddNewTaskToReadyList
    dsimp only
    have hchosen : Keeps k (if k.uxCurrentNumberOfTasks + 1 = 1
        ∨ ¬k.xSchedulerRunning ∧ k.uxPriority k.pxCurrentTCB ≤ k.uxPriority t then
        { k with uxCurrentNumberOfTasks := k.uxCurrentNumberOfTasks + 1, pxCurrentTCB := t }
      else { k with uxCurrentNumberOfTasks := k.uxCurrentNumberOfTasks + 1 }) := by
      split_ifs <;> exact .of_eq rfl rfl rfl rfl rfl
    have hready := hchosen.trans (keeps_addReady _ t)
    split_ifs at hready ⊢ <;> first
      | exact hready
      | exact hready.trans (.of_eq rfl rfl rfl rfl rfl)
  unfold xTaskCreate
  split_ifs
  · refine Keeps.trans ?_ (hadd _)
    unfold prvInitialiseNewTask
    refine Keeps.trans ?_ (keeps_value _ _ _)
    exact .of_eq rfl rfl rfl rfl rfl
  · exact .refl k

end Keeps

/-- The delayed lists are in order, and the tasks on the one are due in the next round. -/
structure Ordered (k : Kernel) : Prop where
  sorted : ∀ l, IsDelayed l →
    (k.items l).Pairwise fun x y => k.lists.value x ≤ k.lists.value y
  overflow : ∀ x ∈ k.items k.pxOverflowDelayedTaskList, k.lists.value x < k.xTickCount

/-- **No task is due**, and none will be before the tick looks at the list. -/
structure Timed (k : Kernel) : Prop extends Ordered k where
  due : ∀ x ∈ k.items k.pxDelayedTaskList, k.xTickCount < k.lists.value x
  next : ∀ x ∈ k.items k.pxDelayedTaskList, k.xNextTaskUnblockTime ≤ k.lists.value x

section Timed

variable {idle t : ℕ} {flag flag' : Bool} {moving : Option ℕ} {k k' : Kernel} {l : Addr}

/-- The two pointers lead to the delayed lists. -/
theorem Placed.isDelayed (h : Placed moving k) : IsDelayed k.pxDelayedTaskList :=
  isDelayed_iff.mpr h.delayed_eq

theorem Placed.isDelayed_overflow (h : Placed moving k) :
    IsDelayed k.pxOverflowDelayedTaskList := isDelayed_iff.mpr h.overflow_eq

/-- What is on a delayed list now was on it, with the same value. -/
theorem Keeps.mem (hk : Keeps k k') (h : Placed moving k) (hl : IsDelayed l) {x : Addr}
    (hx : x ∈ k'.items l) : x ∈ k.items l ∧ k'.lists.value x = k.lists.value x := by
  have hmem := (hk.items l hl).subset hx
  obtain ⟨t, rfl⟩ := h.exists_state (.inr (isDelayed_iff.mp hl)) (h.mem_items.mp hmem)
  exact ⟨hmem, hk.value t⟩

/-- **Such a move keeps the order**, -/
theorem Ordered.keeps (ho : Ordered k) (h : Placed moving k) (hk : Keeps k k') : Ordered k' where
  sorted := by
    intro l hl
    refine List.Pairwise.imp_of_mem (fun {x y} hx hy hxy => ?_)
      ((ho.sorted l hl).sublist (hk.items l hl))
    rw [(hk.mem h hl hx).2, (hk.mem h hl hy).2]
    exact hxy
  overflow := by
    intro x hx
    rw [hk.overflow] at hx
    obtain ⟨hmem, hvalue⟩ := hk.mem h h.isDelayed_overflow hx
    rw [hvalue, hk.tick]
    exact ho.overflow x hmem

/-- …and the times. -/
theorem Timed.keeps (ht : Timed k) (h : Placed moving k) (hk : Keeps k k') : Timed k' where
  toOrdered := ht.toOrdered.keeps h hk
  due := by
    intro x hx
    rw [hk.delayed] at hx
    obtain ⟨hmem, hvalue⟩ := hk.mem h h.isDelayed hx
    rw [hvalue, hk.tick]
    exact ht.due x hmem
  next := by
    intro x hx
    rw [hk.delayed] at hx
    obtain ⟨hmem, hvalue⟩ := hk.mem h h.isDelayed hx
    rw [hvalue, hk.next]
    exact ht.next x hmem

/-! ## The tick -/

/-- Where the loop stops, no task is due. -/
theorem unblockLoop_timed {n : ℕ} (h : Inv idle flag k) (ho : Ordered k)
    (heq : unblockLoop n k flag = some (k', flag')) : Timed k' := by
  induction n generalizing k flag with
  | zero => exact nomatch heq
  | succ n ih =>
    rw [unblockLoop] at heq
    cases hitems : k.items k.pxDelayedTaskList with
    | nil =>
      rw [hitems] at heq
      cases heq
      refine ⟨⟨ho.sorted, ho.overflow⟩, fun x hx => ?_, fun x hx => ?_⟩ <;>
        · change x ∈ k.items k.pxDelayedTaskList at hx
          rw [hitems] at hx
          exact absurd hx List.not_mem_nil
    | cons x rest =>
      rw [hitems] at heq
      have hx : k.container x = some k.pxDelayedTaskList :=
        h.placed.mem_items.mp (hitems ▸ List.mem_cons_self)
      obtain ⟨t, rfl⟩ := h.placed.exists_state (.inr h.placed.delayed_eq) hx
      by_cases hlater : k.xTickCount < k.lists.value (.xStateListItem t)
      · have hstop := (if_pos hlater).symm.trans heq
        cases hstop
        have hsorted := ho.sorted _ h.placed.isDelayed
        rw [hitems, List.pairwise_cons] at hsorted
        have hfirst : ∀ y ∈ k.items k.pxDelayedTaskList,
            k.lists.value (.xStateListItem t) ≤ k.lists.value y := by
          rw [hitems]
          exact List.forall_mem_cons.mpr ⟨UInt32.le_refl _, hsorted.1⟩
        exact ⟨⟨ho.sorted, ho.overflow⟩,
          fun y hy => UInt32.lt_of_lt_of_le hlater (hfirst y hy), hfirst⟩
      · have hgo := (if_neg hlater).symm.trans heq
        exact ih (h.unblock hx).1 (ho.keeps h.placed (keeps_unblock k t)) hgo

/-- `xNextTaskUnblockTime` is the time of the first, when the list is in order. -/
theorem next_le_of_reset (ho : Ordered k) (h : Placed moving k) {x : Addr}
    (hx : x ∈ k.items k.pxDelayedTaskList) :
    k.prvResetNextTaskUnblockTime.xNextTaskUnblockTime ≤ k.lists.value x := by
  have hsorted := ho.sorted _ h.isDelayed
  unfold prvResetNextTaskUnblockTime
  cases hitems : k.items k.pxDelayedTaskList with
  | nil =>
    rw [hitems] at hx
    exact absurd hx List.not_mem_nil
  | cons y rest =>
    rw [hitems, List.pairwise_cons] at hsorted
    rw [hitems] at hx
    obtain rfl | hx := List.mem_cons.mp hx
    · exact UInt32.le_refl _
    · exact hsorted.1 x hx

/-- Only `xNextTaskUnblockTime` is reset. -/
theorem reset_lists (k : Kernel) : k.prvResetNextTaskUnblockTime.lists = k.lists
    ∧ k.prvResetNextTaskUnblockTime.xTickCount = k.xTickCount
    ∧ k.prvResetNextTaskUnblockTime.pxDelayedTaskList = k.pxDelayedTaskList
    ∧ k.prvResetNextTaskUnblockTime.pxOverflowDelayedTaskList = k.pxOverflowDelayedTaskList := by
  unfold prvResetNextTaskUnblockTime
  split <;> exact ⟨rfl, rfl, rfl, rfl⟩

/-- The order has nothing to do with it. -/
theorem Ordered.reset (ho : Ordered k) : Ordered k.prvResetNextTaskUnblockTime := by
  obtain ⟨hlists, htick, -, hoverflow⟩ := reset_lists k
  refine ⟨?_, ?_⟩
  · unfold Kernel.items
    rw [hlists]
    exact ho.sorted
  · unfold Kernel.items
    rw [hlists, htick, hoverflow]
    exact ho.overflow

/-- **When it is reset, it is right.** -/
theorem Timed.reset (ht : Timed k) (h : Placed moving k) :
    Timed k.prvResetNextTaskUnblockTime := by
  obtain ⟨hlists, htick, hdelayed, -⟩ := reset_lists k
  refine ⟨ht.toOrdered.reset, ?_, ?_⟩
  · unfold Kernel.items
    rw [hlists, htick, hdelayed]
    exact ht.due
  · unfold Kernel.items
    rw [hlists, hdelayed]
    exact fun x hx => next_le_of_reset ht.toOrdered h hx

/-- **A new round begins.**  The last tick of the old one left no task delayed to a later count, so
the list that is now the overflow list is empty. -/
theorem Timed.switched (ht : Timed k) (hwrap : k.xTickCount + 1 = 0) :
    Ordered { k with
      xTickCount := k.xTickCount + 1
      pxDelayedTaskList := k.pxOverflowDelayedTaskList
      pxOverflowDelayedTaskList := k.pxDelayedTaskList
      xNumOfOverflows := k.xNumOfOverflows + 1 } := by
  refine ⟨ht.sorted, fun x hx => ?_⟩
  have hdue := ht.due x hx
  rw [UInt32.lt_iff_toNat_lt] at hdue
  rw [← UInt32.toNat_inj, UInt32.toNat_add, UInt32.toNat_one, UInt32.toNat_zero] at hwrap
  have := (k.lists.value x).toNat_lt
  omega

/-- In the same round, what has passed has passed. -/
theorem Timed.counted (ht : Timed k) (hwrap : ¬k.xTickCount + 1 = 0) :
    Ordered { k with xTickCount := k.xTickCount + 1 } := by
  refine ⟨ht.sorted, fun x hx => ?_⟩
  refine UInt32.lt_trans (ht.overflow x hx) ?_
  change k.xTickCount < k.xTickCount + 1
  rw [← UInt32.toNat_inj, UInt32.toNat_add, UInt32.toNat_one, UInt32.toNat_zero] at hwrap
  rw [UInt32.lt_iff_toNat_lt, UInt32.toNat_add, UInt32.toNat_one]
  have := k.xTickCount.toNat_lt
  omega

/-- **The count, and the lists when it begins a new round**: what is to come is in order, and the
tick will look at it in time. -/
theorem Timed.ticked (ht : Timed k) (h : Inv idle false k)
    (hk' : (if k.xTickCount + 1 = 0 then
        ({ k with xTickCount := k.xTickCount + 1 } : Kernel).taskSWITCH_DELAYED_LISTS
      else { k with xTickCount := k.xTickCount + 1 }) = k') :
    Inv idle false k' ∧ Ordered k'
      ∧ ∀ x ∈ k'.items k'.pxDelayedTaskList, k'.xNextTaskUnblockTime ≤ k'.lists.value x := by
  have hticked : Inv idle false { k with xTickCount := k.xTickCount + 1 } :=
    h.of_same ⟨rfl, rfl, rfl, id, id⟩ rfl rfl .inr
  split_ifs at hk' with hwrap <;> subst hk'
  · have hswitched := ht.switched hwrap
    have hplaced : Placed none { k with
        xTickCount := k.xTickCount + 1
        pxDelayedTaskList := k.pxOverflowDelayedTaskList
        pxOverflowDelayedTaskList := k.pxDelayedTaskList
        xNumOfOverflows := k.xNumOfOverflows + 1 } :=
      h.placed.of_same ⟨rfl, rfl, rfl, id, fun hs => hs.symm.imp And.symm And.symm⟩ rfl rfl
    refine ⟨hticked.taskSWITCH_DELAYED_LISTS, hswitched.reset, ?_⟩
    intro x hx
    unfold taskSWITCH_DELAYED_LISTS at hx ⊢
    dsimp only at hx ⊢
    obtain ⟨hlists, -, hdelayed, -⟩ := reset_lists { k with
        xTickCount := k.xTickCount + 1
        pxDelayedTaskList := k.pxOverflowDelayedTaskList
        pxOverflowDelayedTaskList := k.pxDelayedTaskList
        xNumOfOverflows := k.xNumOfOverflows + 1 }
    unfold Kernel.items at hx
    rw [hdelayed, hlists] at hx
    rw [hlists]
    exact next_le_of_reset hswitched hplaced hx
  · exact ⟨hticked, ht.counted hwrap, ht.next⟩

/-- **A tick leaves no task that is due.** -/
theorem xTaskIncrementTick_timed (h : Inv idle false k) (ht : Timed k)
    (heq : k.xTaskIncrementTick = some (k', flag)) : Timed k' := by
  unfold xTaskIncrementTick at heq
  by_cases hrunning : k.uxSchedulerSuspended = 0
  · rw [if_pos hrunning] at heq
    dsimp only at heq
    obtain ⟨hinv, ho, hnext⟩ := ht.ticked h rfl
    generalize (if k.xTickCount + 1 = 0 then
        ({ k with xTickCount := k.xTickCount + 1 } : Kernel).taskSWITCH_DELAYED_LISTS
      else { k with xTickCount := k.xTickCount + 1 }) = k₂ at heq hinv ho hnext
    obtain ⟨⟨k₃, flag₃⟩, hloop, hlast⟩ := Option.map_eq_some_iff.mp heq
    cases hlast
    split_ifs at hloop with hlook
    · exact unblockLoop_timed hinv ho hloop
    · cases hloop
      exact ⟨ho, fun x hx => UInt32.lt_of_lt_of_le (UInt32.not_le.mp hlook) (hnext x hx), hnext⟩
  · rw [if_neg hrunning] at heq
    cases heq
    exact ht.keeps h.placed (.of_eq rfl rfl rfl rfl rfl)

/-! ## Resuming the scheduler -/

/-- The loop over the pending tasks makes them ready. -/
theorem readyPending_keeps {n : ℕ} {any any' : Bool}
    (heq : readyPending n k any = some (k', any')) : Keeps k k' := by
  induction n generalizing k any with
  | zero => exact nomatch heq
  | succ n ih =>
    rw [readyPending] at heq
    cases hitems : k.items .xPendingReadyList with
    | nil =>
      rw [hitems] at heq
      cases heq
      exact .refl _
    | cons x rest =>
      rw [hitems] at heq
      refine Keeps.trans ?_ (ih heq)
      have hmoved : Keeps k (((k.uxListRemove (.xEventListItem x.pvOwner)).1.uxListRemove
          (.xStateListItem x.pvOwner)).1.prvAddTaskToReadyList x.pvOwner) :=
        (keeps_remove _ _).trans ((keeps_remove _ _).trans (keeps_addReady _ _))
      split_ifs
      · exact hmoved.trans (.of_eq rfl rfl rfl rfl rfl)
      · exact hmoved

/-- The ticks that were held back are counted, each as if it came now. -/
theorem unwindTicks_timed {n : ℕ} (h : Inv idle false k) (ht : Timed k)
    (heq : unwindTicks n k = some k') : Timed k' := by
  induction n generalizing k with
  | zero =>
    cases heq
    exact ht
  | succ n ih =>
    obtain ⟨k₁, flag, htick, hinv⟩ := xTaskIncrementTick_inv h
    have htimed := xTaskIncrementTick_timed h ht htick
    rw [unwindTicks, htick, Option.bind_some] at heq
    refine ih ?_ ?_ heq
    · split_ifs with hflag
      · exact hinv.of_same ⟨rfl, rfl, rfl, fun _ => .inr rfl, id⟩ rfl rfl fun _ =>
          .inl (.inr rfl)
      · exact hinv.of_same (.refl k₁) rfl rfl fun hf => absurd hf hflag
    · split_ifs
      · exact htimed.keeps hinv.placed (.of_eq rfl rfl rfl rfl rfl)
      · exact htimed

/-- **Resuming the scheduler leaves no task that is due**, however many ticks it held back. -/
theorem xTaskResumeAll_timed (h : Inv idle false k) (ht : Timed k) {already : Bool}
    (heq : k.xTaskResumeAll = some (k', already)) : Timed k' := by
  unfold xTaskResumeAll at heq
  have hresumed : Inv idle false { k with uxSchedulerSuspended := k.uxSchedulerSuspended - 1 } :=
    h.of_same ⟨rfl, rfl, rfl, id, id⟩ rfl rfl .inr
  have htimed : Timed { k with uxSchedulerSuspended := k.uxSchedulerSuspended - 1 } :=
    ht.keeps h.placed (.of_eq rfl rfl rfl rfl rfl)
  generalize ({ k with uxSchedulerSuspended := k.uxSchedulerSuspended - 1 } : Kernel) = k₁
    at hresumed htimed heq
  dsimp only at heq
  by_cases hlast : k₁.uxSchedulerSuspended = 0 ∧ 0 < k₁.uxCurrentNumberOfTasks
  · rw [if_pos hlast] at heq
    have hloop : ∃ k' any, readyPending ((k₁.items .xPendingReadyList).length + 1) k₁ false
        = some (k', any) ∧ Inv idle false k' := readyPending_inv hresumed (Nat.lt_succ_self _)
    obtain ⟨k₂, any, hpending, hinv⟩ := hloop
    have hmoved := htimed.keeps hresumed.placed (readyPending_keeps hpending)
    have hreset : Inv idle false (if any then k₂.prvResetNextTaskUnblockTime else k₂)
        ∧ Timed (if any then k₂.prvResetNextTaskUnblockTime else k₂) := by
      split_ifs
      · exact ⟨hinv.prvResetNextTaskUnblockTime, hmoved.reset hinv.placed⟩
      · exact ⟨hinv, hmoved⟩
    rw [hpending, Option.bind_some] at heq
    dsimp only at heq
    generalize (if any then k₂.prvResetNextTaskUnblockTime else k₂) = k₃ at hreset heq
    obtain ⟨k₄, hticks, hend⟩ := Option.map_eq_some_iff.mp heq
    obtain ⟨k₅, hticks', hinv⟩ := unwindTicks_inv (n := k₃.xPendedTicks.toNat) hreset.1
    obtain rfl := Option.some.inj (hticks.symm.trans hticks')
    have hcounted := unwindTicks_timed hreset.1 hreset.2 hticks
    cases hend
    split_ifs <;> exact hcounted.keeps hinv.placed (.of_eq rfl rfl rfl rfl rfl)
  · rw [if_neg hlast] at heq
    cases heq
    exact htimed

/-! ## Going to sleep -/

/-- A task is put on a delayed list, in its place. -/
theorem Ordered.insert (ho : Ordered k) (h : Placed moving k)
    (hnone : k.container (.xStateListItem t) = none) (hl : IsDelayed l) (v : UInt32)
    (hk' : (k.listSET_LIST_ITEM_VALUE (.xStateListItem t) v).vListInsert l (.xStateListItem t)
      = k') :
    (∀ l, IsDelayed l → (k'.items l).Pairwise fun x y => k'.lists.value x ≤ k'.lists.value y)
      ∧ ∀ l' x, x ∈ k'.items l' → l' = l ∧ k'.lists.value x = v
        ∨ x ∈ k.items l' ∧ k'.lists.value x = k.lists.value x := by
  subst hk'
  set s := k.lists.setItemValue (.xStateListItem t) v
  have hvalue : ∀ l' x, x ∈ k.items l' → s.value x = k.lists.value x := by
    intro l' x hx
    refine Function.update_of_ne (fun heq => ?_) ..
    rw [heq] at hx
    exact h.wf.notMem hnone l' hx
  have hsorted : ∀ l', IsDelayed l' → TaskLists.Sorted s.value (s.list l') := by
    intro l' hl'
    refine List.Pairwise.imp_of_mem (fun {x y} hx hy hxy => ?_) (ho.sorted l' hl')
    rw [hvalue l' x hx, hvalue l' y hy]
    exact hxy
  refine ⟨fun l' hl' => ?_, fun l' x hx => ?_⟩
  · change TaskLists.Sorted s.value ((s.insert l (.xStateListItem t)).list l')
    obtain rfl | hne := eq_or_ne l' l
    · exact TaskLists.Sorted.insert (hsorted l' hl') _
    · rw [TaskLists.insert_list_of_ne hne]
      exact hsorted l' hl'
  · change x ∈ ((s.insert l (.xStateListItem t)).list l').items at hx
    obtain rfl | hne := eq_or_ne l' l
    · rw [TaskLists.insert, TaskLists.set_list_self,
        (TaskList.insertAt_perm _ _ _).mem_iff, List.mem_cons] at hx
      obtain rfl | hx := hx
      · exact .inl ⟨rfl, Function.update_self ..⟩
      · exact .inr ⟨hx, hvalue l' x hx⟩
    · rw [TaskLists.insert_list_of_ne hne] at hx
      exact .inr ⟨hx, hvalue l' x hx⟩

/-- **A task that goes to sleep is put where it is due.** -/
theorem delayed_timed (h : Placed moving k) (hm : moving = none ∨ moving = some k.pxCurrentTCB)
    (hr : k.IsReady k.pxCurrentTCB) (ht : Timed k) {xTicksToWait : UInt32}
    {xCanBlockIndefinitely : Bool} (hticks : 0 < xTicksToWait)
    (hk' : k.prvAddCurrentTaskToDelayedList xTicksToWait xCanBlockIndefinitely = k') :
    Timed k' := by
  have hoff := h.take_ready hm hr
  have hkeeps := keeps_removeReady k k.pxCurrentTCB (k.uxPriority k.pxCurrentTCB)
  have hnone : (k.removeReady k.pxCurrentTCB (k.uxPriority k.pxCurrentTCB)).container
      (.xStateListItem k.pxCurrentTCB) = none := by
    rw [container_removeReady, Function.update_self]
  unfold prvAddCurrentTaskToDelayedList at hk'
  dsimp only at hk'
  generalize k.removeReady k.pxCurrentTCB (k.uxPriority k.pxCurrentTCB) = k₁
    at hk' hoff hkeeps hnone
  have ht₁ := ht.keeps h hkeeps
  rw [← hkeeps.tick] at hk'
  generalize k.pxCurrentTCB = t at hk' hoff hnone
  have hne : k₁.pxDelayedTaskList ≠ k₁.pxOverflowDelayedTaskList := by
    obtain ⟨h₁, h₂⟩ | ⟨h₁, h₂⟩ := hoff.swapped <;> rw [h₁, h₂] <;> exact nofun
  by_cases hforever : xTicksToWait = portMAX_DELAY ∧ xCanBlockIndefinitely
  · rw [if_pos hforever] at hk'
    subst hk'
    exact ht₁.keeps hoff (keeps_insertEnd _ _ id)
  · rw [if_neg hforever] at hk'
    set wake := k₁.xTickCount + xTicksToWait
    by_cases hover : wake < k₁.xTickCount
    · rw [if_pos hover] at hk'
      obtain ⟨hsorted, hmem⟩ := ht₁.toOrdered.insert hoff hnone hoff.isDelayed_overflow wake hk'
      subst hk'
      refine ⟨⟨hsorted, fun x hx => ?_⟩, fun x hx => ?_, fun x hx => ?_⟩
      · obtain ⟨-, hv⟩ | ⟨hx, hv⟩ := hmem _ x hx
        · rw [hv]
          exact hover
        · rw [hv]
          exact ht₁.overflow x hx
      · obtain ⟨heq, -⟩ | ⟨hx, hv⟩ := hmem _ x hx
        · exact absurd heq hne
        · rw [hv]
          exact ht₁.due x hx
      · obtain ⟨heq, -⟩ | ⟨hx, hv⟩ := hmem _ x hx
        · exact absurd heq hne
        · rw [hv]
          exact ht₁.next x hx
    · rw [if_neg hover] at hk'
      have hlater : k₁.xTickCount < wake := by
        rw [UInt32.lt_iff_toNat_lt] at hover hticks ⊢
        rw [UInt32.toNat_zero] at hticks
        rw [UInt32.toNat_add] at hover ⊢
        have := k₁.xTickCount.toNat_lt
        have := xTicksToWait.toNat_lt
        omega
      have htimed : ∀ {k₂ : Kernel},
          (k₁.listSET_LIST_ITEM_VALUE (.xStateListItem t) wake).vListInsert
            k₁.pxDelayedTaskList (.xStateListItem t) = k₂ → ∀ {next : UInt32}, next ≤ wake →
          (∀ x ∈ k₁.items k₁.pxDelayedTaskList, next ≤ k₁.lists.value x) →
          Timed { k₂ with xNextTaskUnblockTime := next } := by
        intro k₂ hk₂ next hwake hnext
        obtain ⟨hsorted, hmem⟩ := ht₁.toOrdered.insert hoff hnone hoff.isDelayed wake hk₂
        subst hk₂
        refine ⟨⟨hsorted, fun x hx => ?_⟩, fun x hx => ?_, fun x hx => ?_⟩
        · obtain ⟨heq, -⟩ | ⟨hx, hv⟩ := hmem _ x hx
          · exact absurd heq (Ne.symm hne)
          · change _ < k₁.xTickCount
            rw [hv]
            exact ht₁.overflow x hx
        · change k₁.xTickCount < _
          obtain ⟨-, hv⟩ | ⟨hx, hv⟩ := hmem _ x hx
          · rw [hv]
            exact hlater
          · rw [hv]
            exact ht₁.due x hx
        · obtain ⟨-, hv⟩ | ⟨hx, hv⟩ := hmem _ x hx
          · rw [hv]
            exact hwake
          · rw [hv]
            exact hnext x hx
      by_cases hnext : wake < k₁.xNextTaskUnblockTime
      · have hset := (if_pos hnext).symm.trans hk'
        subst hset
        exact htimed rfl (UInt32.le_refl _) fun x hx =>
          UInt32.le_trans (UInt32.le_of_lt hnext) (ht₁.next x hx)
      · have hset := (if_neg hnext).symm.trans hk'
        subst hset
        exact htimed rfl (UInt32.not_lt.mp hnext) ht₁.next

/-! ## Runs -/

/-- `xTaskDelayUntil` does not ask for a delay of no ticks. -/
theorem delayUntil_pos {xTickCount pxPreviousWakeTime xTimeIncrement ticks : UInt32}
    (h : (TimeOut.xTaskDelayUntil xTickCount pxPreviousWakeTime xTimeIncrement).2 = some ticks) :
    0 < ticks := by
  unfold TimeOut.xTaskDelayUntil at h
  dsimp only at h
  generalize pxPreviousWakeTime + xTimeIncrement = wake at h
  have hne : ∀ b : Bool, (if b = true then some (wake - xTickCount) else none) = some ticks →
      b = true ∧ wake - xTickCount = ticks := by
    intro b hb
    cases b with
    | false => exact nomatch hb
    | true => exact ⟨rfl, Option.some.inj hb⟩
  obtain ⟨hshould, rfl⟩ := hne _ h
  rw [UInt32.lt_iff_toNat_lt, UInt32.toNat_zero, UInt32.toNat_sub]
  have := xTickCount.toNat_lt
  have := wake.toNat_lt
  split_ifs at hshould with hwrap <;>
    simp only [Bool.and_eq_true, Bool.or_eq_true, decide_eq_true_iff, UInt32.lt_iff_toNat_lt]
      at hshould hwrap <;>
    omega

/-- A task that may wait can be put to sleep. -/
theorem Timed.delay (ht : Timed k) (h : Inv idle flag k) (hw : k.mayWait idle = true)
    {xTicksToWait : UInt32} (hticks : 0 < xTicksToWait) (xCanBlockIndefinitely : Bool) :
    Timed (k.prvAddCurrentTaskToDelayedList xTicksToWait xCanBlockIndefinitely) := by
  obtain ⟨-, hready⟩ := (mayWait_iff h.placed).mp hw
  exact delayed_timed h.placed (.inl rfl) hready ht hticks rfl

/-- **One step leaves no task that is due.** -/
theorem step_timed (h : Inv idle false k) (ht : Timed k) (a : Action) :
    Timed (step idle k a).1 := by
  have hkeeps : ∀ {k'}, Keeps k k' → Timed k' := fun hk => ht.keeps h.placed hk
  cases a with
  | tick =>
    obtain ⟨k', flag, htick, hinv⟩ := xTaskIncrementTick_inv h
    have htimed := xTaskIncrementTick_timed h ht htick
    simp only [step, htick, Option.map_some, Kernel.goesOn]
    split_ifs
    · exact htimed.keeps hinv.placed (.of_eq rfl rfl rfl rfl rfl)
    · exact htimed
  | switchContext =>
    by_cases hpending : k.pendSV = true
    · obtain ⟨k', hswitch, -⟩ := h.vTaskSwitchContext
      simp only [step, hpending, if_true, hswitch, Kernel.goesOn]
      exact hkeeps (keeps_switch k hswitch)
    · rw [step, if_neg hpending]
      exact ht
  | yield => exact hkeeps (.of_eq rfl rfl rfl rfl rfl)
  | suspendAll => exact hkeeps (.of_eq rfl rfl rfl rfl rfl)
  | resumeAll =>
    by_cases hrunning : k.uxSchedulerSuspended = 0
    · simp only [step, if_pos hrunning]
      exact ht
    · obtain ⟨k', already, hresume, -⟩ := xTaskResumeAll_inv h
      simp only [step, if_neg hrunning, hresume, Option.map_some, Kernel.goesOn]
      exact xTaskResumeAll_timed h ht hresume
  | delay xTicksToDelay =>
    simp only [step, Kernel.vTaskDelay]
    split_ifs with hwait hticks
    · exact ht.delay h hwait hticks _
    · exact ht
    · exact ht
  | delayUntil xPreviousWakeTime xTimeIncrement =>
    simp only [step, Kernel.xTaskDelayUntil]
    split_ifs with hwait
    · split
      · next hsome => exact ht.delay h hwait (delayUntil_pos hsome) _
      · exact ht
    · exact ht
  | placeOnEventList e xTicksToWait =>
    simp only [step]
    split_ifs with hwait
    · obtain ⟨-, hready⟩ := (mayWait_iff h.placed).mp hwait.1
      obtain ⟨hplaced, hready⟩ := placed_on_event_list h.placed hready e
      exact delayed_timed hplaced (.inr rfl) hready
        (hkeeps (keeps_insert _ _ id)) hwait.2 rfl
    · exact ht
  | removeFromEventList e =>
    simp only [step]
    split
    · exact hkeeps (keeps_removeFromEventList _ _)
    · exact ht
  | suspend t =>
    simp only [step]
    split_ifs
    · exact hkeeps (keeps_suspend _ _)
    · exact ht
  | resetNextTaskUnblockTime => exact ht.reset h.placed
  | resume t => exact hkeeps (keeps_resume _ _)
  | resumeFromISR t => exact hkeeps (keeps_resumeFromISR _ _)
  | prioritySet t p =>
    simp only [step]
    split_ifs
    · exact hkeeps (keeps_prioritySet _ _ _)
    · exact ht
  | create t p => exact hkeeps (keeps_create _ _ _)

/-- When the scheduler starts no task is delayed. -/
theorem started_timed (portOptimised : Bool) (tasks : List (ℕ × ℕ)) (idle : ℕ) :
    Timed (started portOptimised tasks idle) := by
  have hkeeps : ∀ (tasks : List (ℕ × ℕ)) (k : Kernel),
      Keeps k (tasks.foldl (fun (k : Kernel) task => k.xTaskCreate task.1 task.2) k) := by
    intro tasks
    induction tasks with
    | nil => exact Keeps.refl
    | cons task tasks ih => exact fun k => (keeps_create k _ _).trans (ih _)
  have hempty : ∀ l, IsDelayed l → (started portOptimised tasks idle).items l = [] := fun l hl =>
    List.sublist_nil.mp ((hkeeps (tasks ++ [(idle, 0)]) (blank portOptimised)).items l hl)
  have hplaced := (started_inv portOptimised tasks idle).placed
  refine ⟨⟨fun l hl => ?_, fun x hx => ?_⟩, fun x hx => ?_, fun x hx => ?_⟩
  · rw [hempty l hl]
    exact List.Pairwise.nil
  · rw [hempty _ hplaced.isDelayed_overflow] at hx
    exact absurd hx List.not_mem_nil
  · rw [hempty _ hplaced.isDelayed] at hx
    exact absurd hx List.not_mem_nil
  · rw [hempty _ hplaced.isDelayed] at hx
    exact absurd hx List.not_mem_nil

end Timed

/-- **No task oversleeps.**  After any run of ticks, interrupts and calls, a task on the delayed
list is due at a later tick of this round, and the tick will look at the list in time for it; one on
the overflow list is due in the next round, at a count that has passed in this. -/
theorem delayed_not_due (portOptimised : Bool) (tasks : List (ℕ × ℕ)) (idle : ℕ)
    (actions : List Action) :
    let k := (run (step idle) (started portOptimised tasks idle) actions).1
    (∀ t, k.container (.xStateListItem t) = some k.pxDelayedTaskList →
        k.xTickCount < k.lists.value (.xStateListItem t)
          ∧ k.xNextTaskUnblockTime ≤ k.lists.value (.xStateListItem t))
      ∧ ∀ t, k.container (.xStateListItem t) = some k.pxOverflowDelayedTaskList →
        k.lists.value (.xStateListItem t) < k.xTickCount := by
  intro k
  obtain ⟨⟨hinv, htimed⟩, -⟩ := run_invariant (fun k => Inv idle false k ∧ Timed k)
    (fun _ => True) (fun _ => True)
    (fun _ a h _ => ⟨⟨(step_inv h.1 a).1, step_timed h.1 h.2 a⟩, trivial⟩)
    ⟨started_inv portOptimised tasks idle, started_timed portOptimised tasks idle⟩
    (fun a (_ : a ∈ actions) => trivial)
  exact ⟨fun t ht => ⟨htimed.due _ (hinv.placed.mem_items.mpr ht),
    htimed.next _ (hinv.placed.mem_items.mpr ht)⟩,
    fun t ht => htimed.overflow _ (hinv.placed.mem_items.mpr ht)⟩

end Tasks

end EmbeddedMCU

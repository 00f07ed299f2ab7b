import EmbeddedMCU.FreeRTOS.TasksWaiting

/-!
# FreeRTOS/TasksPriorities — priorities that change, and tasks that are created

A ready task whose priority changes is moved to the list of its new priority, before a switch can
see it on the old one (`Inv.set_priority`).  A new task is put on its ready list (`Added`); before
the scheduler starts it is at once the current task when no other is above it.
-/

namespace EmbeddedMCU

namespace Tasks

open Kernel

section Steps

variable {idle t : ℕ} {flag flag' : Bool} {moving : Option ℕ} {k k' : Kernel} {l : Addr}

/-! ## Priorities, and new tasks -/

/-- A task that is not ready may be given another priority. -/
theorem Placed.set_priority (h : Placed moving k) (ht : ¬k.IsReady t) {f : ℕ → ℕ}
    (hf : ∀ t' ≠ t, f t' = k.uxPriority t') (hlt : f t < configMAX_PRIORITIES) :
    Placed moving { k with uxPriority := f } where
  wf := h.wf
  fits := by
    intro x l hx
    have hfits := h.fits x l hx
    cases x <;> cases l <;> first
      | exact hfits
      | skip
    case xStateListItem.pxReadyTasksLists t' p =>
      have hne : t' ≠ t := by
        rintro rfl
        exact ht ⟨p, hx⟩
      change p = f t'
      rw [hf t' hne]
      exact hfits
  waits := h.waits
  swapped := h.swapped
  priority_lt := by
    intro t'
    by_cases heq : t' = t
    · rw [heq]
      exact hlt
    · change f t' < _
      rw [hf t' heq]
      exact h.priority_lt t'
  top := h.top

/-- The value of an item may change, and the base priorities. -/
theorem Placed.set_value (h : Placed moving k) {lists : TaskLists Addr} (hwf : lists.Wf)
    (hc : lists.container = k.lists.container) (base : ℕ → ℕ) :
    Placed moving { k with lists := lists, uxBasePriority := base } := by
  have hcontainer : ({ k with lists := lists, uxBasePriority := base } : Kernel).container
      = k.container := hc
  exact ⟨hwf, by rw [hcontainer]; exact h.fits,
    by unfold Kernel.IsBlocked; rw [hcontainer]; exact h.waits, h.swapped, h.priority_lt,
    by rw [hcontainer]; exact h.top⟩

/-- Whoever is ready stays ready, and no one else becomes so: who may be above the running task. -/
theorem Inv.preempts_set (h : Inv idle false k) {f : ℕ → ℕ}
    (hf : ∀ t' ≠ t, f t' = k.uxPriority t')
    (hother : t ≠ k.pxCurrentTCB →
      f t ≤ k.uxPriority t ∨ f t ≤ k.uxPriority k.pxCurrentTCB ∨ flag' = true)
    (hself : t = k.pxCurrentTCB → k.uxPriority t ≤ f t ∨ flag' = true)
    (hp : k'.uxPriority = f) (hcur : k'.pxCurrentTCB = k.pxCurrentTCB)
    (hsw : k.Switching → k'.Switching) (hready : ∀ t', k'.IsReady t' → k.IsReady t') :
    ∀ t', k'.IsReady t' →
      k'.uxPriority t' ≤ k'.uxPriority k'.pxCurrentTCB ∨ k'.Switching ∨ flag' = true := by
  intro t' ht'
  rw [hp, hcur]
  have hold := h.preempts t' (hready t' ht')
  have hle : t' ≠ t → k.pxCurrentTCB = t → k.uxPriority t ≤ f t ∨ flag' = true :=
    fun _ heq => hself heq.symm
  by_cases heq : t' = t <;> by_cases hcur' : k.pxCurrentTCB = t
  · rw [heq, hcur']
    exact .inl le_rfl
  · rw [heq, hf _ hcur']
    rw [heq] at hold
    obtain hle | hle | hflag := hother (Ne.symm hcur')
    · obtain hold | hold | hold := hold
      · exact .inl (hle.trans hold)
      · exact .inr (.inl (hsw hold))
      · exact absurd hold (by simp)
    · exact .inl hle
    · exact .inr (.inr hflag)
  · rw [hf t' heq, hcur']
    rw [hcur'] at hold
    obtain hold | hold | hold := hold
    · obtain hle | hflag := hle heq hcur'
      · exact .inl (hold.trans hle)
      · exact .inr (.inr hflag)
    · exact .inr (.inl (hsw hold))
    · exact absurd hold (by simp)
  · rw [hf t' heq, hf _ hcur']
    exact hold.imp_right (Or.imp hsw fun hf => absurd hf (by simp))

/-- **The priority of a task is changed**, and it goes from ready list to ready list. -/
theorem Inv.set_priority (h : Inv idle false k) {f : ℕ → ℕ}
    (hf : ∀ t' ≠ t, f t' = k.uxPriority t') (hlt : f t < configMAX_PRIORITIES)
    (hother : t ≠ k.pxCurrentTCB →
      f t ≤ k.uxPriority t ∨ f t ≤ k.uxPriority k.pxCurrentTCB ∨ flag' = true)
    (hself : t = k.pxCurrentTCB → k.uxPriority t ≤ f t ∨ flag' = true) :
    Inv idle flag' (({ k with uxPriority := f } : Kernel).moveReady t (k.uxPriority t)) := by
  set k₁ : Kernel := { k with uxPriority := f }
  unfold moveReady
  by_cases hc : k.container (.xStateListItem t) = some (.pxReadyTasksLists (k.uxPriority t))
  · have hc₁ : k₁.container (.xStateListItem t) = some (.pxReadyTasksLists (k.uxPriority t)) := hc
    have hready : k.IsReady t := ⟨_, hc⟩
    have hevent : k.container (.xEventListItem t) = none := by
      by_contra hne
      exact (h.placed.waits _ nofun hne).not_ready hready
    rw [if_pos hc₁]
    have hoff := h.placed.take_ready (.inl rfl) hready
    have hsame := same_removeReady k t (k.uxPriority t)
    have hc₂ := k.container_removeReady t (k.uxPriority t)
    have heq : k₁.removeReady t (k.uxPriority t)
        = { k.removeReady t (k.uxPriority t) with uxPriority := f } := by
      unfold removeReady
      dsimp only
      by_cases hlast : (k.uxListRemove (.xStateListItem t)).2 = 0
      · exact (if_pos hlast).trans (by rw [if_pos hlast]; rfl)
      · exact (if_neg hlast).trans (by rw [if_neg hlast]; rfl)
    rw [heq]
    generalize k.removeReady t (k.uxPriority t) = k₂ at hoff hsame hc₂
    have hnone : k₂.container (.xStateListItem t) = none := by rw [hc₂, Function.update_self]
    have hnot : ¬k₂.IsReady t := by
      rintro ⟨p, hp⟩
      rw [hnone] at hp
      exact absurd hp (by simp)
    have hplaced : Placed (some t) { k₂ with uxPriority := f } :=
      hoff.set_priority hnot (fun t' ht' => by rw [hf t' ht', hsame.uxPriority]) hlt
    have hevent₂ : k₂.container (.xEventListItem t) = none := by
      rw [hc₂, Function.update_of_ne (by simp), hevent]
    have hc₃ : (({ k₂ with uxPriority := f } : Kernel).prvAddTaskToReadyList t).container
        = Function.update k₂.container (.xStateListItem t) (some (.pxReadyTasksLists (f t))) := rfl
    have hstays : ∀ t', (({ k₂ with uxPriority := f } : Kernel).prvAddTaskToReadyList t).IsReady t'
        ↔ k.IsReady t' := by
      intro t'
      unfold IsReady
      rw [hc₃, hc₂, Function.update_idem]
      by_cases ht' : t' = t
      · rw [ht', Function.update_self]
        exact iff_of_true ⟨_, rfl⟩ hready
      · rw [Function.update_of_ne (by simpa using ht')]
    refine ⟨hplaced.add_ready (.inr rfl) hnone hevent₂, (hstays idle).mpr h.idle, ?_, ?_⟩
    · have := h.counted
      rwa [← hsame.uxCurrentNumberOfTasks] at this
    · exact h.preempts_set hf hother hself rfl hsame.pxCurrentTCB hsame.switching
        fun t' => (hstays t').mp
  · have hc₁ : ¬k₁.container (.xStateListItem t) = some (.pxReadyTasksLists (k.uxPriority t)) := hc
    rw [if_neg hc₁]
    have hnot : ¬k.IsReady t := fun hready => hc (Placed.IsReady.priority h.placed hready)
    exact ⟨h.placed.set_priority hnot hf hlt, h.idle, h.counted,
      h.preempts_set hf hother hself rfl rfl id fun _ => id⟩

theorem Inv.set_value (h : Inv idle flag k) {lists : TaskLists Addr} (hwf : lists.Wf)
    (hc : lists.container = k.lists.container) (base : ℕ → ℕ) :
    Inv idle flag { k with lists := lists, uxBasePriority := base } := by
  have hcontainer : ({ k with lists := lists, uxBasePriority := base } : Kernel).container
      = k.container := hc
  refine h.of_event (h.placed.set_value hwf hc base) ⟨rfl, rfl, rfl, id, id⟩ fun t => ?_
  rw [hcontainer]

theorem clamp_lt (p : ℕ) :
    (if configMAX_PRIORITIES ≤ p then configMAX_PRIORITIES - 1 else p) < configMAX_PRIORITIES := by
  split_ifs with hle
  · exact Nat.sub_lt (by decide) Nat.one_pos
  · exact Nat.lt_of_not_le hle

/-- **`vTaskPrioritySet`** asks for a switch when a ready task comes to be above the running one. -/
theorem Inv.vTaskPrioritySet (h : Inv idle false k) (t p : ℕ) :
    Inv idle false (k.vTaskPrioritySet t p) := by
  unfold Kernel.vTaskPrioritySet
  dsimp only
  have hlt := clamp_lt p
  generalize (if configMAX_PRIORITIES ≤ p then configMAX_PRIORITIES - 1 else p) = new at hlt
  by_cases hne : k.uxBasePriority t ≠ new
  · rw [if_pos hne]
    set base := Function.update k.uxBasePriority t new
    have hmoved : ∀ {lists : TaskLists Addr} {f : ℕ → ℕ}, lists.Wf →
        lists.container = k.lists.container → (∀ t' ≠ t, f t' = k.uxPriority t') →
        f t < configMAX_PRIORITIES →
        f t = k.uxPriority t ∨ k.uxBasePriority t = k.uxPriority t ∧ f t = new →
        ∀ {k₄ : Kernel}, ({ k with lists := lists, uxBasePriority := base, uxPriority := f } :
          Kernel).moveReady t (k.uxPriority t) = k₄ →
        Inv idle false (if (if k.uxBasePriority t < new then
          t ≠ k.pxCurrentTCB ∧ k.uxPriority k.pxCurrentTCB ≤ new else t = k.pxCurrentTCB) then
            k₄.portYIELD else k₄) := by
      rintro lists f hwf hc hf hft hnew k₄ rfl
      have hvalue := h.set_value hwf hc base
      by_cases hyield : if k.uxBasePriority t < new then
          t ≠ k.pxCurrentTCB ∧ k.uxPriority k.pxCurrentTCB ≤ new else t = k.pxCurrentTCB
      · rw [if_pos hyield]
        have hasked : Inv idle true (({ k with
            lists := lists, uxBasePriority := base, uxPriority := f } :
              Kernel).moveReady t (k.uxPriority t)) :=
          hvalue.set_priority hf hft (fun _ => .inr (.inr rfl)) fun _ => .inr rfl
        exact hasked.of_same ⟨rfl, rfl, rfl, fun _ => .inl rfl, id⟩ rfl rfl
          fun _ => .inl (.inl rfl)
      · rw [if_neg hyield]
        refine hvalue.set_priority hf hft (fun hcur => ?_) fun hcur => .inl ?_
        · change f t ≤ k.uxPriority t ∨ f t ≤ k.uxPriority k.pxCurrentTCB ∨ false = true
          obtain hsame | ⟨hbase, hnew⟩ := hnew
          · exact .inl hsame.le
          · split_ifs at hyield with hup
            · refine .inr (.inl ?_)
              rw [hnew]
              exact (Nat.lt_of_not_le fun hle => hyield ⟨hcur, hle⟩).le
            · exact .inl (by omega)
        · change k.uxPriority t ≤ f t
          obtain hsame | ⟨hbase, hnew⟩ := hnew
          · exact hsame.ge
          · split_ifs at hyield with hup
            · omega
            · exact absurd hcur hyield
    have hset := h.placed.wf.setItemValue (.xEventListItem t) (.ofNat (configMAX_PRIORITIES - new))
    have hupdate : ∀ t' ≠ t, Function.update k.uxPriority t new t' = k.uxPriority t' :=
      fun t' ht' => Function.update_of_ne ht' ..
    have hself : Function.update k.uxPriority t new t = new := Function.update_self ..
    by_cases hbase : k.uxBasePriority t = k.uxPriority t
    · simp only [if_pos hbase]
      by_cases hvalue : k.lists.value (.xEventListItem t) &&& taskEVENT_LIST_ITEM_VALUE_IN_USE = 0
      · simp only [if_pos hvalue]
        exact hmoved hset rfl hupdate (hself.trans_lt hlt) (.inr ⟨hbase, hself⟩) rfl
      · simp only [if_neg hvalue]
        exact hmoved h.placed.wf rfl hupdate (hself.trans_lt hlt) (.inr ⟨hbase, hself⟩) rfl
    · simp only [if_neg hbase]
      by_cases hvalue : k.lists.value (.xEventListItem t) &&& taskEVENT_LIST_ITEM_VALUE_IN_USE = 0
      · simp only [if_pos hvalue]
        exact hmoved hset rfl (fun _ _ => rfl) (h.placed.priority_lt t) (.inl rfl) rfl
      · simp only [if_neg hvalue]
        exact hmoved h.placed.wf rfl (fun _ _ => rfl) (h.placed.priority_lt t) (.inl rfl) rfl
  · rw [if_neg hne]
    exact h

/-- What is known before a task is added: it is on no list, and before the first none is ready. -/
structure Adding (t : ℕ) (k : Kernel) : Prop where
  placed : Placed none k
  off : k.container (.xStateListItem t) = none
  counted : ∀ t, k.IsReady t → 0 < k.uxCurrentNumberOfTasks
  fresh : t = k.pxCurrentTCB → k.uxCurrentNumberOfTasks = 0
  preempts : ∀ t, k.IsReady t → k.uxPriority t ≤ k.uxPriority k.pxCurrentTCB ∨ k.Switching

theorem Adding.not_ready (h : Adding t k) : ¬k.IsReady t := by
  rintro ⟨p, hp⟩
  rw [h.off] at hp
  exact absurd hp (by simp)

theorem Adding.event (h : Adding t k) : k.container (.xEventListItem t) = none := by
  by_contra hne
  obtain ⟨l, hl, -⟩ := h.placed.waits t nofun hne
  rw [h.off] at hl
  exact absurd hl (by simp)

/-- Its priority is set. -/
theorem Adding.prvInitialiseNewTask (h : Adding t k) (p : ℕ) :
    Adding t (k.prvInitialiseNewTask t p) := by
  unfold Kernel.prvInitialiseNewTask
  dsimp only
  have hlt := clamp_lt p
  generalize (if configMAX_PRIORITIES ≤ p then configMAX_PRIORITIES - 1 else p) = new at hlt
  have hself : Function.update k.uxPriority t new t = new := Function.update_self ..
  have hother : ∀ t' ≠ t, Function.update k.uxPriority t new t' = k.uxPriority t' :=
    fun t' ht' => Function.update_of_ne ht' ..
  refine ⟨(h.placed.set_priority h.not_ready hother (hself.trans_lt hlt)).set_value
    (h.placed.wf.setItemValue _ _) rfl _, h.off, h.counted, h.fresh, fun t' ht' => ?_⟩
  have hready : k.IsReady t' := ht'
  have hne : t' ≠ t := by
    rintro rfl
    exact h.not_ready hready
  have hcur : k.pxCurrentTCB ≠ t := fun heq =>
    absurd (h.fresh heq.symm) (h.counted t' hready).ne'
  change Function.update k.uxPriority t new t'
    ≤ Function.update k.uxPriority t new k.pxCurrentTCB ∨ k.Switching
  rw [hother t' hne, hother _ hcur]
  exact h.preempts t' hready

/-- What is known after a task was added. -/
structure Added (t : ℕ) (k k' : Kernel) : Prop where
  placed : Placed none k'
  container : ∃ q, k'.container
    = Function.update k.container (.xStateListItem t) (some (.pxReadyTasksLists q))
  preempts : ∀ t, k'.IsReady t → k'.uxPriority t ≤ k'.uxPriority k'.pxCurrentTCB ∨ k'.Switching
  counted : 0 < k'.uxCurrentNumberOfTasks
  current : k'.pxCurrentTCB = t
    ∨ k'.pxCurrentTCB = k.pxCurrentTCB ∧ 0 < k.uxCurrentNumberOfTasks

/-- **It is ready**, and a switch is on its way when it is above the running task. -/
theorem Adding.prvAddNewTaskToReadyList (h : Adding t k) :
    Added t k (k.prvAddNewTaskToReadyList t) := by
  have hadded : ∀ {k₁ k' : Kernel}, Placed none k₁ → k₁.lists = k.lists →
      k₁.uxPriority = k.uxPriority → 0 < k₁.uxCurrentNumberOfTasks →
      (k₁.pxCurrentTCB = t
          ∧ (0 < k.uxCurrentNumberOfTasks → k.uxPriority k.pxCurrentTCB ≤ k.uxPriority t)
        ∨ k₁.pxCurrentTCB = k.pxCurrentTCB ∧ 0 < k.uxCurrentNumberOfTasks
          ∧ (k.uxPriority t ≤ k.uxPriority k.pxCurrentTCB ∨ k'.Switching)) →
      Same (k₁.prvAddTaskToReadyList t) k' → (k.Switching → k'.Switching) →
      k'.lists = (k₁.prvAddTaskToReadyList t).lists →
      k'.uxTopReadyPriority = (k₁.prvAddTaskToReadyList t).uxTopReadyPriority →
      Added t k k' := by
    intro k₁ k' hplaced hl hp hpos hcase hs hsw hl' htop'
    have hc₁ : k₁.container = k.container := by
      unfold Kernel.container
      rw [hl]
    have hready := hplaced.add_ready (.inl rfl) (hc₁ ▸ h.off) (hc₁ ▸ h.event)
    have hc : k'.container = Function.update k.container (.xStateListItem t)
        (some (.pxReadyTasksLists (k.uxPriority t))) := by
      have hc' : k'.container = (k₁.prvAddTaskToReadyList t).container := by
        unfold Kernel.container
        rw [hl']
      rw [hc', container_prvAddTaskToReadyList, hc₁, hp]
    have hpriority : k'.uxPriority = k.uxPriority := hs.uxPriority.trans hp
    have hcurrent : k'.pxCurrentTCB = k₁.pxCurrentTCB := hs.pxCurrentTCB
    refine ⟨hready.of_same hs hl' htop', ⟨_, hc⟩, fun t' ht' => ?_, ?_, ?_⟩
    · rw [hpriority, hcurrent]
      by_cases heq : t' = t
      · rw [heq]
        obtain ⟨hcur, -⟩ | ⟨hcur, -, hle⟩ := hcase
        · rw [hcur]
          exact .inl le_rfl
        · rw [hcur]
          exact hle
      · have hold : k.IsReady t' := by
          obtain ⟨q, hq⟩ := ht'
          rw [hc, Function.update_of_ne (by simpa using heq)] at hq
          exact ⟨q, hq⟩
        refine (h.preempts t' hold).imp (fun hle => ?_) hsw
        obtain ⟨hcur, habove⟩ | ⟨hcur, -, -⟩ := hcase
        · rw [hcur]
          exact hle.trans (habove (h.counted t' hold))
        · rw [hcur]
          exact hle
    · rw [hs.uxCurrentNumberOfTasks]
      exact hpos
    · rw [hcurrent]
      exact hcase.imp And.left fun hold => ⟨hold.1, hold.2.1⟩
  have hcountedUp : Placed none { k with uxCurrentNumberOfTasks := k.uxCurrentNumberOfTasks + 1 } :=
    ⟨h.placed.wf, h.placed.fits, h.placed.waits, h.placed.swapped, h.placed.priority_lt,
      h.placed.top⟩
  unfold Kernel.prvAddNewTaskToReadyList
  dsimp only
  by_cases hchosen : k.uxCurrentNumberOfTasks + 1 = 1
      ∨ ¬k.xSchedulerRunning ∧ k.uxPriority k.pxCurrentTCB ≤ k.uxPriority t
  · rw [if_pos hchosen]
    have hcase : 0 < k.uxCurrentNumberOfTasks → k.uxPriority k.pxCurrentTCB ≤ k.uxPriority t :=
      fun hpos => (hchosen.resolve_left (by omega)).2
    have hplaced : Placed none
        { k with
          uxCurrentNumberOfTasks := k.uxCurrentNumberOfTasks + 1
          pxCurrentTCB := t } :=
      ⟨h.placed.wf, h.placed.fits, h.placed.waits, h.placed.swapped, h.placed.priority_lt,
        h.placed.top⟩
    split_ifs
    · exact hadded hplaced rfl rfl (Nat.succ_pos _) (.inl ⟨rfl, hcase⟩)
        ⟨rfl, rfl, rfl, fun _ => .inl rfl, id⟩ (fun _ => .inl rfl) rfl rfl
    · exact hadded hplaced rfl rfl (Nat.succ_pos _) (.inl ⟨rfl, hcase⟩)
        (.refl _) id rfl rfl
  · rw [if_neg hchosen]
    have hpos : 0 < k.uxCurrentNumberOfTasks :=
      Nat.pos_of_ne_zero fun hzero => hchosen (.inl (by omega))
    by_cases hyield : k.xSchedulerRunning ∧ k.uxPriority k.pxCurrentTCB < k.uxPriority t
    · have hswitching : (Kernel.portYIELD (Kernel.prvAddTaskToReadyList
          { k with uxCurrentNumberOfTasks := k.uxCurrentNumberOfTasks + 1 } t)).Switching :=
        .inl rfl
      exact (if_pos hyield).symm ▸ hadded hcountedUp rfl rfl (Nat.succ_pos _)
        (.inr ⟨rfl, hpos, .inr hswitching⟩) ⟨rfl, rfl, rfl, fun _ => .inl rfl, id⟩
        (fun _ => .inl rfl) rfl rfl
    · have hle : k.uxPriority t ≤ k.uxPriority k.pxCurrentTCB := by
        by_contra hlt
        refine hchosen (.inr ⟨fun hrunning => hyield ⟨hrunning, Nat.lt_of_not_le hlt⟩, ?_⟩)
        exact (Nat.lt_of_not_le hlt).le
      exact (if_neg hyield).symm ▸ hadded hcountedUp rfl rfl (Nat.succ_pos _)
        (.inr ⟨rfl, hpos, .inl hle⟩) (.refl _) id rfl rfl

/-- The other tasks are where they were. -/
theorem Added.ready (h : Added t k k') {t' : ℕ} (ht' : k.IsReady t') (hne : t' ≠ t) :
    k'.IsReady t' := by
  obtain ⟨q, hc⟩ := h.container
  obtain ⟨p, hp⟩ := ht'
  exact ⟨p, by rw [hc, Function.update_of_ne (by simpa using hne), hp]⟩

/-- **A task is created** while the scheduler runs. -/
theorem Inv.xTaskCreate (h : Inv idle false k) (t p : ℕ) : Inv idle false (k.xTaskCreate t p) := by
  unfold Kernel.xTaskCreate
  by_cases hnew : k.container (.xStateListItem t) = none
      ∧ (t = k.pxCurrentTCB → k.uxCurrentNumberOfTasks = 0)
  · rw [if_pos hnew]
    have hadding : Adding t k :=
      ⟨h.placed, hnew.1, fun _ _ => h.counted, hnew.2, fun t' ht' =>
        (h.preempts t' ht').imp_right (Or.resolve_right · (by simp))⟩
    have hidle : (k.prvInitialiseNewTask t p).IsReady idle := h.idle
    have hadded := (hadding.prvInitialiseNewTask p).prvAddNewTaskToReadyList
    have hne : idle ≠ t := by
      rintro rfl
      exact hadding.not_ready h.idle
    exact ⟨hadded.placed, hadded.ready hidle hne, hadded.counted, fun t' ht' =>
      (hadded.preempts t' ht').imp_right .inl⟩
  · rw [if_neg hnew]
    exact h

end Steps

end Tasks

end EmbeddedMCU

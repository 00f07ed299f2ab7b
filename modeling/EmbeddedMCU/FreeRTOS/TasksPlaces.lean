import EmbeddedMCU.FreeRTOS.Tasks

/-!
# FreeRTOS/TasksPlaces — where the tasks of `tasks.c` are

    state item    ready list of its priority │ delayed lists │ suspended list
    event item             none              │  none, an event list, xPendingReadyList

`Placed` says which list each item may be on, and that `uxTopReadyPriority` knows of every ready
task.  Each call of `list.c` that the scheduler makes keeps it; a task that is on its way from one
list to another may be an exception.
-/

namespace EmbeddedMCU

namespace Tasks

/-! ## `uxTopReadyPriority` -/

namespace TopReady

/-- **It knows of every priority that has ready tasks.** -/
def Covers (ready : ℕ → Prop) : TopReady → Prop
  | priority top => top < configMAX_PRIORITIES ∧ ∀ p, ready p → p ≤ top
  | bits b => ∀ p < 32, b.getLsbD p = true ↔ ready p

variable {ready ready' : ℕ → Prop} {top : TopReady} {p : ℕ}

theorem Covers.congr (h : top.Covers ready) (hr : ∀ q, ready' q ↔ ready q) :
    top.Covers ready' := by
  rwa [show ready' = ready from funext fun q => propext (hr q)]

/-- The bit of a priority. -/
theorem getLsbD_bit {p q : ℕ} (hq : q < 32) : (1#32 <<< p).getLsbD q = decide (q = p) := by
  rw [BitVec.getLsbD_shiftLeft, BitVec.getLsbD_one, Bool.eq_iff_iff]
  simp only [hq, decide_true, Bool.true_and, Bool.and_eq_true, Bool.not_eq_true',
    decide_eq_false_iff_not, decide_eq_true_iff]
  omega

/-- A task of a priority becomes ready. -/
theorem Covers.record (h : top.Covers ready) (hp : p < configMAX_PRIORITIES)
    (hr : ∀ q, ready' q ↔ q = p ∨ ready q) : (top.record p).Covers ready' := by
  cases top with
  | priority top =>
    obtain ⟨htop, hle⟩ := h
    rw [TopReady.record]
    split_ifs with hlt
    · refine ⟨hp, fun q hq => ?_⟩
      obtain rfl | hq := (hr q).mp hq
      · exact le_rfl
      · exact (hle q hq).trans hlt.le
    · refine ⟨htop, fun q hq => ?_⟩
      obtain rfl | hq := (hr q).mp hq
      · exact not_lt.mp hlt
      · exact hle q hq
  | bits b =>
    intro q hq
    rw [hr, ← h q hq, BitVec.getLsbD_or, Bool.or_eq_true, getLsbD_bit hq, decide_eq_true_iff,
      or_comm]

/-- The last task of a priority is no longer ready. -/
theorem Covers.reset (h : top.Covers ready) (hr : ∀ q, ready' q ↔ q ≠ p ∧ ready q) :
    (top.reset p).Covers ready' := by
  cases top with
  | priority top => exact ⟨h.1, fun q hq => h.2 q ((hr q).mp hq).2⟩
  | bits b =>
    intro q hq
    rw [hr, ← h q hq, BitVec.getLsbD_and, Bool.and_eq_true, BitVec.getLsbD_not, getLsbD_bit hq]
    simp [hq, and_comm]

/-- The loop finds the highest from where it starts. -/
theorem firstReady_spec {isEmpty : ℕ → Bool} {n : ℕ} (h : ∃ p ≤ n, isEmpty p = false) :
    ∃ p, firstReady isEmpty n = some p ∧ isEmpty p = false
      ∧ ∀ q ≤ n, isEmpty q = false → q ≤ p := by
  induction n with
  | zero =>
    obtain ⟨p, hp, hready⟩ := h
    obtain rfl := Nat.le_zero.mp hp
    exact ⟨0, by simp [firstReady, hready], hready, fun q hq _ => hq⟩
  | succ n ih =>
    by_cases htop : isEmpty (n + 1)
    · obtain ⟨p, hp, hready⟩ := h
      have hpn : p ≤ n := by
        obtain rfl | hlt := Nat.eq_or_lt_of_le hp
        · simp [htop] at hready
        · exact Nat.le_of_lt_succ hlt
      obtain ⟨top, hfirst, hempty, hmax⟩ := ih ⟨p, hpn, hready⟩
      refine ⟨top, by rw [firstReady, if_pos htop, hfirst], hempty, fun q hq hq' => ?_⟩
      obtain rfl | hlt := Nat.eq_or_lt_of_le hq
      · simp [htop] at hq'
      · exact hmax q (Nat.le_of_lt_succ hlt) hq'
    · have hfalse : isEmpty (n + 1) = false := by simpa using htop
      exact ⟨n + 1, by rw [firstReady, if_neg htop], hfalse, fun q hq _ => hq⟩

/-- **Both ways of selection find the highest priority that has ready tasks.** -/
theorem Covers.highest {isEmpty : ℕ → Bool} (h : top.Covers fun p => isEmpty p = false)
    (hsome : ∃ p < configMAX_PRIORITIES, isEmpty p = false)
    (hlow : ∀ p, isEmpty p = false → p < configMAX_PRIORITIES) :
    ∃ p, top.highest isEmpty = some p ∧ isEmpty p = false
      ∧ ∀ q, isEmpty q = false → q ≤ p := by
  obtain ⟨p₀, hp₀, hready₀⟩ := hsome
  cases top with
  | priority top =>
    obtain ⟨p, hfirst, hempty, hmax⟩ := firstReady_spec ⟨p₀, h.2 p₀ hready₀, hready₀⟩
    exact ⟨p, hfirst, hempty, fun q hq => hmax q (h.2 q hq) hq⟩
  | bits b =>
    have hlt : ∀ {p}, isEmpty p = false → p < 32 := fun hp =>
      (hlow _ hp).trans (by decide)
    have hb : b ≠ 0 := by
      rintro rfl
      have := (h p₀ (hlt hready₀)).mpr hready₀
      simp at this
    have hclz : b.clz.toNat < 32 := by
      have := BitVec.clz_lt_iff_ne_zero.mpr hb
      simpa [BitVec.lt_def] using this
    have hbit : b.getLsbD (31 - b.clz.toNat) = true := by
      have := BitVec.getLsbD_true_clz_of_ne_zero (x := b) (by decide) hb
      simpa using this
    refine ⟨31 - b.clz.toNat, by rw [TopReady.highest, if_neg hb],
      (h _ (by omega)).mp hbit, fun q hq => ?_⟩
    by_contra hlt'
    have hset := (h q (hlt hq)).mpr hq
    have hpow := BitVec.toNat_lt_two_pow_sub_clz (x := b)
    rw [BitVec.getLsbD, Nat.testBit_lt_two_pow] at hset
    · simp at hset
    · exact hpow.trans_le (Nat.pow_le_pow_right (by decide) (by omega))

end TopReady

/-! ## The places -/

/-- Which lists an item may be on: a state item on no ready list but that of its priority. -/
def Fits (uxPriority : ℕ → ℕ) : Addr → Addr → Prop
  | .xStateListItem t, .pxReadyTasksLists p => p = uxPriority t
  | .xStateListItem _, .xDelayedTaskList1 => True
  | .xStateListItem _, .xDelayedTaskList2 => True
  | .xStateListItem _, .xSuspendedTaskList => True
  | .xEventListItem _, .xPendingReadyList => True
  | .xEventListItem _, .eventList _ => True
  | _, _ => False

namespace Kernel

/-- A task is on a ready list. -/
def IsReady (k : Kernel) (t : ℕ) : Prop :=
  ∃ p, k.container (.xStateListItem t) = some (.pxReadyTasksLists p)

/-- A task is on one of the other lists for state items. -/
def IsBlocked (k : Kernel) (t : ℕ) : Prop :=
  ∃ l, k.container (.xStateListItem t) = some l ∧ ∀ p, l ≠ .pxReadyTasksLists p

/-- The two delayed lists. -/
def Swapped (k : Kernel) : Prop :=
  k.pxDelayedTaskList = .xDelayedTaskList1 ∧ k.pxOverflowDelayedTaskList = .xDelayedTaskList2
    ∨ k.pxDelayedTaskList = .xDelayedTaskList2 ∧ k.pxOverflowDelayedTaskList = .xDelayedTaskList1

/-- A context switch is on its way: pending in the port, or at the next tick. -/
def Switching (k : Kernel) : Prop := k.pendSV = true ∨ k.xYieldPending = true

section Lists

variable (k : Kernel) (l x : Addr) (t : ℕ)

@[simp] theorem container_vListInsertEnd :
    (k.vListInsertEnd l x).container = Function.update k.container x (some l) := rfl

@[simp] theorem container_uxListRemove :
    (k.uxListRemove x).1.container = Function.update k.container x none :=
  TaskLists.remove_container

@[simp] theorem container_removeReady (p : ℕ) :
    (k.removeReady t p).container = Function.update k.container (.xStateListItem t) none := by
  unfold removeReady
  dsimp only
  split_ifs <;> exact container_uxListRemove ..

@[simp] theorem container_prvAddTaskToReadyList :
    (k.prvAddTaskToReadyList t).container = Function.update k.container (.xStateListItem t)
      (some (.pxReadyTasksLists (k.uxPriority t))) := rfl

end Lists

end Kernel

/-- **Where the tasks are.**  The event item of a task is on a list only while the task is blocked —
but for the one that is moving. -/
structure Placed (moving : Option ℕ) (k : Kernel) : Prop where
  wf : k.lists.Wf
  fits : ∀ x l, k.container x = some l → Fits k.uxPriority x l
  waits : ∀ t, moving ≠ some t → k.container (.xEventListItem t) ≠ none → k.IsBlocked t
  swapped : k.Swapped
  priority_lt : ∀ t, k.uxPriority t < configMAX_PRIORITIES
  top : k.uxTopReadyPriority.Covers fun p =>
    ∃ t, k.container (.xStateListItem t) = some (.pxReadyTasksLists p)

/-- What does not change while tasks are moved, but for a switch that may come to be pending. -/
structure Same (k k' : Kernel) : Prop where
  uxPriority : k'.uxPriority = k.uxPriority
  pxCurrentTCB : k'.pxCurrentTCB = k.pxCurrentTCB
  uxCurrentNumberOfTasks : k'.uxCurrentNumberOfTasks = k.uxCurrentNumberOfTasks
  switching : k.Switching → k'.Switching
  swapped : k.Swapped → k'.Swapped

theorem Same.refl (k : Kernel) : Same k k := ⟨rfl, rfl, rfl, id, id⟩

theorem Same.trans {k₁ k₂ k₃ : Kernel} (h : Same k₁ k₂) (h' : Same k₂ k₃) : Same k₁ k₃ :=
  ⟨h'.uxPriority.trans h.uxPriority, h'.pxCurrentTCB.trans h.pxCurrentTCB,
    h'.uxCurrentNumberOfTasks.trans h.uxCurrentNumberOfTasks, h'.switching ∘ h.switching,
    h'.swapped ∘ h.swapped⟩

theorem same_removeReady (k : Kernel) (t p : ℕ) : Same k (k.removeReady t p) := by
  unfold Kernel.removeReady
  dsimp only
  split_ifs <;> exact ⟨rfl, rfl, rfl, id, id⟩

namespace Placed

variable {moving : Option ℕ} {k k' : Kernel} {l x : Addr} {t p : ℕ}

theorem mem_items (h : Placed moving k) : x ∈ k.items l ↔ k.container x = some l :=
  (h.wf.container x l).symm

/-- Other fields may change. -/
theorem of_same (h : Placed moving k) (hs : Same k k') (hl : k'.lists = k.lists)
    (htop : k'.uxTopReadyPriority = k.uxTopReadyPriority) : Placed moving k' := by
  have hc : k'.container = k.container := by
    unfold Kernel.container
    rw [hl]
  exact ⟨hl ▸ h.wf, by rw [hc, hs.uxPriority]; exact h.fits,
    by unfold Kernel.IsBlocked; rw [hc]; exact h.waits, hs.swapped h.swapped,
    by rw [hs.uxPriority]; exact h.priority_lt, by rw [hc, htop]; exact h.top⟩

/-- A task that is ready is on the list of its priority. -/
theorem ready_eq (h : Placed moving k)
    (hc : k.container (.xStateListItem t) = some (.pxReadyTasksLists p)) : p = k.uxPriority t :=
  h.fits _ _ hc

theorem IsReady.priority (h : Placed moving k) (ht : k.IsReady t) :
    k.container (.xStateListItem t) = some (.pxReadyTasksLists (k.uxPriority t)) := by
  obtain ⟨p, hp⟩ := ht
  rwa [← h.ready_eq hp]

/-- The delayed lists and the ready lists have state items. -/
theorem exists_state (h : Placed moving k)
    (hl : (∃ p, l = .pxReadyTasksLists p) ∨ l = .xDelayedTaskList1 ∨ l = .xDelayedTaskList2)
    (hx : k.container x = some l) : ∃ t, x = .xStateListItem t := by
  have hfits := h.fits x l hx
  obtain ⟨p, rfl⟩ | rfl | rfl := hl <;> cases x <;> first
    | exact ⟨_, rfl⟩
    | exact hfits.elim

/-- The pending ready list and the event lists have event items. -/
theorem exists_event (h : Placed moving k) (hl : l = .xPendingReadyList ∨ ∃ e, l = .eventList e)
    (hx : k.container x = some l) : ∃ t, x = .xEventListItem t := by
  have hfits := h.fits x l hx
  obtain rfl | ⟨e, rfl⟩ := hl <;> cases x <;> first
    | exact ⟨_, rfl⟩
    | exact hfits.elim

theorem delayed_eq (h : Placed moving k) :
    k.pxDelayedTaskList = .xDelayedTaskList1 ∨ k.pxDelayedTaskList = .xDelayedTaskList2 :=
  h.swapped.imp And.left And.left

theorem overflow_eq (h : Placed moving k) :
    k.pxOverflowDelayedTaskList = .xDelayedTaskList1
      ∨ k.pxOverflowDelayedTaskList = .xDelayedTaskList2 :=
  h.swapped.symm.imp And.right And.right

/-! ### Taking items off -/

/-- What is on a list after an item was taken off was on it before. -/
theorem container_of_remove {y : Addr} (hy : (k.uxListRemove x).1.container y = some l) :
    y ≠ x ∧ k.container y = some l := by
  rw [Kernel.container_uxListRemove, Function.update_apply] at hy
  split_ifs at hy with hyx
  exact ⟨hyx, hy⟩

/-- How many items are left: none, exactly when there was no other. -/
theorem remove_count (h : Placed moving k) (hx : k.container x = some l) :
    (k.uxListRemove x).2 = 0 ↔ ∀ y ≠ x, k.container y ≠ some l := by
  have hwf := h.wf.remove x
  have hcount : (k.uxListRemove x).2 = ((k.lists.remove x).1.list l).items.length := by
    have hx' : k.lists.container x = some l := hx
    simp only [Kernel.uxListRemove, TaskLists.remove, hx', TaskLists.set_list_self]
  rw [hcount, List.length_eq_zero_iff, List.eq_nil_iff_forall_not_mem]
  simp only [← hwf.container]
  change (∀ y, ¬(k.uxListRemove x).1.container y = some l) ↔ _
  simp only [Kernel.container_uxListRemove, Function.update_apply]
  refine forall_congr' fun y => ?_
  split_ifs with hyx
  · simp [hyx]
  · exact ⟨fun hne _ => hne, fun hne => hne hyx⟩

theorem take_event (h : Placed moving k) (t : ℕ) :
    Placed moving (k.uxListRemove (.xEventListItem t)).1 where
  wf := h.wf.remove _
  fits := fun y l hy => h.fits y l (container_of_remove hy).2
  waits := by
    intro t' hm ht'
    obtain ⟨l, hl⟩ := Option.ne_none_iff_exists'.mp ht'
    obtain ⟨l', hl', hne⟩ := h.waits t' hm (by rw [(container_of_remove hl).2]; simp)
    exact ⟨l', by simpa using hl', hne⟩
  swapped := h.swapped
  priority_lt := h.priority_lt
  top := h.top.congr fun p => by simp

/-- The state item of a task is taken off its list, and `uxTopReadyPriority` is told. -/
theorem take_state (h : Placed moving k) (hm : moving = none ∨ moving = some t) {top : TopReady}
    (htop : top.Covers fun p =>
      ∃ t' ≠ t, k.container (.xStateListItem t') = some (.pxReadyTasksLists p)) :
    Placed (some t)
      { (k.uxListRemove (.xStateListItem t)).1 with uxTopReadyPriority := top } where
  wf := h.wf.remove _
  fits := fun y l hy => h.fits y l (container_of_remove hy).2
  waits := by
    intro t' ht hc
    have hne : t' ≠ t := fun heq => ht (heq ▸ rfl)
    have hm' : moving ≠ some t' := by
      obtain rfl | rfl := hm
      · exact nofun
      · exact ht
    obtain ⟨l, hl⟩ := Option.ne_none_iff_exists'.mp hc
    obtain ⟨l', hl', hready⟩ := h.waits t' hm' (by rw [(container_of_remove hl).2]; simp)
    refine ⟨l', ?_, hready⟩
    change (k.uxListRemove (.xStateListItem t)).1.container (.xStateListItem t') = some l'
    simpa [hne] using hl'
  swapped := h.swapped
  priority_lt := h.priority_lt
  top := by
    refine htop.congr fun p => ?_
    change (∃ t', (k.uxListRemove (.xStateListItem t)).1.container (.xStateListItem t') = _) ↔ _
    refine exists_congr fun t' => ?_
    rw [Kernel.container_uxListRemove, Function.update_apply]
    split_ifs with heq
    · simp [Addr.xStateListItem.inj heq]
    · have hne : t' ≠ t := fun h => heq (h ▸ rfl)
      simp [hne]

/-- …a blocked one. -/
theorem take_blocked (h : Placed moving k) (hm : moving = none ∨ moving = some t)
    (hb : ¬k.IsReady t) : Placed (some t) (k.uxListRemove (.xStateListItem t)).1 := by
  have htop : k.uxTopReadyPriority.Covers fun p =>
      ∃ t' ≠ t, k.container (.xStateListItem t') = some (.pxReadyTasksLists p) :=
    h.top.congr fun p => exists_congr fun _ =>
      ⟨And.right, fun ht => ⟨fun heq => hb ⟨p, heq ▸ ht⟩, ht⟩⟩
  exact h.take_state hm htop

/-- …a ready one: its priority is reset when it was the last. -/
theorem take_ready (h : Placed moving k) (hm : moving = none ∨ moving = some t)
    (ht : k.IsReady t) : Placed (some t) (k.removeReady t (k.uxPriority t)) := by
  have hready := IsReady.priority h ht
  have hcount := h.remove_count hready
  have hat : ∀ {q}, k.container (.xStateListItem t) = some (.pxReadyTasksLists q) →
      q = k.uxPriority t := h.ready_eq
  unfold Kernel.removeReady
  dsimp only
  split_ifs with hlast
  · refine h.take_state hm (h.top.reset fun q => ⟨?_, ?_⟩)
    · rintro ⟨t', hne, hq⟩
      refine ⟨?_, t', hq⟩
      rintro rfl
      exact hcount.mp hlast _ (fun heq => hne (Addr.xStateListItem.inj heq)) hq
    · rintro ⟨hq, t', ht'⟩
      refine ⟨t', ?_, ht'⟩
      rintro rfl
      exact hq (hat ht')
  · have htop : k.uxTopReadyPriority.Covers fun q =>
        ∃ t' ≠ t, k.container (.xStateListItem t') = some (.pxReadyTasksLists q) := by
      refine h.top.congr fun q => ⟨fun ⟨t', _, ht'⟩ => ⟨t', ht'⟩, ?_⟩
      rintro ⟨t', ht'⟩
      by_cases heq : t' = t
      · rw [heq] at ht'
        rw [hat ht']
        have hother : ¬∀ y ≠ Addr.xStateListItem t,
            k.container y ≠ some (.pxReadyTasksLists (k.uxPriority t)) := fun hall =>
          hlast (hcount.mpr hall)
        push Not at hother
        obtain ⟨y, hy, hc⟩ := hother
        obtain ⟨t'', rfl⟩ := h.exists_state (.inl ⟨_, rfl⟩) hc
        exact ⟨t'', fun h => hy (h ▸ rfl), hc⟩
      · exact ⟨t', heq, ht'⟩
    exact h.take_state hm htop

/-- …in whatever state it is, when its priority is reset only if no task of it is ready. -/
theorem take_suspended (h : Placed none k) (hc : k.container (.xStateListItem t) ≠ none) :
    Placed (some t)
      (if (k.uxListRemove (.xStateListItem t)).2 = 0 then
        (k.uxListRemove (.xStateListItem t)).1.taskRESET_READY_PRIORITY (k.uxPriority t)
      else (k.uxListRemove (.xStateListItem t)).1) := by
  set removed := k.uxListRemove (.xStateListItem t)
  have hwf : removed.1.lists.Wf := h.wf.remove _
  have hempty : ∀ p, (removed.1.items (.pxReadyTasksLists p)).length = 0 ↔
      ∀ t' ≠ t, k.container (.xStateListItem t') ≠ some (.pxReadyTasksLists p) := by
    intro p
    rw [List.length_eq_zero_iff, List.eq_nil_iff_forall_not_mem]
    constructor
    · intro hnone t' hne hc'
      refine hnone (.xStateListItem t') ((hwf.container _ _).mp ?_)
      change removed.1.container _ = _
      rw [Kernel.container_uxListRemove, Function.update_of_ne (by simpa using hne), hc']
    · intro hnone x hx
      obtain ⟨hne, hc'⟩ := container_of_remove ((hwf.container _ _).mpr hx)
      obtain ⟨t', rfl⟩ := h.exists_state (.inl ⟨p, rfl⟩) hc'
      exact hnone t' (fun heq => hne (heq ▸ rfl)) hc'
  by_cases ht : k.IsReady t
  · have hready := h.take_ready (.inl rfl) ht
    unfold Kernel.removeReady at hready
    dsimp only at hready
    have hcount := h.remove_count (IsReady.priority h ht)
    by_cases hlast : removed.2 = 0
    · have hnone : (removed.1.items (.pxReadyTasksLists (k.uxPriority t))).length = 0 :=
        (hempty _).mpr fun t' hne => hcount.mp hlast _ (by simpa using hne)
      rw [if_pos hlast] at hready
      rw [if_pos hlast, Kernel.taskRESET_READY_PRIORITY, if_pos hnone]
      exact hready
    · rw [if_neg hlast] at hready
      rw [if_neg hlast]
      exact hready
  · have hblocked := h.take_blocked (.inl rfl) ht
    have hne : ∀ {t' p}, k.container (.xStateListItem t') = some (.pxReadyTasksLists p) →
        t' ≠ t := by
      rintro t' p hc' rfl
      exact ht ⟨p, hc'⟩
    unfold Kernel.taskRESET_READY_PRIORITY
    split_ifs with hlast hnone
    · refine h.take_state (.inl rfl) (h.top.reset fun q => ⟨?_, ?_⟩)
      · rintro ⟨t', hne', hq⟩
        refine ⟨?_, t', hq⟩
        rintro rfl
        exact (hempty _).mp hnone t' hne' hq
      · rintro ⟨-, t', hq⟩
        exact ⟨t', hne hq, hq⟩
    · exact hblocked
    · exact hblocked

/-! ### Putting items on -/

theorem add_ready (h : Placed moving k) (hm : moving = none ∨ moving = some t)
    (hs : k.container (.xStateListItem t) = none)
    (he : k.container (.xEventListItem t) = none) : Placed none (k.prvAddTaskToReadyList t) where
  wf := TaskLists.Wf.insertEnd h.wf hs
  fits := by
    intro x l hx
    rw [Kernel.container_prvAddTaskToReadyList, Function.update_apply] at hx
    split_ifs at hx with hxt
    · obtain rfl := Option.some.inj hx
      rw [hxt]
      exact rfl
    · exact h.fits x l hx
  waits := by
    intro t' _ hc
    rw [Kernel.container_prvAddTaskToReadyList, Function.update_of_ne (by simp)] at hc
    have hne : t' ≠ t := by
      rintro rfl
      exact hc he
    have hm' : moving ≠ some t' := by
      obtain rfl | rfl := hm
      · exact nofun
      · exact fun heq => hne (Option.some.inj heq).symm
    obtain ⟨l, hl, hready⟩ := h.waits t' hm' hc
    exact ⟨l, by simpa [hne] using hl, hready⟩
  swapped := h.swapped
  priority_lt := h.priority_lt
  top := by
    refine h.top.record (h.priority_lt t) fun q => ?_
    simp only [Kernel.container_prvAddTaskToReadyList, Function.update_apply]
    constructor
    · rintro ⟨t', ht'⟩
      split_ifs at ht' with heq
      · exact .inl (Addr.pxReadyTasksLists.inj (Option.some.inj ht')).symm
      · exact .inr ⟨t', ht'⟩
    · rintro (rfl | ⟨t', ht'⟩)
      · exact ⟨t, if_pos rfl⟩
      · refine ⟨t', ?_⟩
        rw [if_neg, ht']
        intro heq
        rw [heq, hs] at ht'
        exact absurd ht' (by simp)

/-- A task that has been taken off its list is blocked. -/
theorem add_blocked (h : Placed (some t) k) (hs : k.container (.xStateListItem t) = none)
    (hl : l = .xDelayedTaskList1 ∨ l = .xDelayedTaskList2 ∨ l = .xSuspendedTaskList)
    (hwf : k'.lists.Wf) (hsame : Same k k')
    (htop : k'.uxTopReadyPriority = k.uxTopReadyPriority)
    (hc : k'.container = Function.update k.container (.xStateListItem t) (some l)) :
    Placed none k' where
  wf := hwf
  fits := by
    intro x l' hx
    rw [hc, Function.update_apply] at hx
    rw [hsame.uxPriority]
    split_ifs at hx with hxt
    · obtain rfl := Option.some.inj hx
      rw [hxt]
      obtain rfl | rfl | rfl := hl <;> exact trivial
    · exact h.fits x l' hx
  waits := by
    intro t' _ hev
    unfold Kernel.IsBlocked
    rw [hc] at hev ⊢
    rw [Function.update_of_ne (by simp)] at hev
    by_cases heq : t' = t
    · refine ⟨l, by rw [heq, Function.update_self], ?_⟩
      obtain rfl | rfl | rfl := hl <;> exact fun p => nofun
    · obtain ⟨l', hl', hready⟩ := h.waits t' (fun h => heq (Option.some.inj h).symm) hev
      exact ⟨l', by simpa [heq] using hl', hready⟩
  swapped := hsame.swapped h.swapped
  priority_lt := hsame.uxPriority ▸ h.priority_lt
  top := by
    rw [htop, hc]
    refine h.top.congr fun p => exists_congr fun t' => ?_
    rw [Function.update_apply]
    split_ifs with heq
    · rw [heq, hs]
      obtain rfl | rfl | rfl := hl <;> simp
    · rfl

/-- An event item is put on a list while its task is moving. -/
theorem add_event (h : Placed moving k) (hm : moving = none ∨ moving = some t)
    (hl : l = .xPendingReadyList ∨ ∃ e, l = .eventList e) (hwf : k'.lists.Wf) (hsame : Same k k')
    (htop : k'.uxTopReadyPriority = k.uxTopReadyPriority)
    (hc : k'.container = Function.update k.container (.xEventListItem t) (some l)) :
    Placed (some t) k' where
  wf := hwf
  fits := by
    intro x l' hx
    rw [hc, Function.update_apply] at hx
    rw [hsame.uxPriority]
    split_ifs at hx with hxt
    · obtain rfl := Option.some.inj hx
      rw [hxt]
      obtain rfl | ⟨e, rfl⟩ := hl <;> exact trivial
    · exact h.fits x l' hx
  waits := by
    intro t' ht hev
    have hne : t' ≠ t := fun heq => ht (heq ▸ rfl)
    have hm' : moving ≠ some t' := by
      obtain rfl | rfl := hm
      · exact nofun
      · exact ht
    unfold Kernel.IsBlocked
    rw [hc] at hev ⊢
    obtain ⟨l', hl', hready⟩ := h.waits t' hm' (by simpa [hne] using hev)
    exact ⟨l', by simpa using hl', hready⟩
  swapped := hsame.swapped h.swapped
  priority_lt := hsame.uxPriority ▸ h.priority_lt
  top := by
    rw [htop, hc]
    exact h.top.congr fun p => by simp

/-- A task that was moving is blocked. -/
theorem settle (h : Placed (some t) k) (ht : k.IsBlocked t) : Placed none k :=
  { h with
    waits := fun t' _ hev => by
      by_cases heq : t' = t
      · exact heq ▸ ht
      · exact h.waits t' (fun h => heq (Option.some.inj h).symm) hev }

/-- A list from which an item was taken, and on which none was put, is shorter. -/
theorem length_items_lt (h : Placed moving k) (hwf : k'.lists.Wf) (hx : k.container x = some l)
    (hsub : ∀ y, k'.container y = some l → y ≠ x ∧ k.container y = some l) :
    (k'.items l).length < (k.items l).length := by
  have hmem : x ∈ k.items l := h.mem_items.mpr hx
  have hsubset : k'.items l ⊆ (k.items l).erase x := by
    intro y hy
    obtain ⟨hne, hc⟩ := hsub y ((hwf.container y l).mpr hy)
    exact (List.mem_erase_of_ne hne).mpr (h.mem_items.mpr hc)
  have hle := (List.subperm_of_subset (hwf.nodup l) hsubset).length_le
  rw [List.length_erase_of_mem hmem] at hle
  have hpos : 0 < (k.items l).length := List.length_pos_of_mem hmem
  change (k'.items l).length ≤ _ at hle
  omega

end Placed

end Tasks

end EmbeddedMCU

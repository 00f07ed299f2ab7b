import EmbeddedMCU.FreeRTOS.TimeOut

/-!
# FreeRTOS/Tasks — `tasks.c`, the scheduler

                    switchContext
    pxReadyTasksLists[p] ──▸ pxCurrentTCB ──delay, placeOnEventList──▸ delayed lists, suspended list
           ▲                                                                │
           └──tick, removeFromEventList, resume ◂── xPendingReadyList ◂─────┘

A task has two items: the list its state item is on says what state it is in, and its event item may
be on the list of an object the task waits for.  `step` is one critical section, or one interrupt,
so that a run of steps is any order in which tasks and interrupts come in between each other.
-/

namespace EmbeddedMCU

namespace Tasks

open List_t (portMAX_DELAY)

/-! ## The lists and the items -/

/-- The lists of `tasks.c`, those of the objects that tasks wait for, and the items of a task. -/
inductive Addr
  | pxReadyTasksLists (p : ℕ)
  | xDelayedTaskList1
  | xDelayedTaskList2
  | xPendingReadyList
  | xSuspendedTaskList
  | eventList (e : ℕ)
  | xStateListItem (t : ℕ)
  | xEventListItem (t : ℕ)
  deriving DecidableEq

/-- The task an item belongs to. -/
def Addr.pvOwner : Addr → ℕ
  | .xStateListItem t => t
  | .xEventListItem t => t
  | _ => 0

/-- `configMAX_PRIORITIES` -/
def configMAX_PRIORITIES : ℕ := 5

/-- `taskEVENT_LIST_ITEM_VALUE_IN_USE` -/
def taskEVENT_LIST_ITEM_VALUE_IN_USE : UInt32 := 0x80000000

/-! ## `uxTopReadyPriority` -/

/-- A priority that no ready task is above, or, where the port has its own task selection, a bit for
each priority that has ready tasks. -/
inductive TopReady
  | priority (p : ℕ)
  | bits (b : BitVec 32)
  deriving DecidableEq

namespace TopReady

/-- `taskRECORD_READY_PRIORITY` -/
def record : TopReady → ℕ → TopReady
  | priority top, p => priority (if top < p then p else top)
  | bits b, p => bits (b ||| 1#32 <<< p)

/-- `portRESET_READY_PRIORITY` -/
def reset : TopReady → ℕ → TopReady
  | priority top, _ => priority top
  | bits b, p => bits (b &&& ~~~(1#32 <<< p))

/-- The loop of `taskSELECT_HIGHEST_PRIORITY_TASK`; `none` when it runs below the lowest. -/
def firstReady (isEmpty : ℕ → Bool) : ℕ → Option ℕ
  | 0 => if isEmpty 0 then none else some 0
  | p + 1 => if isEmpty (p + 1) then firstReady isEmpty p else some (p + 1)

/-- The priority that is selected: the loop, or `portGET_HIGHEST_PRIORITY`; `none` when there is no
priority to select. -/
def highest (isEmpty : ℕ → Bool) : TopReady → Option ℕ
  | priority top => firstReady isEmpty top
  | bits b => if b = 0 then none else some (31 - b.clz.toNat)

end TopReady

/-! ## The kernel -/

/-- The variables of `tasks.c`, what it keeps in each TCB, and whether the port has a context switch
pending. -/
structure Kernel where
  lists : TaskLists Addr
  uxPriority : ℕ → ℕ
  uxBasePriority : ℕ → ℕ
  pxCurrentTCB : ℕ
  pxDelayedTaskList : Addr
  pxOverflowDelayedTaskList : Addr
  uxCurrentNumberOfTasks : ℕ
  xTickCount : UInt32
  uxTopReadyPriority : TopReady
  xSchedulerRunning : Bool
  xPendedTicks : UInt32
  xYieldPending : Bool
  xNumOfOverflows : UInt32
  xNextTaskUnblockTime : UInt32
  uxSchedulerSuspended : ℕ
  pendSV : Bool

namespace Kernel

variable (k : Kernel)

/-- The items of a list. -/
def items (l : Addr) : List Addr := (k.lists.list l).items

/-- `listLIST_ITEM_CONTAINER` -/
def container (x : Addr) : Option Addr := k.lists.container x

/-- The calls of `list.c`, on the lists that its links in memory stand for. -/
def listSET_LIST_ITEM_VALUE (x : Addr) (v : UInt32) : Kernel :=
  { k with lists := k.lists.setItemValue x v }

def vListInsertEnd (l x : Addr) : Kernel := { k with lists := k.lists.insertEnd l x }

def vListInsert (l x : Addr) : Kernel := { k with lists := k.lists.insert l x }

def uxListRemove (x : Addr) : Kernel × ℕ :=
  ({ k with lists := (k.lists.remove x).1 }, (k.lists.remove x).2)

/-- `portYIELD`: the port pends a context switch. -/
def portYIELD : Kernel := { k with pendSV := true }

/-! ### Ready tasks -/

/-- `prvAddTaskToReadyList` -/
def prvAddTaskToReadyList (pxTCB : ℕ) : Kernel :=
  let k := { k with uxTopReadyPriority := k.uxTopReadyPriority.record (k.uxPriority pxTCB) }
  k.vListInsertEnd (.pxReadyTasksLists (k.uxPriority pxTCB)) (.xStateListItem pxTCB)

/-- `portRESET_READY_PRIORITY` -/
def portRESET_READY_PRIORITY (p : ℕ) : Kernel :=
  { k with uxTopReadyPriority := k.uxTopReadyPriority.reset p }

/-- A ready task is taken off its list, with `portRESET_READY_PRIORITY` when it was the last. -/
def removeReady (pxTCB p : ℕ) : Kernel :=
  let removed := k.uxListRemove (.xStateListItem pxTCB)
  if removed.2 = 0 then removed.1.portRESET_READY_PRIORITY p else removed.1

/-- `taskRESET_READY_PRIORITY` -/
def taskRESET_READY_PRIORITY (p : ℕ) : Kernel :=
  if (k.items (.pxReadyTasksLists p)).length = 0 then k.portRESET_READY_PRIORITY p else k

/-- `vTaskSwitchContext`; `none` when no task is ready. -/
def vTaskSwitchContext : Option Kernel :=
  if k.uxSchedulerSuspended ≠ 0 then some { k with xYieldPending := true }
  else
    let k := { k with xYieldPending := false }
    (k.uxTopReadyPriority.highest fun p => (k.items (.pxReadyTasksLists p)).isEmpty).map
      fun uxTopPriority =>
        let l := Addr.pxReadyTasksLists uxTopPriority
        let k := { k with lists := k.lists.next l }
        let k := { k with pxCurrentTCB := ((k.lists.list l).before.getLastD l).pvOwner }
        match k.uxTopReadyPriority with
        | .priority _ => { k with uxTopReadyPriority := .priority uxTopPriority }
        | .bits _ => k

/-! ### Delayed tasks -/

/-- `prvResetNextTaskUnblockTime` -/
def prvResetNextTaskUnblockTime : Kernel :=
  match k.items k.pxDelayedTaskList with
  | [] => { k with xNextTaskUnblockTime := portMAX_DELAY }
  | x :: _ => { k with xNextTaskUnblockTime := k.lists.value x }

/-- `taskSWITCH_DELAYED_LISTS` -/
def taskSWITCH_DELAYED_LISTS : Kernel :=
  let k :=
    { k with
      pxDelayedTaskList := k.pxOverflowDelayedTaskList
      pxOverflowDelayedTaskList := k.pxDelayedTaskList
      xNumOfOverflows := k.xNumOfOverflows + 1 }
  k.prvResetNextTaskUnblockTime

/-- `prvAddCurrentTaskToDelayedList` -/
def prvAddCurrentTaskToDelayedList (xTicksToWait : UInt32) (xCanBlockIndefinitely : Bool) :
    Kernel :=
  let xConstTickCount := k.xTickCount
  let item := Addr.xStateListItem k.pxCurrentTCB
  let k := k.removeReady k.pxCurrentTCB (k.uxPriority k.pxCurrentTCB)
  if xTicksToWait = portMAX_DELAY ∧ xCanBlockIndefinitely then
    k.vListInsertEnd .xSuspendedTaskList item
  else
    let xTimeToWake := xConstTickCount + xTicksToWait
    let k := k.listSET_LIST_ITEM_VALUE item xTimeToWake
    if xTimeToWake < xConstTickCount then k.vListInsert k.pxOverflowDelayedTaskList item
    else
      let k := k.vListInsert k.pxDelayedTaskList item
      if xTimeToWake < k.xNextTaskUnblockTime then { k with xNextTaskUnblockTime := xTimeToWake }
      else k

/-- What the loop of `xTaskIncrementTick` does to a task whose time is up. -/
def unblock (pxTCB : ℕ) : Kernel :=
  let k := (k.uxListRemove (.xStateListItem pxTCB)).1
  let k := if k.container (.xEventListItem pxTCB) ≠ none then
      (k.uxListRemove (.xEventListItem pxTCB)).1 else k
  k.prvAddTaskToReadyList pxTCB

/-- The loop of `xTaskIncrementTick`, with a bound on its turns. -/
def unblockLoop : ℕ → Kernel → Bool → Option (Kernel × Bool)
  | 0, _, _ => none
  | n + 1, k, xSwitchRequired =>
      match k.items k.pxDelayedTaskList with
      | [] => some ({ k with xNextTaskUnblockTime := portMAX_DELAY }, xSwitchRequired)
      | x :: _ =>
          let pxTCB := x.pvOwner
          let xItemValue := k.lists.value (.xStateListItem pxTCB)
          if k.xTickCount < xItemValue then
            some ({ k with xNextTaskUnblockTime := xItemValue }, xSwitchRequired)
          else
            unblockLoop n (k.unblock pxTCB)
              (xSwitchRequired || k.uxPriority k.pxCurrentTCB ≤ k.uxPriority pxTCB)

/-- `xTaskIncrementTick` -/
def xTaskIncrementTick : Option (Kernel × Bool) :=
  if k.uxSchedulerSuspended = 0 then
    let k := { k with xTickCount := k.xTickCount + 1 }
    let k := if k.xTickCount = 0 then k.taskSWITCH_DELAYED_LISTS else k
    (if k.xNextTaskUnblockTime ≤ k.xTickCount then
        unblockLoop ((k.items k.pxDelayedTaskList).length + 1) k false
      else some (k, false)).map fun (k, xSwitchRequired) =>
        let timeSliced :=
          decide (1 < (k.items (.pxReadyTasksLists (k.uxPriority k.pxCurrentTCB))).length)
        (k, xSwitchRequired || timeSliced || k.xYieldPending)
  else some ({ k with xPendedTicks := k.xPendedTicks + 1 }, false)

/-! ### Suspending the scheduler -/

/-- `vTaskSuspendAll` -/
def vTaskSuspendAll : Kernel := { k with uxSchedulerSuspended := k.uxSchedulerSuspended + 1 }

/-- The loop of `xTaskResumeAll` over the tasks that were readied meanwhile, with a bound on its
turns; whether there were any. -/
def readyPending : ℕ → Kernel → Bool → Option (Kernel × Bool)
  | 0, _, _ => none
  | n + 1, k, any =>
      match k.items .xPendingReadyList with
      | [] => some (k, any)
      | x :: _ =>
          let pxTCB := x.pvOwner
          let k := (k.uxListRemove (.xEventListItem pxTCB)).1
          let k := (k.uxListRemove (.xStateListItem pxTCB)).1
          let k := k.prvAddTaskToReadyList pxTCB
          let k := if k.uxPriority k.pxCurrentTCB ≤ k.uxPriority pxTCB then
              { k with xYieldPending := true } else k
          readyPending n k true

/-- The loop of `xTaskResumeAll` over the ticks that were held back. -/
def unwindTicks : ℕ → Kernel → Option Kernel
  | 0, k => some k
  | xPendedCounts + 1, k =>
      k.xTaskIncrementTick.bind fun (k, xSwitchRequired) =>
        unwindTicks xPendedCounts (if xSwitchRequired then { k with xYieldPending := true } else k)

/-- `xTaskResumeAll` -/
def xTaskResumeAll : Option (Kernel × Bool) :=
  let k := { k with uxSchedulerSuspended := k.uxSchedulerSuspended - 1 }
  if k.uxSchedulerSuspended = 0 ∧ 0 < k.uxCurrentNumberOfTasks then
    (readyPending ((k.items .xPendingReadyList).length + 1) k false).bind fun (k, any) =>
      let k := if any then k.prvResetNextTaskUnblockTime else k
      (unwindTicks k.xPendedTicks.toNat k).map fun k =>
        let k := { k with xPendedTicks := 0 }
        let xAlreadyYielded := k.xYieldPending
        (if xAlreadyYielded then k.portYIELD else k, xAlreadyYielded)
  else some (k, false)

/-! ### Waiting -/

/-- What `vTaskDelay` does while the scheduler is suspended. -/
def vTaskDelay (xTicksToDelay : UInt32) : Kernel :=
  if 0 < xTicksToDelay then k.prvAddCurrentTaskToDelayedList xTicksToDelay false else k

/-- What `xTaskDelayUntil` does while the scheduler is suspended. -/
def xTaskDelayUntil (pxPreviousWakeTime xTimeIncrement : UInt32) : Kernel :=
  match (TimeOut.xTaskDelayUntil k.xTickCount pxPreviousWakeTime xTimeIncrement).2 with
  | some xTicksToWait => k.prvAddCurrentTaskToDelayedList xTicksToWait false
  | none => k

/-- `vTaskPlaceOnEventList` -/
def vTaskPlaceOnEventList (e : ℕ) (xTicksToWait : UInt32) : Kernel :=
  (k.vListInsert (.eventList e) (.xEventListItem k.pxCurrentTCB)).prvAddCurrentTaskToDelayedList
    xTicksToWait true

/-- `xTaskRemoveFromEventList`, for the task that is first on the list. -/
def xTaskRemoveFromEventList (pxUnblockedTCB : ℕ) : Kernel × Bool :=
  let k := (k.uxListRemove (.xEventListItem pxUnblockedTCB)).1
  let k :=
    if k.uxSchedulerSuspended = 0 then
      (k.uxListRemove (.xStateListItem pxUnblockedTCB)).1.prvAddTaskToReadyList pxUnblockedTCB
    else k.vListInsertEnd .xPendingReadyList (.xEventListItem pxUnblockedTCB)
  if k.uxPriority k.pxCurrentTCB < k.uxPriority pxUnblockedTCB then
    ({ k with xYieldPending := true }, true)
  else (k, false)

/-! ### Suspending a task -/

/-- The critical section of `vTaskSuspend` that moves the task. -/
def vTaskSuspend (pxTCB : ℕ) : Kernel :=
  let removed := k.uxListRemove (.xStateListItem pxTCB)
  let k := if removed.2 = 0 then removed.1.taskRESET_READY_PRIORITY (k.uxPriority pxTCB)
    else removed.1
  let k := if k.container (.xEventListItem pxTCB) ≠ none then
      (k.uxListRemove (.xEventListItem pxTCB)).1 else k
  k.vListInsertEnd .xSuspendedTaskList (.xStateListItem pxTCB)

/-- `prvTaskIsTaskSuspended` -/
def prvTaskIsTaskSuspended (pxTCB : ℕ) : Bool :=
  k.container (.xStateListItem pxTCB) = some .xSuspendedTaskList
    ∧ k.container (.xEventListItem pxTCB) ≠ some .xPendingReadyList
    ∧ k.container (.xEventListItem pxTCB) = none

/-- `vTaskResume` -/
def vTaskResume (pxTCB : ℕ) : Kernel :=
  if pxTCB ≠ k.pxCurrentTCB ∧ k.prvTaskIsTaskSuspended pxTCB then
    let k := (k.uxListRemove (.xStateListItem pxTCB)).1
    let k := k.prvAddTaskToReadyList pxTCB
    if k.uxPriority k.pxCurrentTCB ≤ k.uxPriority pxTCB then k.portYIELD else k
  else k

/-- `xTaskResumeFromISR` -/
def xTaskResumeFromISR (pxTCB : ℕ) : Kernel × Bool :=
  if k.prvTaskIsTaskSuspended pxTCB then
    if k.uxSchedulerSuspended = 0 then
      let xYieldRequired := decide (k.uxPriority k.pxCurrentTCB ≤ k.uxPriority pxTCB)
      let k := if xYieldRequired then { k with xYieldPending := true } else k
      let k := (k.uxListRemove (.xStateListItem pxTCB)).1
      (k.prvAddTaskToReadyList pxTCB, xYieldRequired)
    else (k.vListInsertEnd .xPendingReadyList (.xEventListItem pxTCB), false)
  else (k, false)

/-! ### Priorities, and new tasks -/

/-- The end of `vTaskPrioritySet`: a ready task is moved to the list of its new priority. -/
def moveReady (pxTCB uxPriorityUsedOnEntry : ℕ) : Kernel :=
  if k.container (.xStateListItem pxTCB)
      = some (.pxReadyTasksLists uxPriorityUsedOnEntry) then
    (k.removeReady pxTCB uxPriorityUsedOnEntry).prvAddTaskToReadyList pxTCB
  else k

/-- `vTaskPrioritySet` -/
def vTaskPrioritySet (pxTCB uxNewPriority : ℕ) : Kernel :=
  let uxNewPriority := if configMAX_PRIORITIES ≤ uxNewPriority then configMAX_PRIORITIES - 1
    else uxNewPriority
  let uxCurrentBasePriority := k.uxBasePriority pxTCB
  if uxCurrentBasePriority ≠ uxNewPriority then
    let xYieldRequired :=
      if uxCurrentBasePriority < uxNewPriority then
        pxTCB ≠ k.pxCurrentTCB ∧ k.uxPriority k.pxCurrentTCB ≤ uxNewPriority
      else pxTCB = k.pxCurrentTCB
    let uxPriorityUsedOnEntry := k.uxPriority pxTCB
    let k := if k.uxBasePriority pxTCB = k.uxPriority pxTCB then
        { k with uxPriority := Function.update k.uxPriority pxTCB uxNewPriority } else k
    let k := { k with uxBasePriority := Function.update k.uxBasePriority pxTCB uxNewPriority }
    let item := Addr.xEventListItem pxTCB
    let k := if k.lists.value item &&& taskEVENT_LIST_ITEM_VALUE_IN_USE = 0 then
        k.listSET_LIST_ITEM_VALUE item (.ofNat (configMAX_PRIORITIES - uxNewPriority)) else k
    let k := k.moveReady pxTCB uxPriorityUsedOnEntry
    if xYieldRequired then k.portYIELD else k
  else k

/-- What `prvInitialiseNewTask` sets in the new TCB. -/
def prvInitialiseNewTask (pxNewTCB uxPriority : ℕ) : Kernel :=
  let uxPriority := if configMAX_PRIORITIES ≤ uxPriority then configMAX_PRIORITIES - 1
    else uxPriority
  let k :=
    { k with
      uxPriority := Function.update k.uxPriority pxNewTCB uxPriority
      uxBasePriority := Function.update k.uxBasePriority pxNewTCB uxPriority }
  k.listSET_LIST_ITEM_VALUE (.xEventListItem pxNewTCB) (.ofNat (configMAX_PRIORITIES - uxPriority))

/-- `prvAddNewTaskToReadyList`; before the first task there is no current one. -/
def prvAddNewTaskToReadyList (pxNewTCB : ℕ) : Kernel :=
  let k := { k with uxCurrentNumberOfTasks := k.uxCurrentNumberOfTasks + 1 }
  let k :=
    if k.uxCurrentNumberOfTasks = 1
        ∨ ¬ k.xSchedulerRunning ∧ k.uxPriority k.pxCurrentTCB ≤ k.uxPriority pxNewTCB then
      { k with pxCurrentTCB := pxNewTCB }
    else k
  let k := k.prvAddTaskToReadyList pxNewTCB
  if k.xSchedulerRunning ∧ k.uxPriority k.pxCurrentTCB < k.uxPriority pxNewTCB then k.portYIELD
  else k

/-- `xTaskCreate`, for a TCB that no task has. -/
def xTaskCreate (pxNewTCB uxPriority : ℕ) : Kernel :=
  if k.container (.xStateListItem pxNewTCB) = none
      ∧ (pxNewTCB = k.pxCurrentTCB → k.uxCurrentNumberOfTasks = 0) then
    (k.prvInitialiseNewTask pxNewTCB uxPriority).prvAddNewTaskToReadyList pxNewTCB
  else k

end Kernel

/-! ## Runs -/

/-- Before the first task: the variables as they are initialised, and `prvInitialiseTaskLists`; with
or without the port's own task selection. -/
def blank (configUSE_PORT_OPTIMISED_TASK_SELECTION : Bool) : Kernel where
  lists := .initial fun _ => 0
  uxPriority := fun _ => 0
  uxBasePriority := fun _ => 0
  pxCurrentTCB := 0
  pxDelayedTaskList := .xDelayedTaskList1
  pxOverflowDelayedTaskList := .xDelayedTaskList2
  uxCurrentNumberOfTasks := 0
  xTickCount := 0
  uxTopReadyPriority :=
    if configUSE_PORT_OPTIMISED_TASK_SELECTION then .bits 0 else .priority 0
  xSchedulerRunning := false
  xPendedTicks := 0
  xYieldPending := false
  xNumOfOverflows := 0
  xNextTaskUnblockTime := 0
  uxSchedulerSuspended := 0
  pendSV := false

/-- The tasks are created with their priorities, and `vTaskStartScheduler` adds the idle task and
starts. -/
def started (configUSE_PORT_OPTIMISED_TASK_SELECTION : Bool) (tasks : List (ℕ × ℕ)) (idle : ℕ) :
    Kernel :=
  let k := (tasks ++ [(idle, 0)]).foldl
    (fun (k : Kernel) (task : ℕ × ℕ) => k.xTaskCreate task.1 task.2)
    (blank configUSE_PORT_OPTIMISED_TASK_SELECTION)
  { k with xNextTaskUnblockTime := portMAX_DELAY, xSchedulerRunning := true, xTickCount := 0 }

/-- What happens: interrupts, and the critical sections of the running task. -/
inductive Action
  /-- `xPortSysTickHandler` -/
  | tick
  /-- `xPortPendSVHandler`, when it is pending -/
  | switchContext
  /-- `taskYIELD`, also where the API functions end with one -/
  | yield
  | suspendAll
  | resumeAll
  | delay (xTicksToDelay : UInt32)
  | delayUntil (xPreviousWakeTime xTimeIncrement : UInt32)
  | placeOnEventList (e : ℕ) (xTicksToWait : UInt32)
  | removeFromEventList (e : ℕ)
  | suspend (t : ℕ)
  /-- The second critical section of `vTaskSuspend` -/
  | resetNextTaskUnblockTime
  | resume (t : ℕ)
  | resumeFromISR (t : ℕ)
  | prioritySet (t p : ℕ)
  | create (t p : ℕ)
  deriving DecidableEq

section Step

variable (idle : ℕ) (k : Kernel)

/-- The running task may wait: it has not gone to sleep already, and is not the idle task. -/
def Kernel.mayWait : Bool :=
  k.pxCurrentTCB ≠ idle
    ∧ k.container (.xStateListItem k.pxCurrentTCB)
      = some (.pxReadyTasksLists (k.uxPriority k.pxCurrentTCB))

/-- The kernel goes on, unless a loop did not end or no task could be selected. -/
def Kernel.goesOn : Option Kernel → Kernel × Bool
  | some k' => (k', true)
  | none => (k, false)

/-- One step, and whether the kernel went on.  The idle task does not wait and is not suspended,
each `xTaskResumeAll` matches a `vTaskSuspendAll`, no one waits for an object without ticks to wait,
and no one is removed from an empty event list. -/
def step : Action → Kernel × Bool
  | .tick =>
      k.goesOn (k.xTaskIncrementTick.map fun (k, xSwitchRequired) =>
        if xSwitchRequired then k.portYIELD else k)
  | .switchContext =>
      if k.pendSV then k.goesOn ({ k with pendSV := false } : Kernel).vTaskSwitchContext
      else (k, true)
  | .yield => (k.portYIELD, true)
  | .suspendAll => (k.vTaskSuspendAll, true)
  | .resumeAll =>
      if k.uxSchedulerSuspended = 0 then (k, true) else k.goesOn (k.xTaskResumeAll.map Prod.fst)
  | .delay xTicksToDelay =>
      (if k.mayWait idle then k.vTaskDelay xTicksToDelay else k, true)
  | .delayUntil xPreviousWakeTime xTimeIncrement =>
      (if k.mayWait idle then k.xTaskDelayUntil xPreviousWakeTime xTimeIncrement else k, true)
  | .placeOnEventList e xTicksToWait =>
      (if k.mayWait idle ∧ 0 < xTicksToWait then k.vTaskPlaceOnEventList e xTicksToWait else k,
        true)
  | .removeFromEventList e =>
      match k.items (.eventList e) with
      | x :: _ => ((k.xTaskRemoveFromEventList x.pvOwner).1, true)
      | [] => (k, true)
  | .suspend t =>
      (if t ≠ idle ∧ k.container (.xStateListItem t) ≠ none then k.vTaskSuspend t else k, true)
  | .resetNextTaskUnblockTime => (k.prvResetNextTaskUnblockTime, true)
  | .resume t => (k.vTaskResume t, true)
  | .resumeFromISR t => ((k.xTaskResumeFromISR t).1, true)
  | .prioritySet t p =>
      (if k.container (.xStateListItem t) ≠ none then k.vTaskPrioritySet t p else k, true)
  | .create t p => (k.xTaskCreate t p, true)

end Step

end Tasks

end EmbeddedMCU

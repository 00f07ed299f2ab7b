import EmbeddedMCU.FreeRTOS.TaskLists
import EmbeddedMCU.Machinery.Run

/-!
# FreeRTOS/List — `list.c`, over a memory of links

    xListEnd ⇄ item ⇄ item ⇄ … ⇄ item ⇄ xListEnd
                       ▲
                    pxIndex

The memory has one map for each member of `ListItem_t` and of `List_t`.  A list is known by the
address of its `xListEnd`, which is an item to all but the names of its type.
-/

namespace EmbeddedMCU

namespace List_t

/-- `portMAX_DELAY` -/
def portMAX_DELAY : UInt32 := 0xFFFFFFFF

/-- The members of the items, and of the lists by the addresses of their `xListEnd`. -/
structure Memory (P : Type*) where
  xItemValue : P → UInt32
  pxNext : P → P
  pxPrevious : P → P
  pvOwner : P → ℕ
  pxContainer : P → Option P
  uxNumberOfItems : P → ℕ
  pxIndex : P → P

variable {P : Type*} [DecidableEq P]

namespace Memory

/-- `p->xItemValue = v`, and so on for the other members. -/
def setItemValue (m : Memory P) (p : P) (v : UInt32) : Memory P :=
  { m with xItemValue := Function.update m.xItemValue p v }

def setNext (m : Memory P) (p a : P) : Memory P :=
  { m with pxNext := Function.update m.pxNext p a }

def setPrevious (m : Memory P) (p a : P) : Memory P :=
  { m with pxPrevious := Function.update m.pxPrevious p a }

def setContainer (m : Memory P) (p : P) (c : Option P) : Memory P :=
  { m with pxContainer := Function.update m.pxContainer p c }

def setNumberOfItems (m : Memory P) (l : P) (n : ℕ) : Memory P :=
  { m with uxNumberOfItems := Function.update m.uxNumberOfItems l n }

def setIndex (m : Memory P) (l p : P) : Memory P :=
  { m with pxIndex := Function.update m.pxIndex l p }

end Memory

/-! ## The functions -/

/-- `vListInitialise` -/
def vListInitialise (m : Memory P) (pxList : P) : Memory P :=
  let m := m.setIndex pxList pxList
  let m := m.setItemValue pxList portMAX_DELAY
  let m := m.setNext pxList pxList
  let m := m.setPrevious pxList pxList
  m.setNumberOfItems pxList 0

/-- `vListInitialiseItem` -/
def vListInitialiseItem (m : Memory P) (pxItem : P) : Memory P := m.setContainer pxItem none

/-- `vListInsertEnd`, and the macro `listINSERT_END` -/
def vListInsertEnd (m : Memory P) (pxList pxNewListItem : P) : Memory P :=
  let pxIndex := m.pxIndex pxList
  let m := m.setNext pxNewListItem pxIndex
  let m := m.setPrevious pxNewListItem (m.pxPrevious pxIndex)
  let m := m.setNext (m.pxPrevious pxIndex) pxNewListItem
  let m := m.setPrevious pxIndex pxNewListItem
  let m := m.setContainer pxNewListItem (some pxList)
  m.setNumberOfItems pxList (m.uxNumberOfItems pxList + 1)

/-- The loop of `vListInsert`; `none` when the bound on its turns is used up. -/
def findIterator (m : Memory P) (xValueOfInsertion : UInt32) : ℕ → P → Option P
  | 0, _ => none
  | n + 1, pxIterator =>
      if m.xItemValue (m.pxNext pxIterator) ≤ xValueOfInsertion then
        findIterator m xValueOfInsertion n (m.pxNext pxIterator)
      else some pxIterator

/-- `vListInsert`, behind its search. -/
def insertAfter (m : Memory P) (pxList pxNewListItem pxIterator : P) : Memory P :=
  let m := m.setNext pxNewListItem (m.pxNext pxIterator)
  let m := m.setPrevious (m.pxNext pxNewListItem) pxNewListItem
  let m := m.setPrevious pxNewListItem pxIterator
  let m := m.setNext pxIterator pxNewListItem
  let m := m.setContainer pxNewListItem (some pxList)
  m.setNumberOfItems pxList (m.uxNumberOfItems pxList + 1)

/-- `vListInsert` -/
def vListInsert (m : Memory P) (pxList pxNewListItem : P) : Option (Memory P) :=
  let xValueOfInsertion := m.xItemValue pxNewListItem
  (if xValueOfInsertion = portMAX_DELAY then some (m.pxPrevious pxList)
    else findIterator m xValueOfInsertion (m.uxNumberOfItems pxList + 1) pxList).map
      (insertAfter m pxList pxNewListItem)

/-- `uxListRemove`, and the macro `listREMOVE_ITEM`; `none` when the item is on no list. -/
def uxListRemove (m : Memory P) (pxItemToRemove : P) : Option (Memory P × ℕ) :=
  (m.pxContainer pxItemToRemove).map fun pxList =>
    let m := m.setPrevious (m.pxNext pxItemToRemove) (m.pxPrevious pxItemToRemove)
    let m := m.setNext (m.pxPrevious pxItemToRemove) (m.pxNext pxItemToRemove)
    let m := if m.pxIndex pxList = pxItemToRemove then
        m.setIndex pxList (m.pxPrevious pxItemToRemove) else m
    let m := m.setContainer pxItemToRemove none
    let m := m.setNumberOfItems pxList (m.uxNumberOfItems pxList - 1)
    (m, m.uxNumberOfItems pxList)

/-- `listGET_OWNER_OF_NEXT_ENTRY` -/
def getOwnerOfNextEntry (m : Memory P) (pxList : P) : Memory P × ℕ :=
  let m := m.setIndex pxList (m.pxNext (m.pxIndex pxList))
  let m := if m.pxIndex pxList = pxList then m.setIndex pxList (m.pxNext (m.pxIndex pxList))
    else m
  (m, m.pvOwner (m.pxIndex pxList))

/-- `listGET_OWNER_OF_HEAD_ENTRY` -/
def getOwnerOfHeadEntry (m : Memory P) (pxList : P) : ℕ := m.pvOwner (m.pxNext pxList)

/-! ## The kernel's use of them -/

/-- What the kernel does to its lists. -/
inductive Action (P : Type*)
  | setItemValue (x : P) (v : UInt32)
  | insertEnd (l x : P)
  | insert (l x : P)
  | remove (x : P)
  | next (l : P)
  | head (l : P)
  deriving DecidableEq

/-- What a function comes to. -/
inductive Out
  | done
  | value (n : ℕ)
  /-- A loop did not end. -/
  | stuck
  deriving DecidableEq

variable (lists : List P)

/-- One call.  The kernel puts in only what is on no list, and takes the next or the first of no
empty list. -/
def step (m : Memory P) : Action P → Memory P × Out
  | .setItemValue x v => (if x ∉ lists then m.setItemValue x v else m, .done)
  | .insertEnd l x =>
      (if l ∈ lists ∧ x ∉ lists ∧ m.pxContainer x = none then vListInsertEnd m l x else m, .done)
  | .insert l x =>
      if l ∈ lists ∧ x ∉ lists ∧ m.pxContainer x = none then
        match vListInsert m l x with
        | some m' => (m', .done)
        | none => (m, .stuck)
      else (m, .done)
  | .remove x =>
      match uxListRemove m x with
      | some (m', n) => (m', .value n)
      | none => (m, .done)
  | .next l =>
      if l ∈ lists ∧ m.uxNumberOfItems l ≠ 0 then
        ((getOwnerOfNextEntry m l).1, .value (getOwnerOfNextEntry m l).2)
      else (m, .done)
  | .head l =>
      if l ∈ lists ∧ m.uxNumberOfItems l ≠ 0 then (m, .value (getOwnerOfHeadEntry m l))
      else (m, .done)

/-- The lists are initialised, and so is every item. -/
def initial (m : Memory P) : Memory P :=
  lists.foldl vListInitialise
    { m with pxContainer := fun x => (vListInitialiseItem m x).pxContainer x }

end List_t

namespace TaskLists

variable {P : Type*} [DecidableEq P]

/-- What the kernel does to its lists, said of task lists. -/
def step (lists : List P) (owner : P → ℕ) (s : TaskLists P) :
    List_t.Action P → TaskLists P × List_t.Out
  | .setItemValue x v => (if x ∉ lists then s.setItemValue x v else s, .done)
  | .insertEnd l x =>
      (if l ∈ lists ∧ x ∉ lists ∧ s.container x = none then s.insertEnd l x else s, .done)
  | .insert l x =>
      (if l ∈ lists ∧ x ∉ lists ∧ s.container x = none then s.insert l x else s, .done)
  | .remove x =>
      match s.container x with
      | some _ => ((s.remove x).1, .value (s.remove x).2)
      | none => (s, .done)
  | .next l =>
      if l ∈ lists ∧ (s.list l).items ≠ [] then
        (s.next l, .value (owner ((s.list l).next.before.getLastD l)))
      else (s, .done)
  | .head l =>
      if l ∈ lists ∧ (s.list l).items ≠ [] then (s, .value (owner ((s.list l).items.headD l)))
      else (s, .done)

end TaskLists

end EmbeddedMCU

import Mathlib.Data.List.Nodup
import Mathlib.Data.List.Perm.Basic
import Mathlib.Data.List.TakeWhile
import Mathlib.Logic.Function.Basic
import Mathlib.Tactic.Common

/-!
# FreeRTOS/TaskLists — what the lists of the kernel are for

    before ── x₀ x₁ … xₖ ─│─ xₖ₊₁ … xₙ ── after
                      ▲
                   pxIndex

A list is cut in two behind the item that was chosen last (`TaskList`).  New items come in before
that one, so that they are chosen behind all others, or in the order of their values; the cut moves
on by one item for each that is chosen.  `TaskLists` are any number of lists, and know which of them
an item is on (`Wf`).
-/

namespace EmbeddedMCU

/-- A list cut in two behind the item that was chosen last. -/
structure TaskList (P : Type*) where
  before : List P
  after : List P
  deriving DecidableEq

namespace TaskList

variable {P : Type*}

/-- No items, none chosen. -/
def empty : TaskList P := ⟨[], []⟩

/-- In the order of the links. -/
def items (t : TaskList P) : List P := t.before ++ t.after

/-- Put in to be chosen behind all others but the one that was chosen last. -/
def insertEnd (t : TaskList P) (x : P) : TaskList P :=
  match t.before.getLast? with
  | some l => ⟨t.before.dropLast ++ [x, l], t.after⟩
  | none => ⟨[], t.after ++ [x]⟩

/-- The place of a value among those of the items: in front of the first that is above it.  On a
list in order that is behind all that are not above it; on another, not behind all of them. -/
def place (value : P → UInt32) (t : TaskList P) (v : UInt32) : ℕ :=
  (t.items.takeWhile fun y => value y ≤ v).length

/-- Put in at a place. -/
def insertAt (t : TaskList P) (x : P) (k : ℕ) : TaskList P :=
  if k < t.before.length then ⟨t.before.take k ++ x :: t.before.drop k, t.after⟩
  else
    ⟨t.before, t.after.take (k - t.before.length) ++ x :: t.after.drop (k - t.before.length)⟩

/-- Taken out; when it was the one chosen last, that is now the one before it. -/
def remove [DecidableEq P] (t : TaskList P) (x : P) : TaskList P :=
  ⟨t.before.erase x, t.after.erase x⟩

/-- The next in turn is chosen. -/
def next (t : TaskList P) : TaskList P :=
  match t.after with
  | a :: after => ⟨t.before ++ [a], after⟩
  | [] =>
      match t.before with
      | b :: before => ⟨[b], before⟩
      | [] => t

@[simp] theorem items_empty : (empty : TaskList P).items = [] := rfl

/-- Before the one chosen last, or at the end. -/
theorem exists_items_insertEnd (t : TaskList P) (x d : P) :
    ∃ lo hi, t.items = lo ++ hi ∧ (t.insertEnd x).items = lo ++ x :: hi
      ∧ t.before.getLastD d = hi.headD d ∧ (t.insertEnd x).before.getLastD d = hi.headD d := by
  obtain ⟨before, after⟩ := t
  obtain rfl | ⟨before, i, rfl⟩ := List.eq_nil_or_concat' before
  · exact ⟨after, [], by simp [items], by simp [insertEnd, items], rfl, rfl⟩
  · exact ⟨before, i :: after, by simp [items], by simp [insertEnd, items], by simp,
      by simp [insertEnd]⟩

/-- Where it is put in, what was there comes behind it. -/
theorem items_insertAt (t : TaskList P) (x : P) (k : ℕ) :
    (t.insertAt x k).items = t.items.take k ++ x :: t.items.drop k := by
  simp only [insertAt, items]
  split_ifs with hlt
  · have hle := Nat.le_of_lt hlt
    simp [List.take_append_of_le_length hle, List.drop_append_of_le_length hle]
  · have hle := Nat.le_of_not_lt hlt
    simp [List.take_append, List.drop_append, List.take_of_length_le hle,
      List.drop_of_length_le hle]

/-- Choosing the next moves the cut and no item. -/
@[simp] theorem items_next (t : TaskList P) : t.next.items = t.items := by
  obtain ⟨before, after⟩ := t
  cases after with
  | cons a after => simp [next, items]
  | nil => cases before <;> simp [next, items]

/-- **What is put in to be chosen last comes in, and nothing else changes**, -/
theorem insertEnd_perm (t : TaskList P) (x : P) : (t.insertEnd x).items.Perm (x :: t.items) := by
  obtain ⟨lo, hi, hitems, hitems', -⟩ := t.exists_items_insertEnd x x
  rw [hitems, hitems']
  exact List.perm_middle

/-- …nor does it when it is put in at a place. -/
theorem insertAt_perm (t : TaskList P) (x : P) (k : ℕ) :
    (t.insertAt x k).items.Perm (x :: t.items) := by
  have hperm : (t.items.take k ++ x :: t.items.drop k).Perm
      (x :: (t.items.take k ++ t.items.drop k)) := List.perm_middle
  rwa [List.take_append_drop, ← items_insertAt] at hperm

/-- Taking an item out keeps the order of the others. -/
theorem remove_sublist [DecidableEq P] (t : TaskList P) (x : P) :
    (t.remove x).items.Sublist t.items :=
  List.erase_sublist.append List.erase_sublist

/-- An item that is on the list once is taken off it. -/
theorem items_remove [DecidableEq P] {t : TaskList P} (x : P) (h : t.items.Nodup) :
    (t.remove x).items = t.items.erase x := by
  rw [remove, items, items]
  by_cases hbefore : x ∈ t.before
  · have hafter : x ∉ t.after := fun hmem => (List.nodup_append.mp h).2.2 x hbefore x hmem rfl
    rw [List.erase_append_left _ hbefore, List.erase_of_not_mem hafter]
  · rw [List.erase_append_right _ hbefore, List.erase_of_not_mem hbefore]

/-- What is before the place of a value, and what is behind it. -/
theorem split_place (value : P → UInt32) (t : TaskList P) (v : UInt32) :
    t.items.take (t.place value v) = (t.items.takeWhile fun y => value y ≤ v)
      ∧ t.items.drop (t.place value v) = t.items.dropWhile fun y => value y ≤ v := by
  have htake : t.items.take (t.place value v) = t.items.takeWhile fun y => value y ≤ v :=
    (List.prefix_iff_eq_take.mp (List.takeWhile_prefix _)).symm
  have hsplit := List.takeWhile_append_dropWhile (p := fun y => decide (value y ≤ v))
    (l := t.items)
  have happend : t.items.take (t.place value v) ++ t.items.drop (t.place value v)
      = t.items.take (t.place value v) ++ t.items.dropWhile fun y => value y ≤ v := by
    rw [List.take_append_drop, htake, hsplit]
  exact ⟨htake, List.append_cancel_left happend⟩

/-- The one chosen is an item. -/
theorem exists_next {t : TaskList P} (h : t.items ≠ []) :
    ∃ x ∈ t.items, t.next.before.getLast? = some x := by
  obtain ⟨before, after⟩ := t
  cases after with
  | cons a after => exact ⟨a, by simp [items], by simp [next]⟩
  | nil =>
    cases before with
    | nil => exact absurd rfl h
    | cons b before => exact ⟨b, by simp [items], rfl⟩

end TaskList

/-- Any number of lists, the values of their items, and the list each item is on. -/
structure TaskLists (P : Type*) where
  value : P → UInt32
  list : P → TaskList P
  container : P → Option P

namespace TaskLists

variable {P : Type*} [DecidableEq P]

/-- A list has become `t`, and an item is where `c` says. -/
def set (s : TaskLists P) (l : P) (t : TaskList P) (x : P) (c : Option P) : TaskLists P :=
  { s with list := Function.update s.list l t, container := Function.update s.container x c }

/-- An item has a new value, and stays where it is. -/
def setItemValue (s : TaskLists P) (x : P) (v : UInt32) : TaskLists P :=
  { s with value := Function.update s.value x v }

/-- An item comes onto a list, to be chosen behind all others. -/
def insertEnd (s : TaskLists P) (l x : P) : TaskLists P :=
  s.set l ((s.list l).insertEnd x) x (some l)

/-- An item comes onto a list, at the place of its value. -/
def insert (s : TaskLists P) (l x : P) : TaskLists P :=
  s.set l ((s.list l).insertAt x ((s.list l).place s.value (s.value x))) x (some l)

/-- An item is taken off its list, of which so many are left. -/
def remove (s : TaskLists P) (x : P) : TaskLists P × ℕ :=
  match s.container x with
  | some l => (s.set l ((s.list l).remove x) x none, ((s.list l).remove x).items.length)
  | none => (s, 0)

/-- The next in turn of a list is chosen. -/
def next (s : TaskLists P) (l : P) : TaskLists P :=
  { s with list := Function.update s.list l (s.list l).next }

/-- No list has an item. -/
def initial (value : P → UInt32) : TaskLists P := ⟨value, fun _ => .empty, fun _ => none⟩

section Lemmas

variable {s : TaskLists P} {l l' x : P} {t : TaskList P} {c : Option P}

theorem set_list_self : (s.set l t x c).list l = t := Function.update_self ..

theorem set_list_of_ne (h : l' ≠ l) : (s.set l t x c).list l' = s.list l' :=
  Function.update_of_ne h ..

theorem set_container : (s.set l t x c).container = Function.update s.container x c := rfl

theorem next_list_self : (s.next l).list l = (s.list l).next := Function.update_self ..

theorem next_list_of_ne (h : l' ≠ l) : (s.next l).list l' = s.list l' :=
  Function.update_of_ne h ..

/-- An item that is taken off is on no list. -/
theorem remove_container : (s.remove x).1.container = Function.update s.container x none := by
  rw [remove]
  cases hx : s.container x with
  | some l => rfl
  | none => exact (hx ▸ Function.update_eq_self x s.container).symm

theorem remove_value : (s.remove x).1.value = s.value := by
  rw [remove]
  split <;> rfl

theorem insertEnd_list_of_ne (h : l' ≠ l) : (s.insertEnd l x).list l' = s.list l' :=
  set_list_of_ne h

theorem insert_list_of_ne (h : l' ≠ l) : (s.insert l x).list l' = s.list l' :=
  set_list_of_ne h

/-- Choosing the next leaves every list with the items it has. -/
theorem items_next (l' : P) : ((s.next l).list l').items = (s.list l').items := by
  obtain rfl | hne := eq_or_ne l' l
  · rw [next_list_self, TaskList.items_next]
  · rw [next_list_of_ne hne]

/-- Taking an item off leaves of each list a part. -/
theorem remove_sublist (l : P) : ((s.remove x).1.list l).items.Sublist (s.list l).items := by
  rw [remove]
  cases s.container x with
  | none => exact List.Sublist.refl _
  | some l' =>
    obtain rfl | hne := eq_or_ne l l'
    · rw [set_list_self]
      exact TaskList.remove_sublist _ x
    · rw [set_list_of_ne hne]

end Lemmas

/-! ## Which list an item is on -/

/-- **An item is on the list it is said to be on**, once, and on no other. -/
structure Wf (s : TaskLists P) : Prop where
  container : ∀ x l, s.container x = some l ↔ x ∈ (s.list l).items
  nodup : ∀ l, (s.list l).items.Nodup

namespace Wf

variable {s : TaskLists P} {l x : P} {t : TaskList P}

omit [DecidableEq P] in
/-- At the start no item is on a list. -/
theorem initial (value : P → UInt32) : (initial value).Wf :=
  ⟨fun x l => by simp [TaskLists.initial], fun l => List.nodup_nil⟩

/-- **Each of the calls keeps it**: a new value, -/
theorem setItemValue (h : s.Wf) (x : P) (v : UInt32) : (s.setItemValue x v).Wf :=
  ⟨h.container, h.nodup⟩

omit [DecidableEq P] in
/-- What is on no list is not on this one. -/
theorem notMem (h : s.Wf) (hx : s.container x = none) (l : P) : x ∉ (s.list l).items :=
  fun hmem => absurd (hx.symm.trans ((h.container x l).mpr hmem)) (by simp)

/-- An item that is on no list comes onto one. -/
theorem set_some (h : s.Wf) (hx : s.container x = none)
    (ht : t.items.Perm (x :: (s.list l).items)) : (s.set l t x (some l)).Wf := by
  refine ⟨fun y l' => ?_, fun l' => ?_⟩
  · obtain rfl | hne := eq_or_ne l' l
    · rw [set_list_self, ht.mem_iff, List.mem_cons, set_container, Function.update_apply]
      split_ifs with hyx
      · simp [hyx]
      · simp [hyx, h.container]
    · rw [set_list_of_ne hne, set_container, Function.update_apply]
      split_ifs with hyx
      · subst hyx
        exact iff_of_false (fun heq => hne (Option.some.inj heq).symm) (h.notMem hx l')
      · exact h.container y l'
  · obtain rfl | hne := eq_or_ne l' l
    · rw [set_list_self, ht.nodup_iff, List.nodup_cons]
      exact ⟨h.notMem hx l', h.nodup l'⟩
    · rw [set_list_of_ne hne]
      exact h.nodup l'

/-- …an item put in to be chosen last, -/
theorem insertEnd (h : s.Wf) (hx : s.container x = none) : (s.insertEnd l x).Wf :=
  h.set_some hx (TaskList.insertEnd_perm _ x)

/-- …or in its place, -/
theorem insert (h : s.Wf) (hx : s.container x = none) : (s.insert l x).Wf :=
  h.set_some hx (TaskList.insertAt_perm _ x _)

/-- …an item taken off, -/
theorem remove (h : s.Wf) (x : P) : (s.remove x).1.Wf := by
  rw [TaskLists.remove]
  cases hx : s.container x with
  | none => exact h
  | some l =>
    refine ⟨fun y l' => ?_, fun l' => ?_⟩
    · obtain rfl | hne := eq_or_ne l' l
      · rw [set_list_self, TaskList.items_remove x (h.nodup l'), (h.nodup l').mem_erase_iff,
          set_container, Function.update_apply]
        split_ifs with hyx
        · simp [hyx]
        · simp [hyx, h.container]
      · rw [set_list_of_ne hne, set_container, Function.update_apply]
        split_ifs with hyx
        · subst hyx
          refine iff_of_false (by simp) fun hmem => hne ?_
          exact Option.some.inj (((h.container y l').mpr hmem).symm.trans hx)
        · exact h.container y l'
    · obtain rfl | hne := eq_or_ne l' l
      · rw [set_list_self]
        exact (h.nodup l').sublist (TaskList.remove_sublist _ x)
      · rw [set_list_of_ne hne]
        exact h.nodup l'

/-- …and the next in turn chosen. -/
theorem next (h : s.Wf) (l : P) : (s.next l).Wf := by
  refine ⟨fun x l' => ?_, fun l' => ?_⟩
  · rw [items_next]
    exact h.container x l'
  · rw [items_next]
    exact h.nodup l'

end Wf

/-! ## Sorted lists -/

/-- In the order of their values. -/
def Sorted (value : P → UInt32) (t : TaskList P) : Prop :=
  t.items.Pairwise fun x y => value x ≤ value y

/-- **`insert` keeps a list sorted.** -/
theorem Sorted.insert {s : TaskLists P} {l : P} (h : Sorted s.value (s.list l)) (x : P) :
    Sorted s.value ((s.insert l x).list l) := by
  obtain ⟨htake, hdrop⟩ := TaskList.split_place s.value (s.list l) (s.value x)
  have hsplit := List.takeWhile_append_dropWhile (p := fun y => decide (s.value y ≤ s.value x))
    (l := (s.list l).items)
  rw [Sorted, ← hsplit, List.pairwise_append] at h
  obtain ⟨hlo, hhi, hcross⟩ := h
  have hbefore : ∀ y ∈ (s.list l).items.takeWhile (fun y => decide (s.value y ≤ s.value x)),
      s.value y ≤ s.value x := fun y hy => by simpa using List.mem_takeWhile_imp hy
  have hbehind : ∀ y ∈ (s.list l).items.dropWhile (fun y => decide (s.value y ≤ s.value x)),
      s.value x ≤ s.value y := by
    cases hrest : (s.list l).items.dropWhile fun y => decide (s.value y ≤ s.value x) with
    | nil => exact fun y hy => absurd hy List.not_mem_nil
    | cons z rest =>
      have hz : s.value x ≤ s.value z := by
        have hhead := List.head_dropWhile_not (fun y => decide (s.value y ≤ s.value x))
          (l := (s.list l).items) (by rw [hrest]; exact List.cons_ne_nil z rest)
        simp only [hrest, List.head_cons, decide_eq_false_iff_not] at hhead
        exact UInt32.le_of_lt (UInt32.not_le.mp hhead)
      rw [hrest, List.pairwise_cons] at hhi
      exact List.forall_mem_cons.mpr ⟨hz, fun y hy => UInt32.le_trans hz (hhi.1 y hy)⟩
  rw [TaskLists.insert, set_list_self, Sorted, TaskList.items_insertAt, htake, hdrop,
    List.pairwise_append, List.pairwise_cons]
  refine ⟨hlo, ⟨hbehind, hhi⟩, fun y hy z hz => ?_⟩
  obtain rfl | hz := List.mem_cons.mp hz
  · exact hbefore y hy
  · exact hcross y hy z hz

end TaskLists

end EmbeddedMCU

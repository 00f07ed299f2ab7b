import EmbeddedMCU.FreeRTOS.ListRefinement

/-!
# FreeRTOS/ListSorted — the order of the lists that wait

    xListEnd ⇄ 3 ⇄ 3 ⇄ 7 ⇄ … ⇄ portMAX_DELAY ⇄ xListEnd

The kernel wakes whoever is first on a list and looks no further than to the first who has to wait
longer.  That is right as long as the links lead through the values in order: `vListInsert` sees to
it, and no one else may put an item on the list or change the value of one that is on it
(`sorted_links`).
-/

namespace EmbeddedMCU

namespace List_t

variable {P : Type*} [DecidableEq P] {lists : List P} {owner : P → ℕ} {s : TaskLists P} {l : P}

/-- What leaves the order of a list alone: nothing is put at its end, and no value of its items is
set. -/
def KeepsOrder (container : P → Option P) (l : P) (a : Action P) : Prop :=
  (∀ x, a ≠ .insertEnd l x) ∧ ∀ x v, a = .setItemValue x v → container x ≠ some l

/-- Values that are set elsewhere. -/
theorem sorted_setItemValue (h : s.Wf) (hs : TaskLists.Sorted s.value (s.list l)) {x : P}
    (v : UInt32) (hx : s.container x ≠ some l) :
    TaskLists.Sorted (s.setItemValue x v).value ((s.setItemValue x v).list l) := by
  have hne : ∀ y ∈ (s.list l).items, y ≠ x := fun y hy heq =>
    hx (heq ▸ (h.container y l).mpr hy)
  have hvalue : ∀ y ∈ (s.list l).items, (s.setItemValue x v).value y = s.value y :=
    fun y hy => Function.update_of_ne (hne y hy) ..
  refine List.Pairwise.imp_of_mem (fun {a b} ha hb hab => ?_) hs
  rw [hvalue a ha, hvalue b hb]
  exact hab

/-- **One call keeps a list in order.** -/
theorem step_sorted (h : s.Wf) (hs : TaskLists.Sorted s.value (s.list l)) {a : Action P}
    (ha : KeepsOrder s.container l a) :
    (s.step lists owner a).1.Wf
      ∧ TaskLists.Sorted (s.step lists owner a).1.value ((s.step lists owner a).1.list l) := by
  cases a with
  | setItemValue x v =>
    rw [TaskLists.step]
    by_cases hx : x ∈ lists
    · rw [if_neg (not_not_intro hx)]
      exact ⟨h, hs⟩
    · rw [if_pos hx]
      exact ⟨h.setItemValue x v, sorted_setItemValue h hs v (ha.2 x v rfl)⟩
  | insertEnd l' x =>
    rw [TaskLists.step]
    split_ifs with hcall
    · have hne : l ≠ l' := fun heq => ha.1 x (heq ▸ rfl)
      refine ⟨h.insertEnd hcall.2.2, ?_⟩
      rw [TaskLists.insertEnd_list_of_ne hne]
      exact hs
    · exact ⟨h, hs⟩
  | insert l' x =>
    rw [TaskLists.step]
    split_ifs with hcall
    · refine ⟨h.insert hcall.2.2, ?_⟩
      obtain rfl | hne := eq_or_ne l l'
      · exact TaskLists.Sorted.insert hs x
      · rw [TaskLists.insert_list_of_ne hne]
        exact hs
    · exact ⟨h, hs⟩
  | remove x =>
    have hremoved : (s.remove x).1.Wf
        ∧ TaskLists.Sorted (s.remove x).1.value ((s.remove x).1.list l) := by
      refine ⟨h.remove x, ?_⟩
      rw [TaskLists.remove_value]
      exact List.Pairwise.sublist (TaskLists.remove_sublist l) hs
    rw [TaskLists.step]
    cases s.container x with
    | none => exact ⟨h, hs⟩
    | some l' => exact hremoved
  | next l' =>
    rw [TaskLists.step]
    split_ifs
    · refine ⟨h.next l', ?_⟩
      rw [TaskLists.Sorted, TaskLists.items_next]
      exact hs
    · exact ⟨h, hs⟩
  | head l' =>
    rw [TaskLists.step]
    split_ifs <;> exact ⟨h, hs⟩

/-- A run over lists of which one is kept in order. -/
theorem run_sorted {actions : List (Action P)} (h : s.Wf)
    (hs : TaskLists.Sorted s.value (s.list l)) {m : Memory P} (hm : Holds lists m s)
    (ha : AllCalls (step lists) (fun m => KeepsOrder m.pxContainer l) m actions) :
    (run (TaskLists.step lists m.pvOwner) s actions).1.Wf
      ∧ TaskLists.Sorted (run (TaskLists.step lists m.pvOwner) s actions).1.value
        ((run (TaskLists.step lists m.pvOwner) s actions).1.list l) := by
  induction actions generalizing s m with
  | nil => exact ⟨h, hs⟩
  | cons a actions ih =>
    obtain ⟨hone, hrest⟩ := ha
    rw [hm.container] at hone
    have hkept : (s.step lists m.pvOwner a).1.Wf
        ∧ TaskLists.Sorted (s.step lists m.pvOwner a).1.value
          ((s.step lists m.pvOwner a).1.list l) := step_sorted h hs hone
    obtain ⟨hwf, hsorted⟩ := hkept
    obtain ⟨hholds, -, howner⟩ := step_holds hm a
    rw [run_cons_fst, ← howner]
    rw [← howner] at hholds hwf hsorted
    exact ih hwf hsorted hholds hrest

/-- **The links lead through a list in the order of its values**, after any run in which only
`vListInsert` puts items on it and no value of an item that is on it is set.  They lead through the
items that have the list as their container, through each of them once, and back. -/
theorem sorted_links (lists : List P) (m₀ : Memory P) (actions : List (Action P)) (l : P)
    (hl : l ∈ lists)
    (hactions : AllCalls (step lists) (fun m => KeepsOrder m.pxContainer l) (initial lists m₀)
      actions) :
    let m := (run (step lists) (initial lists m₀) actions).1
    ∃ xs, Circle m.pxNext m.pxPrevious l xs
      ∧ xs.Pairwise (fun x y => m.xItemValue x ≤ m.xItemValue y)
      ∧ ∀ x, x ∈ xs ↔ m.pxContainer x = some l := by
  obtain ⟨hinit, howner⟩ := initial_holds lists m₀
  obtain ⟨hwf, hsorted⟩ := run_sorted (l := l) (.initial _) List.Pairwise.nil hinit hactions
  obtain ⟨⟨hholds, -⟩, -⟩ := run_holds hinit actions
  have hrep := hholds.represents l hl
  refine ⟨_, hrep.circle, ?_, fun x => (hrep.container x).symm⟩
  rw [hholds.value]
  exact hsorted

/-- Three puts out of order, the last of an item that was taken off and given another value. -/
theorem sorted_links_three :
    let m₀ : Memory ℕ := ⟨fun _ => 0, id, id, id, fun _ => none, id, id⟩
    let actions : List (Action ℕ) :=
      [.setItemValue 1 7, .insert 0 1, .setItemValue 2 3, .insert 0 2, .remove 1,
        .setItemValue 1 2, .insert 0 1]
    let m := (run (step [0]) (initial [0] m₀) actions).1
    ∃ xs, Circle m.pxNext m.pxPrevious 0 xs
      ∧ xs.Pairwise (fun x y => m.xItemValue x ≤ m.xItemValue y)
      ∧ ∀ x, x ∈ xs ↔ m.pxContainer x = some 0 :=
  sorted_links [0] ⟨fun _ => 0, id, id, id, fun _ => none, id, id⟩ _ 0 (by decide)
    (by simp [AllCalls, KeepsOrder]; decide)

end List_t

end EmbeddedMCU

import EmbeddedMCU.FreeRTOS.ListRefinement

/-!
# FreeRTOS/ListTurns — every item of a list gets its turn

    before ── … x … ─│─ after         the cut moves right, one item at each
                     ▲                `listGET_OWNER_OF_NEXT_ENTRY`, and wraps
                  pxIndex

The items of a ready list take turns.  New ones are put in by `vListInsertEnd`, before the cut, so
that what is behind it is never held up: it only gets shorter.  Hence `next_takes_turns`: an item
that stays on its list is chosen within two turns for each place of it, whatever comes and goes.
-/

namespace EmbeddedMCU

namespace TaskList

variable {P : Type*} [DecidableEq P] {N : ℕ} {x y : P} {t : TaskList P}

/-- A bound on the turns until an item is chosen, on a list of at most `N`: it is behind the cut, or
the cut has to wrap first. -/
def turns (N : ℕ) (x : P) (t : TaskList P) : ℕ :=
  if x ∈ t.after then t.after.idxOf x else t.after.length + N

theorem turns_of_mem (h : x ∈ t.after) : t.turns N x = t.after.idxOf x := if_pos h

theorem turns_of_notMem (h : x ∉ t.after) : t.turns N x = t.after.length + N := if_neg h

theorem idxOf_erase_le (l : List P) (h : y ≠ x) : (l.erase y).idxOf x ≤ l.idxOf x := by
  induction l with
  | nil => exact le_rfl
  | cons a l ih =>
    obtain rfl | hay := eq_or_ne a y
    · rw [List.erase_cons_head, List.idxOf_cons_ne l h]
      exact Nat.le_succ _
    · rw [List.erase_cons_tail (by simpa using hay)]
      obtain rfl | hax := eq_or_ne a x
      · rw [List.idxOf_cons_self]
        exact Nat.zero_le _
      · rw [List.idxOf_cons_ne _ hax, List.idxOf_cons_ne _ hax]
        exact Nat.succ_le_succ ih

/-- **Who arrives holds up no one.** -/
theorem turns_insertEnd (hx : x ∈ t.items) :
    x ∈ (t.insertEnd y).items ∧ (t.insertEnd y).turns N x ≤ t.turns N x := by
  obtain ⟨before, after⟩ := t
  obtain rfl | ⟨before, i, rfl⟩ := List.eq_nil_or_concat' before
  · have hafter : x ∈ after := by simpa [items] using hx
    have hmem : x ∈ (insertEnd ⟨[], after⟩ y).after := List.mem_append_left [y] hafter
    refine ⟨List.mem_append_right _ hmem, le_of_eq ?_⟩
    rw [turns_of_mem hmem, turns_of_mem (t := ⟨[], after⟩) hafter]
    exact List.idxOf_append_of_mem hafter
  · have hcut : (insertEnd ⟨before ++ [i], after⟩ y) = ⟨before ++ [y, i], after⟩ := by
      simp [insertEnd]
    rw [hcut]
    refine ⟨?_, le_rfl⟩
    simp only [items, List.mem_append, List.mem_cons, List.not_mem_nil, or_false] at hx ⊢
    tauto

/-- **Nor does who leaves.** -/
theorem turns_remove (hx : x ∈ t.items) (h : y ≠ x) :
    x ∈ (t.remove y).items ∧ (t.remove y).turns N x ≤ t.turns N x := by
  have hkept : ∀ l : List P, x ∈ l.erase y ↔ x ∈ l := fun l =>
    List.mem_erase_of_ne h.symm
  refine ⟨?_, ?_⟩
  · rw [items, List.mem_append] at hx ⊢
    exact hx.imp (hkept _).mpr (hkept _).mpr
  · by_cases hafter : x ∈ t.after
    · rw [turns_of_mem hafter, turns_of_mem (t := t.remove y) ((hkept _).mpr hafter)]
      exact idxOf_erase_le t.after h
    · rw [turns_of_notMem hafter,
        turns_of_notMem (t := t.remove y) fun hmem => hafter ((hkept _).mp hmem)]
      exact Nat.add_le_add_right List.erase_sublist.length_le N

/-- **Each turn brings an item nearer to its own**, unless it was its own. -/
theorem turns_next (hx : x ∈ t.items) (hN : t.items.length ≤ N) :
    x ∈ t.next.items
      ∧ (t.next.before.getLast? = some x ∨ t.next.turns N x < t.turns N x) := by
  obtain ⟨before, after⟩ := t
  cases after with
  | cons a after =>
    refine ⟨by simpa [next, items] using hx, ?_⟩
    obtain rfl | hax := eq_or_ne a x
    · exact .inl (by simp [next])
    refine .inr ?_
    by_cases hafter : x ∈ after
    · rw [turns_of_mem (t := next _) hafter, turns_of_mem (List.mem_cons_of_mem a hafter)]
      exact (List.idxOf_cons_ne after hax).symm ▸ Nat.lt_succ_self _
    · have hafter' : x ∉ a :: after := by simp [hafter, hax.symm]
      rw [turns_of_notMem (t := next _) hafter, turns_of_notMem hafter']
      exact Nat.add_lt_add_right (Nat.lt_succ_self _) N
  | nil =>
    cases before with
    | nil => exact absurd hx (by simp [items])
    | cons b before =>
      refine ⟨by simpa [next, items] using hx, ?_⟩
      obtain rfl | hbx := eq_or_ne b x
      · exact .inl rfl
      have hbefore : x ∈ before := by simpa [items, hbx.symm] using hx
      rw [turns_of_mem (t := next _) hbefore, turns_of_notMem (t := ⟨b :: before, []⟩) (by simp)]
      refine .inr ((List.idxOf_lt_length_iff.mpr hbefore).trans ?_)
      simp only [items, List.append_nil, List.length_cons, List.length_nil] at hN ⊢
      omega

/-- At most two turns for each place of the list. -/
theorem turns_lt (hx : x ∈ t.items) (hN : t.items.length ≤ N) : t.turns N x < 2 * N := by
  rw [items, List.length_append] at hN
  by_cases hafter : x ∈ t.after
  · have := List.idxOf_lt_length_iff.mpr hafter
    rw [turns_of_mem hafter]
    omega
  · have hbefore : x ∈ t.before := (List.mem_append.mp hx).resolve_right hafter
    have := List.length_pos_of_mem hbefore
    rw [turns_of_notMem hafter]
    omega

end TaskList

namespace List_t

/-! ## Runs -/

variable {P : Type*} [DecidableEq P] {lists : List P} {owner : P → ℕ} {N : ℕ} {l x : P}
  {s : TaskLists P}

/-- What a ready list is never subject to, and what would take the item off it. -/
def keeps (l x : P) (a : Action P) : Prop := a ≠ .remove x ∧ ∀ y, a ≠ .insert l y

/-- **A call that is not for the list's next holds up no item of it.** -/
theorem turns_step (hx : x ∈ (s.list l).items) {a : Action P} (hkeeps : keeps l x a)
    (hnext : a ≠ .next l) :
    x ∈ ((s.step lists owner a).1.list l).items
      ∧ ((s.step lists owner a).1.list l).turns N x ≤ (s.list l).turns N x := by
  have hset : ∀ {l' y : P} {t : TaskList P} {c : Option P},
      (l' = l → x ∈ t.items ∧ t.turns N x ≤ (s.list l).turns N x) →
      x ∈ ((s.set l' t y c).list l).items
        ∧ ((s.set l' t y c).list l).turns N x ≤ (s.list l).turns N x := by
    intro l' y t c ht
    obtain rfl | hne := eq_or_ne l l'
    · rw [TaskLists.set_list_self]
      exact ht rfl
    · rw [TaskLists.set_list_of_ne hne]
      exact ⟨hx, le_rfl⟩
  cases a with
  | setItemValue y v =>
    rw [TaskLists.step]
    split_ifs <;> exact ⟨hx, le_rfl⟩
  | insertEnd l' y =>
    rw [TaskLists.step]
    split_ifs
    · exact hset fun heq => heq ▸ TaskList.turns_insertEnd (heq ▸ hx)
    · exact ⟨hx, le_rfl⟩
  | insert l' y =>
    rw [TaskLists.step]
    split_ifs
    · exact hset fun heq => absurd (heq ▸ rfl) (hkeeps.2 y)
    · exact ⟨hx, le_rfl⟩
  | remove y =>
    rw [TaskLists.step, TaskLists.remove]
    have hyx : y ≠ x := fun heq => hkeeps.1 (heq ▸ rfl)
    cases s.container y with
    | none => exact ⟨hx, le_rfl⟩
    | some l' => exact hset fun heq => heq ▸ TaskList.turns_remove (heq ▸ hx) hyx
  | next l' =>
    rw [TaskLists.step]
    have hne : l ≠ l' := fun heq => hnext (heq ▸ rfl)
    split_ifs
    · rw [TaskLists.next_list_of_ne hne]
      exact ⟨hx, le_rfl⟩
    · exact ⟨hx, le_rfl⟩
  | head l' =>
    rw [TaskLists.step]
    split_ifs <;> exact ⟨hx, le_rfl⟩

/-- **The list's next is the item, or nearer to it.** -/
theorem turns_step_next (hl : l ∈ lists) (hx : x ∈ (s.list l).items)
    (hN : (s.list l).items.length ≤ N) :
    let call := s.step lists owner (.next l)
    x ∈ (call.1.list l).items
      ∧ ((call.1.list l).before.getLast? = some x ∧ call.2 = .value (owner x)
        ∨ (call.1.list l).turns N x < (s.list l).turns N x) := by
  have hcall : s.step lists owner (.next l)
      = (s.next l, .value (owner ((s.list l).next.before.getLastD l))) := by
    rw [TaskLists.step, if_pos ⟨hl, List.ne_nil_of_mem hx⟩]
  obtain ⟨hmem, hturn⟩ := TaskList.turns_next hx hN
  simp only [hcall, TaskLists.next_list_self]
  refine ⟨hmem, hturn.imp_left fun hlast => ⟨hlast, ?_⟩⟩
  rw [List.getLastD_eq_getLast?, hlast, Option.getD_some]

/-- After as many turns as the bound, one was the item's. -/
theorem exists_turn (hl : l ∈ lists) {actions : List (Action P)} (hx : x ∈ (s.list l).items)
    (hkeeps : ∀ a ∈ actions, keeps l x a)
    (hN : ∀ k ≤ actions.length,
      ((run (TaskLists.step lists owner) s (actions.take k)).1.list l).items.length ≤ N)
    (hturns : (s.list l).turns N x < actions.count (.next l)) :
    ∃ pre post, actions = pre ++ .next l :: post ∧
      let call := (run (TaskLists.step lists owner) s pre).1.step lists owner (.next l)
      (call.1.list l).before.getLast? = some x ∧ call.2 = .value (owner x) := by
  induction actions generalizing s with
  | nil => exact absurd hturns (Nat.not_lt_zero _)
  | cons a actions ih =>
    obtain ⟨ha, hkeeps⟩ := List.forall_mem_cons.mp hkeeps
    have hrest : ∀ k ≤ actions.length, ((run (TaskLists.step lists owner)
        (s.step lists owner a).1 (actions.take k)).1.list l).items.length ≤ N :=
      fun k hk => hN (k + 1) (Nat.succ_le_succ hk)
    have hlater : x ∈ ((s.step lists owner a).1.list l).items →
        ((s.step lists owner a).1.list l).turns N x < actions.count (.next l) →
        ∃ pre post, a :: actions = pre ++ .next l :: post ∧
          let call := (run (TaskLists.step lists owner) s pre).1.step lists owner (.next l)
          (call.1.list l).before.getLast? = some x ∧ call.2 = .value (owner x) := by
      intro hx' hturns'
      obtain ⟨pre, post, hsplit, hcall⟩ := ih hx' hkeeps hrest hturns'
      exact ⟨a :: pre, post, by rw [hsplit, List.cons_append], hcall⟩
    obtain rfl | hnext := eq_or_ne a (.next l)
    · obtain ⟨hx', hturn | hless⟩ := turns_step_next hl hx (hN 0 (Nat.zero_le _))
      · exact ⟨[], actions, rfl, hturn⟩
      · rw [List.count_cons_self] at hturns
        exact hlater hx' (by omega)
    · obtain ⟨hx', hle⟩ := turns_step hx ha hnext
      rw [List.count_cons_of_ne hnext] at hturns
      exact hlater hx' (hle.trans_lt hturns)

/-- **Every item gets its turn.**  While an item stays on a list that never has more than `N` items
and that nothing is sorted into, `2 * N` calls for the list's next choose it, whatever else comes
and goes. -/
theorem next_takes_turns {lists : List P} {m₀ : Memory P} {history actions : List (Action P)}
    {l x : P} {N : ℕ}
    (hx : (run (step lists) (initial lists m₀) history).1.pxContainer x = some l)
    (hkeeps : ∀ a ∈ actions, keeps l x a)
    (hN : ∀ k ≤ actions.length, (run (step lists) (run (step lists) (initial lists m₀) history).1
      (actions.take k)).1.uxNumberOfItems l ≤ N)
    (hturns : 2 * N ≤ actions.count (.next l)) :
    ∃ pre post, actions = pre ++ .next l :: post ∧
      let call := step lists
        (run (step lists) (run (step lists) (initial lists m₀) history).1 pre).1 (.next l)
      call.1.pxIndex l = x ∧ call.2 = .value (m₀.pvOwner x) := by
  obtain ⟨hinit, howner₀⟩ := initial_holds lists m₀
  obtain ⟨⟨hholds, howner⟩, -⟩ := run_holds hinit history
  rw [howner₀] at howner
  generalize (run (step lists) (initial lists m₀) history).1 = m at *
  generalize (run (TaskLists.step lists (initial lists m₀).pvOwner) _ history).1 = s at hholds
  have hl := hholds.known x l hx
  have hmem := ((hholds.represents l hl).container x).mp hx
  have hrun : ∀ pre, Holds lists (run (step lists) m pre).1
      (run (TaskLists.step lists m₀.pvOwner) s pre).1
        ∧ (run (step lists) m pre).1.pvOwner = m₀.pvOwner := by
    intro pre
    have := (run_holds hholds pre).1
    rwa [howner] at this
  have hcount : ∀ k ≤ actions.length, ((run (TaskLists.step lists m₀.pvOwner) s
      (actions.take k)).1.list l).items.length ≤ N := by
    intro k hk
    rw [← ((hrun (actions.take k)).1.represents l hl).count]
    exact hN k hk
  have hbound := TaskList.turns_lt hmem (hcount 0 (Nat.zero_le _))
  obtain ⟨pre, post, hsplit, hlast, hout⟩ :=
    exists_turn hl hmem hkeeps hcount (hbound.trans_le hturns)
  obtain ⟨hholds', howner'⟩ := hrun pre
  obtain ⟨hnext, houts, -⟩ := step_holds hholds' (.next l)
  rw [howner'] at hnext houts
  refine ⟨pre, post, hsplit, ?_, houts.trans hout⟩
  rw [(hnext.represents l hl).index, List.getLastD_eq_getLast?, hlast, Option.getD_some]

theorem next_takes_turns_two :
    let m₀ : Memory ℕ := ⟨fun _ => 0, id, id, id, fun _ => none, id, id⟩
    let history : List (Action ℕ) := [.insertEnd 0 1, .insertEnd 0 2, .next 0]
    ∃ pre post, [.next 0, .remove 2, .insertEnd 0 2, .next 0, .next 0, .next 0]
        = pre ++ .next 0 :: post ∧
      let call := step [0] (run (step [0]) (run (step [0]) (initial [0] m₀) history).1 pre).1
        (.next 0)
      call.1.pxIndex 0 = 1 ∧ call.2 = .value 1 :=
  next_takes_turns (x := 1) (N := 2) (by decide) (by simp [keeps]) (by decide) (by decide)

end List_t

end EmbeddedMCU

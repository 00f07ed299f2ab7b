import EmbeddedMCU.FreeRTOS.List
import EmbeddedMCU.Machinery.Circle
import Mathlib.Data.List.TakeWhile

/-!
# FreeRTOS/ListRefinement — the links in memory are the lists

    Memory ──vListInsert, vListInsertEnd, uxListRemove, …──▸ Memory
      ▲                                                        ▲
      │ Represents                                             │ Represents
    TaskList ────insertAt, insertEnd, remove, next────────▸ TaskList

Each function of `list.c` does to the links of its list what the operation of that name does to the
`TaskList`, and nothing to the links of another.  So a run over any number of lists, which hand
their items to and fro, is a run over task lists (`list_refines`).
-/

namespace EmbeddedMCU

namespace List_t

/-! ## One list -/

variable {P : Type*}

/-- **The links of a list in memory are those of a task list.** -/
structure Represents (m : Memory P) (l : P) (t : TaskList P) : Prop where
  circle : Circle m.pxNext m.pxPrevious l t.items
  index : m.pxIndex l = t.before.getLastD l
  count : m.uxNumberOfItems l = t.items.length
  container : ∀ x, m.pxContainer x = some l ↔ x ∈ t.items
  marker : m.xItemValue l = portMAX_DELAY

section One

variable {m m' : Memory P} {l x : P} {t : TaskList P} {lo hi : List P}

theorem Represents.marker_notMem (h : Represents m l t) : l ∉ t.items :=
  (List.nodup_cons.mp h.circle.nodup).1

/-- What a list does not have is not read. -/
theorem Represents.congr (h : Represents m l t)
    (hlinks : ∀ y ∈ l :: t.items, m'.pxNext y = m.pxNext y ∧ m'.pxPrevious y = m.pxPrevious y)
    (hindex : m'.pxIndex l = m.pxIndex l) (hcount : m'.uxNumberOfItems l = m.uxNumberOfItems l)
    (hcontainer : ∀ y, m'.pxContainer y = some l ↔ m.pxContainer y = some l)
    (hvalue : m'.xItemValue l = m.xItemValue l) : Represents m' l t where
  circle := h.circle.congr (fun y hy => (hlinks y hy).1) fun y hy => (hlinks y hy).2
  index := hindex.trans h.index
  count := hcount.trans h.count
  container y := (hcontainer y).trans (h.container y)
  marker := hvalue.trans h.marker

/-- **The loop of `vListInsert` stops before the first item with a larger value.** -/
theorem findIterator_eq {it : P} {n : ℕ} {v : UInt32}
    (h : Path m.pxNext m.pxPrevious it (lo ++ hi) l) (hlo : ∀ y ∈ lo, m.xItemValue y ≤ v)
    (hhi : v < m.xItemValue (hi.headD l)) (hn : lo.length < n) :
    findIterator m v n it = some (lo.getLastD it) := by
  induction lo generalizing it n with
  | nil =>
    obtain ⟨n, rfl⟩ := Nat.exists_eq_add_of_lt hn
    have hpath : Path m.pxNext m.pxPrevious it hi l := h
    rw [findIterator, hpath.first, if_neg (UInt32.not_le.mpr hhi)]
    rfl
  | cons y lo ih =>
    obtain ⟨n, rfl⟩ := Nat.exists_eq_add_of_lt hn
    obtain ⟨hy, hlo⟩ := List.forall_mem_cons.mp hlo
    obtain ⟨⟨hnext, -⟩, hrest⟩ := h
    rw [findIterator, hnext, if_pos hy, List.getLastD_cons]
    exact ih hrest hlo (by rw [List.length_cons]; omega)

/-- The neighbours of a place are the marker or items. -/
theorem neighbours_mem (l : P) (lo hi : List P) :
    lo.getLastD l ∈ l :: (lo ++ hi) ∧ hi.headD l ∈ l :: (lo ++ hi) := by
  have hlast : lo.getLastD l ∈ l :: lo := List.getLastD_mem_cons
  constructor
  · grind -ring -linarith -order
  · cases hi <;> grind -ring -linarith -order

variable [DecidableEq P]

/-- **`vListInsertEnd` puts the item before the index.** -/
theorem circle_vListInsertEnd (h : Circle m.pxNext m.pxPrevious l (lo ++ hi))
    (hindex : m.pxIndex l = hi.headD l) (hx : x ∉ l :: (lo ++ hi)) :
    Circle (vListInsertEnd m l x).pxNext (vListInsertEnd m l x).pxPrevious l (lo ++ x :: hi) := by
  have hhead : hi.headD l ≠ x := by
    cases hi <;> grind -ring -linarith -order
  simp only [vListInsertEnd, Memory.setNext, Memory.setPrevious, Memory.setContainer,
    Memory.setNumberOfItems, hindex, h.joined.2, Function.update_of_ne hhead]
  rw [Function.update_comm hhead.symm]
  exact h.insert hx

/-- **`vListInsert` puts the item behind the iterator.** -/
theorem circle_insertAfter (h : Circle m.pxNext m.pxPrevious l (lo ++ hi))
    (hx : x ∉ l :: (lo ++ hi)) :
    Circle (insertAfter m l x (lo.getLastD l)).pxNext
      (insertAfter m l x (lo.getLastD l)).pxPrevious l (lo ++ x :: hi) := by
  simp only [insertAfter, Memory.setNext, Memory.setPrevious, Memory.setContainer,
    Memory.setNumberOfItems, h.joined.1, Function.update_self]
  exact h.insert hx

/-- The links outside of the list and the item are as they were, and the item is where `c` says. -/
structure Apart (m m' : Memory P) (l x : P) (t : TaskList P) (c : Option P) : Prop where
  links : ∀ y, y ≠ x → y ∉ l :: t.items →
    m'.pxNext y = m.pxNext y ∧ m'.pxPrevious y = m.pxPrevious y
  container : m'.pxContainer = Function.update m.pxContainer x c
  index : ∀ l' ≠ l, m'.pxIndex l' = m.pxIndex l'
  count : ∀ l' ≠ l, m'.uxNumberOfItems l' = m.uxNumberOfItems l'
  xItemValue : m'.xItemValue = m.xItemValue
  pvOwner : m'.pvOwner = m.pvOwner

/-- **`vListInsertEnd` is `insertEnd`.** -/
theorem Represents.vListInsertEnd (h : Represents m l t) (hx : x ∉ l :: t.items) :
    Represents (vListInsertEnd m l x) l (t.insertEnd x)
      ∧ Apart m (vListInsertEnd m l x) l x t (some l) := by
  obtain ⟨lo, hi, hitems, hitems', hindex, hindex'⟩ := t.exists_items_insertEnd x l
  have hcircle := h.circle
  rw [hitems] at hcircle hx
  have hidx : m.pxIndex l = hi.headD l := h.index.trans hindex
  have hneighbours := neighbours_mem l lo hi
  have hhead : hi.headD l ≠ x := fun heq => hx (heq ▸ hneighbours.2)
  have hprev : m.pxPrevious (hi.headD l) = lo.getLastD l := hcircle.joined.2
  refine ⟨⟨?_, ?_, ?_, fun y => ?_, h.marker⟩, ⟨fun y hyx hy => ?_, rfl, fun _ _ => rfl,
    fun l' hl' => ?_, rfl, rfl⟩⟩
  · rw [hitems']
    exact circle_vListInsertEnd hcircle hidx hx
  · exact hidx.trans hindex'.symm
  · have hcount := h.count
    simp only [List_t.vListInsertEnd, Memory.setNumberOfItems, Memory.setNext,
      Memory.setPrevious, Memory.setContainer, Function.update_self, hcount, hitems, hitems',
      List.length_append, List.length_cons]
    omega
  · have hcontainer := h.container y
    rw [hitems] at hcontainer
    simp only [List_t.vListInsertEnd, Memory.setNumberOfItems, Memory.setNext,
      Memory.setPrevious, Memory.setContainer, Function.update_apply, hitems', List.mem_append,
      List.mem_cons] at hcontainer ⊢
    split_ifs with hyx
    · simp [hyx]
    · rw [hcontainer]
      tauto
  · rw [hitems] at hy
    have hyl : y ≠ lo.getLastD l ∧ y ≠ hi.headD l :=
      ⟨fun heq => hy (heq ▸ hneighbours.1), fun heq => hy (heq ▸ hneighbours.2)⟩
    simp only [List_t.vListInsertEnd, Memory.setNumberOfItems, Memory.setNext,
      Memory.setPrevious, Memory.setContainer, hidx, hprev, Function.update_of_ne hhead,
      Function.update_of_ne hyx, Function.update_of_ne hyl.1, Function.update_of_ne hyl.2,
      and_self]
  · exact Function.update_of_ne hl' ..

omit [DecidableEq P] in
/-- The iterator of `vListInsert` is the last before the first item that is above the value. -/
theorem Represents.search (h : Represents m l t) (v : UInt32) :
    (if v = portMAX_DELAY then some (m.pxPrevious l)
      else findIterator m v (m.uxNumberOfItems l + 1) l)
      = some ((t.items.take (t.place m.xItemValue v)).getLastD l) := by
  have hsplit := List.takeWhile_append_dropWhile (p := fun y => decide (m.xItemValue y ≤ v))
    (l := t.items)
  rw [(t.split_place m.xItemValue v).1]
  split_ifs with hmax
  · have hall : (t.items.takeWhile fun y => decide (m.xItemValue y ≤ v)) = t.items := by
      rw [List.takeWhile_eq_self_iff]
      intro y _
      have := (m.xItemValue y).toNat_lt
      rw [decide_eq_true_iff, hmax, UInt32.le_iff_toNat_le]
      exact Nat.le_of_lt_succ this
    have hcircle := h.circle
    rw [← List.append_nil t.items] at hcircle
    rw [hall]
    exact congrArg some hcircle.joined.2
  · have hpath := h.circle.path
    rw [← hsplit] at hpath
    refine findIterator_eq hpath (fun y hy => by simpa using List.mem_takeWhile_imp hy) ?_ ?_
    · cases hdrop : t.items.dropWhile fun y => decide (m.xItemValue y ≤ v) with
      | nil =>
        rw [List.headD_nil, h.marker, UInt32.lt_iff_toNat_lt]
        have := v.toNat_lt
        have hne : v.toNat ≠ portMAX_DELAY.toNat := fun heq => hmax (UInt32.toNat_inj.mp heq)
        have hnat : portMAX_DELAY.toNat = 2 ^ 32 - 1 := rfl
        omega
      | cons y ys =>
        have hne : t.items.dropWhile (fun y => decide (m.xItemValue y ≤ v)) ≠ [] := by
          rw [hdrop]
          exact List.cons_ne_nil y ys
        have hy := List.head_dropWhile_not (fun y => decide (m.xItemValue y ≤ v)) hne
        simp only [hdrop, List.head_cons, decide_eq_false_iff_not] at hy
        exact UInt32.not_le.mp hy
    · have hle := (List.takeWhile_sublist (l := t.items)
        fun y => decide (m.xItemValue y ≤ v)).length_le
      rw [h.count]
      omega

/-- **`vListInsert` is `insertAt`**, at the place of the value. -/
theorem Represents.vListInsert (h : Represents m l t) (hx : x ∉ l :: t.items) :
    ∃ m', List_t.vListInsert m l x = some m'
      ∧ Represents m' l (t.insertAt x (t.place m.xItemValue (m.xItemValue x)))
      ∧ Apart m m' l x t (some l) := by
  set k := t.place m.xItemValue (m.xItemValue x) with hk
  have hcircle := h.circle
  rw [← List.take_append_drop k t.items] at hcircle hx
  have hneighbours := neighbours_mem l (t.items.take k) (t.items.drop k)
  have hlast : x ≠ (t.items.take k).getLastD l := fun heq => hx (heq ▸ hneighbours.1)
  have hnext : m.pxNext ((t.items.take k).getLastD l) = (t.items.drop k).headD l :=
    hcircle.joined.1
  have hitems := t.items_insertAt x k
  have hindex : (t.insertAt x k).before.getLastD l = t.before.getLastD l := by
    simp only [TaskList.insertAt]
    split_ifs with hlt
    · obtain hnil | ⟨before, i, hbefore⟩ := List.eq_nil_or_concat' t.before
      · simp [hnil] at hlt
      · rw [hbefore, List.length_append] at hlt
        rw [hbefore, List.drop_append_of_le_length (Nat.le_of_lt_succ hlt), ← List.cons_append,
          ← List.append_assoc, List.getLastD_concat, List.getLastD_concat]
    · rfl
  refine ⟨insertAfter m l x ((t.items.take k).getLastD l), ?_, ⟨?_, ?_, ?_, fun y => ?_, h.marker⟩,
    ⟨fun y hyx hy => ?_, rfl, fun _ _ => rfl, fun l' hl' => ?_, rfl, rfl⟩⟩
  · simp only [List_t.vListInsert, h.search, Option.map_some, hk]
  · rw [hitems]
    exact circle_insertAfter hcircle hx
  · exact h.index.trans hindex.symm
  · have hcount := h.count
    have hlength := congrArg List.length (List.take_append_drop k t.items)
    simp only [insertAfter, Memory.setNumberOfItems, Memory.setNext, Memory.setPrevious,
      Memory.setContainer, Function.update_self, hcount, hitems, List.length_append,
      List.length_cons] at hlength ⊢
    omega
  · have hcontainer := h.container y
    rw [← List.take_append_drop k t.items] at hcontainer
    simp only [insertAfter, Memory.setNumberOfItems, Memory.setNext, Memory.setPrevious,
      Memory.setContainer, Function.update_apply, hitems, List.mem_append, List.mem_cons]
      at hcontainer ⊢
    split_ifs with hyx
    · simp [hyx]
    · rw [hcontainer]
      tauto
  · rw [← List.take_append_drop k t.items] at hy
    have hyl : y ≠ (t.items.take k).getLastD l ∧ y ≠ (t.items.drop k).headD l :=
      ⟨fun heq => hy (heq ▸ hneighbours.1), fun heq => hy (heq ▸ hneighbours.2)⟩
    simp only [insertAfter, Memory.setNumberOfItems, Memory.setNext, Memory.setPrevious,
      Memory.setContainer, Function.update_self, hnext, Function.update_of_ne hyx,
      Function.update_of_ne hyl.1, Function.update_of_ne hyl.2, and_self]
  · exact Function.update_of_ne hl' ..

/-- **`uxListRemove` is `remove`.** -/
theorem Represents.uxListRemove (h : Represents m l t) (hx : x ∈ t.items) :
    ∃ m', List_t.uxListRemove m x = some (m', (t.remove x).items.length)
      ∧ Represents m' l (t.remove x) ∧ Apart m m' l x t none := by
  obtain ⟨lo, hi, hitems⟩ := List.append_of_mem hx
  have hcircle := h.circle
  have hnodup := (List.nodup_cons.mp h.circle.nodup).2
  rw [hitems] at hcircle hnodup
  obtain ⟨hnext, hprev⟩ := hcircle.links
  have hxl : x ≠ l := fun heq => h.marker_notMem (heq ▸ hx)
  have hxlo : x ∉ lo := by grind -ring -linarith -order
  have hxhi : x ∉ hi := by grind -ring -linarith -order
  have hneighbours := neighbours_mem l lo hi
  have hlast : lo.getLastD l ≠ x := by
    have hmem : lo.getLastD l ∈ l :: lo := List.getLastD_mem_cons
    grind -ring -linarith -order
  have hhead : hi.headD l ≠ x := by
    cases hi <;> grind -ring -linarith -order
  have hremoved : (t.remove x).items = lo ++ hi := by
    rw [TaskList.items_remove x (List.nodup_cons.mp h.circle.nodup).2, hitems,
      List.erase_append_right _ hxlo, List.erase_cons_head]
  have hcontainer := (h.container x).mpr hx
  have hindex : (if m.pxIndex l = x then lo.getLastD l else m.pxIndex l)
      = (t.remove x).before.getLastD l := by
    rw [h.index, TaskList.remove]
    obtain hnil | ⟨before, i, hbefore⟩ := List.eq_nil_or_concat' t.before
    · rw [hnil, List.erase_nil, List.getLastD_nil, if_neg hxl.symm]
    · rw [hbefore, List.getLastD_concat]
      split_ifs with hix
      · have hlo : lo = before := by
          rw [TaskList.items, hbefore, hix, List.append_assoc, List.singleton_append] at hitems
          exact ((List.append_cons_inj_of_notMem hxlo hxhi).mp hitems.symm).1
        rw [hix, hlo, List.erase_append_right _ (hlo ▸ hxlo), List.erase_cons_head,
          List.append_nil]
      · by_cases hmem : x ∈ before
        · rw [List.erase_append_left _ hmem, List.getLastD_concat]
        · rw [List.erase_append_right _ hmem, List.erase_cons_tail (by simpa using hix),
            List.erase_nil, List.getLastD_concat]
  have hlength : m.uxNumberOfItems l - 1 = (t.remove x).items.length := by
    rw [h.count, hitems, hremoved]
    simp only [List.length_append, List.length_cons]
    omega
  refine ⟨{ m with
      pxNext := Function.update m.pxNext (lo.getLastD l) (hi.headD l)
      pxPrevious := Function.update m.pxPrevious (hi.headD l) (lo.getLastD l)
      pxContainer := Function.update m.pxContainer x none
      uxNumberOfItems := Function.update m.uxNumberOfItems l (m.uxNumberOfItems l - 1)
      pxIndex := Function.update m.pxIndex l
        (if m.pxIndex l = x then lo.getLastD l else m.pxIndex l) }, ?_,
    ⟨?_, ?_, ?_, fun y => ?_, h.marker⟩,
    ⟨fun y _ hy => ?_, rfl, fun l' hl' => ?_, fun l' hl' => ?_, rfl, rfl⟩⟩
  · have hprevx : Function.update m.pxPrevious (hi.headD l) (lo.getLastD l) x = lo.getLastD l := by
      rw [Function.update_of_ne hhead.symm, hprev]
    rw [List_t.uxListRemove, hcontainer, Option.map_some, ← hlength]
    simp only [Memory.setPrevious, Memory.setNext, hnext, hprev, hprevx, Memory.setContainer,
      Memory.setNumberOfItems, Memory.setIndex]
    split_ifs
    · simp only [Function.update_self]
    · simp only [Function.update_self, Function.update_eq_self]
  · rw [hremoved]
    exact hcircle.remove
  · exact (Function.update_self ..).trans hindex
  · exact (Function.update_self ..).trans hlength
  · have hmem := h.container y
    simp only [Function.update_apply, hremoved]
    split_ifs with hyx
    · rw [hyx]
      exact iff_of_false (by simp) (by simp [hxlo, hxhi])
    · rw [hmem, hitems, List.mem_append, List.mem_append, List.mem_cons]
      tauto
  · rw [hitems] at hy
    have hsub : ∀ z ∈ l :: (lo ++ hi), z ∈ l :: (lo ++ x :: hi) := by
      grind -ring -linarith -order
    have hyl : y ≠ lo.getLastD l ∧ y ≠ hi.headD l :=
      ⟨fun heq => hy (heq ▸ hsub _ hneighbours.1), fun heq => hy (heq ▸ hsub _ hneighbours.2)⟩
    exact ⟨Function.update_of_ne hyl.1 .., Function.update_of_ne hyl.2 ..⟩
  · exact Function.update_of_ne hl' ..
  · exact Function.update_of_ne hl' ..

/-- **`listGET_OWNER_OF_NEXT_ENTRY` is `next`**, and gives the owner of what is chosen. -/
theorem Represents.ownerOfNext (h : Represents m l t) (hne : t.items ≠ []) :
    Represents (getOwnerOfNextEntry m l).1 l t.next
      ∧ (getOwnerOfNextEntry m l).2 = m.pvOwner (t.next.before.getLastD l)
      ∧ (getOwnerOfNextEntry m l).1 = m.setIndex l (t.next.before.getLastD l) := by
  have hmem : (getOwnerOfNextEntry m l).1 = m.setIndex l (t.next.before.getLastD l) := by
    have hcircle := h.circle
    have hindex := h.index
    have hmarker := h.marker_notMem
    obtain ⟨before, after⟩ := t
    rw [TaskList.items] at hcircle hne hmarker
    have hnext : m.pxNext (m.pxIndex l) = after.headD l := hindex ▸ hcircle.joined.1
    cases after with
    | cons a after =>
      have hal : a ≠ l := by grind -ring -linarith -order
      simp only [getOwnerOfNextEntry, Memory.setIndex, TaskList.next, hnext,
        List.headD_cons, Function.update_self, if_neg hal, List.getLastD_concat]
    | nil =>
      cases before with
      | nil => exact absurd rfl hne
      | cons b before =>
        have hfirst : m.pxNext l = b := hcircle.path.first
        simp only [getOwnerOfNextEntry, Memory.setIndex, TaskList.next, hnext,
          List.headD_nil, Function.update_self, if_true, hfirst, Function.update_idem]
        rfl
  refine ⟨?_, ?_, hmem⟩
  · have hitems := t.items_next
    rw [hmem]
    exact ⟨hitems.symm ▸ h.circle, Function.update_self .., hitems.symm ▸ h.count,
      fun x => hitems.symm ▸ h.container x, h.marker⟩
  · rw [← show (getOwnerOfNextEntry m l).1.pxIndex l = t.next.before.getLastD l by
      rw [hmem]; exact Function.update_self ..]
    simp only [getOwnerOfNextEntry]
    split_ifs <;> rfl

end One

/-! ## All lists -/

/-- **The memory holds the lists.** -/
structure Holds (lists : List P) (m : Memory P) (s : TaskLists P) : Prop where
  represents : ∀ l ∈ lists, Represents m l (s.list l)
  value : m.xItemValue = s.value
  container : m.pxContainer = s.container
  known : ∀ x c, m.pxContainer x = some c → c ∈ lists
  markers : ∀ l ∈ lists, m.pxContainer l = none

section All

variable {lists : List P} {m m' : Memory P} {s : TaskLists P} {l x : P} {t : TaskList P}
  {c : Option P}

theorem Holds.count_ne_zero (h : Holds lists m s) (hl : l ∈ lists) :
    m.uxNumberOfItems l ≠ 0 ↔ (s.list l).items ≠ [] := by
  rw [(h.represents l hl).count, ne_eq, List.length_eq_zero_iff]

/-- An item of a list is not a marker. -/
theorem Holds.notMem_lists (h : Holds lists m s) {c : P} (hx : m.pxContainer x = some c) :
    x ∉ lists := fun hmem => absurd ((h.markers x hmem).symm.trans hx) (by simp)

/-- What is on no list is neither the marker nor an item of one. -/
theorem Holds.fresh (h : Holds lists m s) (hl : l ∈ lists) (hx : x ∉ lists)
    (hfree : m.pxContainer x = none) : x ∉ l :: (s.list l).items := by
  rw [List.mem_cons]
  rintro (rfl | hmem)
  · exact hx hl
  · exact absurd (hfree.symm.trans (((h.represents l hl).container x).mpr hmem)) (by simp)

variable [DecidableEq P]

/-- **What is done to one list leaves the others.** -/
theorem Holds.set (h : Holds lists m s) (hl : l ∈ lists) (hx : x ∉ lists)
    (hown : m.pxContainer x = some l ∨ m.pxContainer x = none) (ht : Represents m' l t)
    (happ : Apart m m' l x (s.list l) c) (hc : c = some l ∨ c = none) :
    Holds lists m' (s.set l t x c) := by
  have hself : m'.pxContainer x = c := by rw [happ.container, Function.update_self]
  have hother : ∀ y ≠ x, m'.pxContainer y = m.pxContainer y := fun y hy => by
    rw [happ.container, Function.update_of_ne hy]
  refine ⟨fun l' hl' => ?_, happ.xItemValue.trans h.value, ?_, fun y c' hy => ?_,
    fun l' hl' => ?_⟩
  · obtain rfl | hne := eq_or_ne l' l
    · rw [TaskLists.set_list_self]
      exact ht
    rw [TaskLists.set_list_of_ne hne]
    have hrep := h.represents l' hl'
    refine hrep.congr (fun y hy => happ.links y ?_ ?_) (happ.index l' hne) (happ.count l' hne)
      (fun y => ?_) (congrFun happ.xItemValue l')
    · rintro rfl
      obtain rfl | hy := List.mem_cons.mp hy
      · exact hx hl'
      · have := (hrep.container y).mpr hy
        obtain hown | hown := hown
        · exact hne (Option.some.inj (this.symm.trans hown))
        · exact absurd (this.symm.trans hown) (by simp)
    · intro hmem
      obtain rfl | hy := List.mem_cons.mp hy
      · obtain heq | hmem := List.mem_cons.mp hmem
        · exact hne heq
        · exact absurd ((h.markers y hl').symm.trans (((h.represents l hl).container y).mpr hmem))
            (by simp)
      · have hy' := (hrep.container y).mpr hy
        obtain rfl | hmem := List.mem_cons.mp hmem
        · exact absurd ((h.markers y hl).symm.trans hy') (by simp)
        · exact hne (Option.some.inj (hy'.symm.trans
            (((h.represents l hl).container y).mpr hmem)))
    · obtain rfl | hyx := eq_or_ne y x
      · have hne' : some l ≠ some l' := fun heq => hne (Option.some.inj heq).symm
        rw [hself]
        obtain hown | hown := hown <;> obtain rfl | rfl := hc <;> simp [hown, Ne.symm hne]
      · rw [hother y hyx]
  · rw [TaskLists.set_container, happ.container, h.container]
  · obtain rfl | hyx := eq_or_ne y x
    · rw [hself] at hy
      obtain rfl | rfl := hc
      · exact Option.some.inj hy ▸ hl
      · exact absurd hy (by simp)
    · rw [hother y hyx] at hy
      exact h.known y c' hy
  · rw [hother l' fun heq => hx (heq ▸ hl')]
    exact h.markers l' hl'

/-- **A call does to the memory what it does to the lists.** -/
theorem step_holds (h : Holds lists m s) (a : Action P) :
    Holds lists (step lists m a).1 (s.step lists m.pvOwner a).1
      ∧ (step lists m a).2 = (s.step lists m.pvOwner a).2
      ∧ (step lists m a).1.pvOwner = m.pvOwner := by
  cases a with
  | setItemValue x v =>
    refine ⟨?_, rfl, by rw [step]; split_ifs <;> rfl⟩
    rw [step, TaskLists.step]
    by_cases hx : x ∈ lists
    · rw [if_neg (not_not_intro hx), if_neg (not_not_intro hx)]
      exact h
    · rw [if_pos hx, if_pos hx]
      refine ⟨fun l hl => ?_, ?_, h.container, h.known, h.markers⟩
      · have hlx : l ≠ x := fun heq => hx (heq ▸ hl)
        exact (h.represents l hl).congr (fun _ _ => ⟨rfl, rfl⟩) rfl rfl (fun _ => Iff.rfl)
          (Function.update_of_ne hlx ..)
      · rw [TaskLists.setItemValue, ← h.value]
        rfl
  | insertEnd l x =>
    rw [step, TaskLists.step, ← h.container]
    by_cases hcall : l ∈ lists ∧ x ∉ lists ∧ m.pxContainer x = none
    · obtain ⟨hl, hx, hfree⟩ := hcall
      obtain ⟨hrep, happ⟩ := (h.represents l hl).vListInsertEnd (h.fresh hl hx hfree)
      rw [if_pos ⟨hl, hx, hfree⟩, if_pos ⟨hl, hx, hfree⟩]
      exact ⟨h.set hl hx (.inr hfree) hrep happ (.inl rfl), rfl, happ.pvOwner⟩
    · rw [if_neg hcall, if_neg hcall]
      exact ⟨h, rfl, rfl⟩
  | insert l x =>
    rw [step, TaskLists.step, ← h.container]
    by_cases hcall : l ∈ lists ∧ x ∉ lists ∧ m.pxContainer x = none
    · obtain ⟨hl, hx, hfree⟩ := hcall
      obtain ⟨m', hinsert, hrep, happ⟩ :=
        (h.represents l hl).vListInsert (h.fresh hl hx hfree)
      rw [h.value] at hrep
      rw [if_pos ⟨hl, hx, hfree⟩, if_pos ⟨hl, hx, hfree⟩, hinsert]
      exact ⟨h.set hl hx (.inr hfree) hrep happ (.inl rfl), rfl, happ.pvOwner⟩
    · rw [if_neg hcall, if_neg hcall]
      exact ⟨h, rfl, rfl⟩
  | remove x =>
    simp only [step, TaskLists.step, TaskLists.remove, ← h.container]
    cases hcontainer : m.pxContainer x with
    | none =>
      rw [uxListRemove, hcontainer]
      exact ⟨h, rfl, rfl⟩
    | some l =>
      have hl := h.known x l hcontainer
      obtain ⟨m', hremove, hrep, happ⟩ :=
        (h.represents l hl).uxListRemove (((h.represents l hl).container x).mp hcontainer)
      rw [hremove]
      exact ⟨h.set hl (h.notMem_lists hcontainer) (.inl hcontainer) hrep happ (.inr rfl), rfl,
        happ.pvOwner⟩
  | head l =>
    simp only [step, TaskLists.step]
    by_cases hcall : l ∈ lists ∧ (s.list l).items ≠ []
    · obtain ⟨hl, hne⟩ := hcall
      have hfirst : m.pxNext l = (s.list l).items.headD l :=
        (h.represents l hl).circle.path.first
      rw [if_pos ⟨hl, (h.count_ne_zero hl).mpr hne⟩, if_pos ⟨hl, hne⟩, getOwnerOfHeadEntry,
        hfirst]
      exact ⟨h, rfl, rfl⟩
    · rw [if_neg hcall, if_neg fun hcall' =>
        hcall ⟨hcall'.1, (h.count_ne_zero hcall'.1).mp hcall'.2⟩]
      exact ⟨h, rfl, rfl⟩
  | next l =>
    simp only [step, TaskLists.step]
    by_cases hcall : l ∈ lists ∧ (s.list l).items ≠ []
    · obtain ⟨hl, hne⟩ := hcall
      obtain ⟨hrep, howner, hmem⟩ := (h.represents l hl).ownerOfNext hne
      rw [if_pos ⟨hl, (h.count_ne_zero hl).mpr hne⟩, if_pos ⟨hl, hne⟩]
      refine ⟨⟨fun l' hl' => ?_, ?_, ?_, ?_, ?_⟩, by rw [howner], by rw [hmem]; rfl⟩
      · obtain rfl | hne' := eq_or_ne l' l
        · rw [TaskLists.next_list_self]
          exact hrep
        · rw [TaskLists.next_list_of_ne hne', hmem]
          exact (h.represents l' hl').congr (fun _ _ => ⟨rfl, rfl⟩)
            (Function.update_of_ne hne' ..) rfl (fun _ => Iff.rfl) rfl
      · rw [hmem]
        exact h.value
      · rw [hmem]
        exact h.container
      · rw [hmem]
        exact h.known
      · rw [hmem]
        exact h.markers
    · rw [if_neg hcall, if_neg fun hcall' =>
        hcall ⟨hcall'.1, (h.count_ne_zero hcall'.1).mp hcall'.2⟩]
      exact ⟨h, rfl, rfl⟩

/-! ### The start -/

/-- A list that was initialised is empty, and a list that was empty still is. -/
theorem Represents.vListInitialise {l' : P} (hfree : ∀ x, m.pxContainer x = none)
    (hl : l' = l ∨ Represents m l' .empty) :
    Represents (List_t.vListInitialise m l) l' .empty := by
  obtain rfl | hne := eq_or_ne l' l
  · exact ⟨.nil (Function.update_self ..) (Function.update_self ..), Function.update_self ..,
      Function.update_self .., fun x => by
        rw [show (List_t.vListInitialise m l').pxContainer x = none from hfree x]
        simp [TaskList.empty, TaskList.items], Function.update_self ..⟩
  · refine (hl.resolve_left hne).congr (fun y hy => ?_) (Function.update_of_ne hne ..)
      (Function.update_of_ne hne ..) (fun _ => Iff.rfl) (Function.update_of_ne hne ..)
    obtain rfl : y = l' := by simpa [TaskList.empty, TaskList.items] using hy
    exact ⟨Function.update_of_ne hne .., Function.update_of_ne hne ..⟩

theorem represents_foldl (lists : List P) (hfree : ∀ x, m.pxContainer x = none) :
    (lists.foldl List_t.vListInitialise m).pxContainer = m.pxContainer
      ∧ (lists.foldl List_t.vListInitialise m).pvOwner = m.pvOwner
      ∧ ∀ l, l ∈ lists ∨ Represents m l .empty →
        Represents (lists.foldl List_t.vListInitialise m) l .empty := by
  induction lists generalizing m with
  | nil => exact ⟨rfl, rfl, fun l hl => hl.resolve_left List.not_mem_nil⟩
  | cons l₀ lists ih =>
    obtain ⟨hcontainer, howner, hempty⟩ := ih (m := List_t.vListInitialise m l₀) hfree
    refine ⟨hcontainer, howner, fun l hl => hempty l ?_⟩
    rw [List.mem_cons, or_assoc] at hl
    obtain hl | hl | hl := hl
    · exact .inr (.vListInitialise hfree (.inl hl))
    · exact .inl hl
    · exact .inr (.vListInitialise hfree (.inr hl))

theorem initial_holds (lists : List P) (m : Memory P) :
    Holds lists (initial lists m) (TaskLists.initial (initial lists m).xItemValue)
      ∧ (initial lists m).pvOwner = m.pvOwner := by
  have hfree : ∀ x, (vListInitialiseItem m x).pxContainer x = none :=
    fun x => Function.update_self ..
  obtain ⟨hcontainer, howner, hempty⟩ := represents_foldl lists
    (m := { m with pxContainer := fun x => (vListInitialiseItem m x).pxContainer x }) hfree
  have hnone : ∀ x, (initial lists m).pxContainer x = none :=
    fun x => (congrFun hcontainer x).trans (hfree x)
  refine ⟨⟨fun l hl => hempty l (.inl hl), rfl, funext hnone, fun x c hx => ?_,
    fun l _ => hnone l⟩, howner⟩
  exact absurd ((hnone x).symm.trans hx) (by simp)

end All

/-- A run over the memory is a run over the lists that it holds. -/
theorem run_holds [DecidableEq P] {lists : List P} {m : Memory P} {s : TaskLists P}
    (h : Holds lists m s) (actions : List (Action P)) :
    (Holds lists (run (step lists) m actions).1
        (run (TaskLists.step lists m.pvOwner) s actions).1
      ∧ (run (step lists) m actions).1.pvOwner = m.pvOwner)
      ∧ (run (step lists) m actions).2 = (run (TaskLists.step lists m.pvOwner) s actions).2 :=
  run_simulation (fun (m' : Memory P) s => Holds lists m' s ∧ m'.pvOwner = m.pvOwner)
    (fun m' s a h => by
      obtain ⟨hholds, hout, howner⟩ := step_holds h.1 a
      rw [h.2] at hholds hout howner
      exact ⟨⟨hholds, howner⟩, hout⟩) ⟨h, rfl⟩ actions

/-- **The links of `list.c` are the lists.**  Whatever is done to any number of lists, each call
hands out what it would on lists without links, no loop runs on, and the memory holds those
lists. -/
theorem list_refines [DecidableEq P] (lists : List P) (m : Memory P)
    (actions : List (Action P)) :
    let memory := run (step lists) (initial lists m) actions
    let list := run (TaskLists.step lists m.pvOwner)
      (TaskLists.initial (initial lists m).xItemValue) actions
    memory.2 = list.2 ∧ Holds lists memory.1 list.1 := by
  obtain ⟨hinit, howner⟩ := initial_holds lists m
  obtain ⟨⟨hholds, -⟩, houts⟩ := run_holds hinit actions
  rw [howner] at hholds houts
  exact ⟨houts, hholds⟩

end List_t

end EmbeddedMCU

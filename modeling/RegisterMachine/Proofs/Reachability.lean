-- What a marking pass computes. Reachability is said without the walk: a live
-- allocation leads to the live allocations whose handles it holds in the slots
-- that its trace mode selects. A pass marks exactly what its roots reach, and
-- changes nothing but marks.
import RegisterMachine.Proofs.ArenaSound

namespace RegisterMachine

/-! ## Reachability -/

/-- The array holds `child` in a written slot below its limit that its mode selects. -/
def Allocation.Leads (alloc : Allocation) (child : Handle) : Prop :=
  ∃ i < alloc.limit, alloc.written[i]? = some true ∧ alloc.values[i]? = some (.handle child) ∧
    (alloc.mode = .always ∨ alloc.mode = .flagged ∧ alloc.flagged[i]? = some true)

theorem Value.handle?_eq_some {value : Value} {handle : Handle} :
    value.handle? = some handle ↔ value = .handle handle := by
  cases value <;> simp [handle?]

theorem Allocation.follows_iff {alloc : Allocation} {i : Nat} (hi : i < alloc.limit) :
    alloc.follows i = true ↔ alloc.written[i]? = some true ∧
      (alloc.mode = .always ∨ alloc.mode = .flagged ∧ alloc.flagged[i]? = some true) := by
  have hGetD : ∀ flag : Option Bool, flag.getD false = true ↔ flag = some true := by
    intro flag
    rcases flag with _ | _ | _ <;> simp
  unfold follows isWritten isFlagged
  rw [Bool.and_eq_true, decide_eq_true hi, Bool.true_and, Bool.true_and, hGetD]
  cases alloc.mode <;> simp [hGetD]

theorem Allocation.mem_children {alloc : Allocation} {child : Handle} :
    child ∈ alloc.children ↔ alloc.Leads child := by
  unfold children Leads
  simp only [List.mem_filterMap, List.mem_filter, List.mem_range, Option.bind_eq_some_iff,
    Value.handle?_eq_some]
  constructor
  · rintro ⟨i, ⟨hi, hFollows⟩, value, hValue, rfl⟩
    obtain ⟨hWritten, hMode⟩ := (follows_iff hi).1 hFollows
    exact ⟨i, hi, hWritten, hValue, hMode⟩
  · rintro ⟨i, hi, hWritten, hValue, hMode⟩
    exact ⟨i, ⟨hi, (follows_iff hi).2 ⟨hWritten, hMode⟩⟩, .handle child, hValue, rfl⟩

theorem Allocation.leads_setMark {alloc : Allocation} {mark : UInt32} {child : Handle} :
    (alloc.setMark mark).Leads child ↔ alloc.Leads child := Iff.rfl

namespace Arena

/-- The live allocations that can be reached from `roots` through live allocations. -/
inductive Reaches (heap : Arena) (roots : List Handle) : Handle → Prop
  | root {handle : Handle} :
      handle ∈ roots → heap.contains handle = true → Reaches heap roots handle
  | step {handle child : Handle} {alloc : Allocation} :
      Reaches heap roots handle → heap.get? handle = some alloc → alloc.Leads child →
      heap.contains child = true → Reaches heap roots child

theorem Reaches.live {heap : Arena} {roots : List Handle} {handle : Handle}
    (h : heap.Reaches roots handle) : heap.contains handle = true := by
  cases h with
  | root _ hLive => exact hLive
  | step _ _ _ hLive => exact hLive

/-- Roots that are reached themselves reach nothing more. -/
theorem Reaches.of_roots {heap : Arena} {roots more : List Handle} {handle : Handle}
    (h : heap.Reaches more handle)
    (hRoots : ∀ root ∈ more, heap.contains root = true → heap.Reaches roots root) :
    heap.Reaches roots handle := by
  induction h with
  | root hMem hLive => exact hRoots _ hMem hLive
  | step _ hGet hLeads hLive ih => exact .step ih hGet hLeads hLive

/-! ## What marking leaves alone -/

/-- The arena without what marking passes leave in it. -/
def contents (heap : Arena) : Arena := { heap.eraseMarks with epoch := 0 }

theorem get?_contents (heap : Arena) (handle : Handle) :
    heap.contents.get? handle = (heap.get? handle).map (·.setMark 0) := by
  unfold contents eraseMarks get?
  simp only [Array.getElem?_map]
  rcases heap.slots[handle.index.toNat]? with _ | ⟨generation, content⟩
  · rfl
  · by_cases h : generation = handle.generation <;> simp [h]

theorem stateAt_contents (heap : Arena) (i : Nat) : heap.contents.stateAt i = heap.stateAt i := by
  unfold contents eraseMarks stateAt
  simp only [Array.getElem?_map, Option.map_map]
  rcases heap.slots[i]? with _ | slot
  · rfl
  · simp [Slot.state]

theorem stateAt_of_contents {heap heap' : Arena} (h : heap'.contents = heap.contents) (i : Nat) :
    heap'.stateAt i = heap.stateAt i := by
  rw [← stateAt_contents heap', h, stateAt_contents]

theorem contains_of_contents {heap heap' : Arena} (h : heap'.contents = heap.contents)
    (handle : Handle) : heap'.contains handle = heap.contains handle :=
  contains_congr (stateAt_of_contents h) handle

theorem pool_of_contents {heap heap' : Arena} (h : heap'.contents = heap.contents) :
    heap'.pool = heap.pool := by
  have hFields := congrArg (fun heap : Arena => heap.pool) h
  exact hFields

/-- Arenas with the same contents hold the same allocations, up to their marks. -/
theorem get?_of_contents {heap heap' : Arena} (h : heap'.contents = heap.contents)
    {handle : Handle} {alloc : Allocation} (hGet : heap.get? handle = some alloc) :
    ∃ mark, heap'.get? handle = some (alloc.setMark mark) := by
  have hMap := get?_contents heap' handle
  rw [h, get?_contents, hGet, Option.map_some] at hMap
  obtain ⟨alloc', hGet', hEq⟩ := Option.map_eq_some_iff.1 hMap.symm
  refine ⟨alloc'.mark, ?_⟩
  have hSame : alloc' = alloc.setMark alloc'.mark := by
    have hMark := congrArg (·.setMark alloc'.mark) hEq
    exact hMark
  rw [hGet', ← hSame]

theorem Reaches.of_contents {heap heap' : Arena} (h : heap'.contents = heap.contents)
    {roots : List Handle} {handle : Handle} (hReach : heap.Reaches roots handle) :
    heap'.Reaches roots handle := by
  induction hReach with
  | root hMem hLive => exact .root hMem (by rw [contains_of_contents h, hLive])
  | step _ hGet hLeads hLive ih =>
    obtain ⟨mark, hGet'⟩ := get?_of_contents h hGet
    exact .step ih hGet' hLeads (by rw [contains_of_contents h, hLive])

theorem contents_modify_setMark (heap : Arena) (handle : Handle) (mark : UInt32) :
    (heap.modify handle (·.setMark mark)).contents = heap.contents := by
  have hSlots : (heap.modify handle (·.setMark mark)).contents.slots = heap.contents.slots := by
    unfold contents eraseMarks modify
    apply Array.ext_getElem?
    intro i
    simp only [Array.getElem?_map, Array.getElem?_modify]
    split
    · rcases heap.slots[i]? with _ | ⟨generation, content⟩
      · rfl
      · rcases content with _ | alloc <;> by_cases h : generation = handle.generation <;>
          simp [h, Allocation.setMark]
    · rfl
  unfold contents eraseMarks modify at hSlots ⊢
  simp only at hSlots ⊢
  rw [hSlots]

theorem contents_eraseMarks (heap : Arena) (epoch : UInt32) :
    contents { heap.eraseMarks with epoch } = heap.contents := by
  unfold contents eraseMarks
  simp [Function.comp_def, Allocation.setMark]

theorem contents_nextEpoch (heap : Arena) : heap.nextEpoch.2.contents = heap.contents := by
  unfold nextEpoch
  simp only
  split
  · exact contents_eraseMarks heap 1
  · rfl

theorem contents_markFrom (epoch : UInt32) (work : List Handle) (visited : Array Handle)
    (heap : Arena) : (heap.markFrom epoch work visited).1.contents = heap.contents := by
  fun_induction markFrom epoch work visited heap with
  | case1 => rfl
  | case2 visited heap handle rest hGet ih => exact ih
  | case3 visited heap handle rest alloc hGet hMark ih => exact ih
  | case4 visited heap handle rest alloc hGet hMark work ih =>
    rw [ih, contents_modify_setMark]

theorem contents_mark (heap : Arena) (roots : List Handle) :
    (heap.mark roots).2.2.contents = heap.contents := by
  unfold mark
  simp only
  rw [contents_markFrom, contents_nextEpoch]

/-! ## The walk marks what it reaches -/

theorem isMarked_iff {heap : Arena} {handle : Handle} {epoch : UInt32} :
    heap.isMarked handle epoch = true ↔
      ∃ alloc, heap.get? handle = some alloc ∧ alloc.mark = epoch := by
  unfold isMarked
  rw [Option.any_eq_true]
  simp

theorem contains_of_isMarked {heap : Arena} {handle : Handle} {epoch : UInt32}
    (h : heap.isMarked handle epoch = true) : heap.contains handle = true := by
  obtain ⟨alloc, hGet, _⟩ := isMarked_iff.1 h
  exact contains_eq_true.2 ⟨alloc, hGet⟩

theorem isMarked_setMark {heap : Arena} {handle other : Handle} {alloc : Allocation}
    {epoch : UInt32} (hGet : heap.get? handle = some alloc) :
    (heap.modify handle (·.setMark epoch)).isMarked other epoch = true ↔
      other = handle ∨ heap.isMarked other epoch = true := by
  unfold isMarked
  rw [get?_modify]
  by_cases hOther : other = handle <;> simp [hOther, hGet, Allocation.setMark]

theorem isMarked_markFrom_of_isMarked {epoch : UInt32} {work : List Handle}
    {visited : Array Handle} {heap : Arena} {handle : Handle}
    (h : heap.isMarked handle epoch = true) :
    (heap.markFrom epoch work visited).1.isMarked handle epoch = true := by
  fun_induction markFrom epoch work visited heap with
  | case1 => exact h
  | case2 visited heap next rest hGet ih => exact ih h
  | case3 visited heap next rest alloc hGet hMark ih => exact ih h
  | case4 visited heap next rest alloc hGet hMark work ih =>
    exact ih ((isMarked_setMark hGet).2 (Or.inr h))

/-- The walk marks nothing that its worklist does not reach. -/
theorem reaches_of_isMarked_markFrom {epoch : UInt32} {work : List Handle}
    {visited : Array Handle} {heap : Arena} {handle : Handle}
    (h : (heap.markFrom epoch work visited).1.isMarked handle epoch = true) :
    heap.isMarked handle epoch = true ∨ heap.Reaches work handle := by
  fun_induction markFrom epoch work visited heap with
  | case1 => exact Or.inl h
  | case2 visited heap next rest hGet ih =>
    rcases ih h with hOld | hReach
    · exact Or.inl hOld
    · refine Or.inr (hReach.of_roots fun root hRoot hLive => ?_)
      exact .root (List.mem_cons_of_mem next hRoot) hLive
  | case3 visited heap next rest alloc hGet hMark ih =>
    rcases ih h with hOld | hReach
    · exact Or.inl hOld
    · refine Or.inr (hReach.of_roots fun root hRoot hLive => ?_)
      exact .root (List.mem_cons_of_mem next hRoot) hLive
  | case4 visited heap next rest alloc hGet hMark work ih =>
    have hNext : heap.Reaches (next :: rest) next :=
      .root (List.mem_cons_self ..) (contains_eq_true.2 ⟨alloc, hGet⟩)
    rcases ih h with hOld | hReach
    · rcases (isMarked_setMark hGet).1 hOld with rfl | hOld
      · exact Or.inr hNext
      · exact Or.inl hOld
    · have hSame := contents_modify_setMark heap next epoch
      refine Or.inr ((hReach.of_contents hSame.symm).of_roots fun root hRoot hLive => ?_)
      rcases List.mem_append.1 hRoot with hChild | hRest
      · rw [List.mem_reverse, Allocation.mem_children] at hChild
        exact .step hNext hGet hChild hLive
      · exact .root (List.mem_cons_of_mem next hRest) hLive

/-- Whatever a marked allocation leads to is marked, or waits in the worklist. -/
def Closed (heap : Arena) (epoch : UInt32) (work : List Handle) : Prop :=
  ∀ handle alloc child, heap.get? handle = some alloc → alloc.mark = epoch →
    alloc.Leads child → heap.contains child = true →
    heap.isMarked child epoch = true ∨ child ∈ work

/-- The walk visits its whole worklist. -/
theorem isMarked_markFrom_of_mem {epoch : UInt32} {work : List Handle}
    {visited : Array Handle} {heap : Arena} {handle : Handle} (hMem : handle ∈ work)
    (hLive : heap.contains handle = true) :
    (heap.markFrom epoch work visited).1.isMarked handle epoch = true := by
  fun_induction markFrom epoch work visited heap with
  | case1 => cases hMem
  | case2 visited heap next rest hGet ih =>
    rcases List.mem_cons.1 hMem with rfl | hRest
    · rw [contains_eq_false.2 hGet] at hLive
      cases hLive
    · exact ih hRest hLive
  | case3 visited heap next rest alloc hGet hMark ih =>
    rcases List.mem_cons.1 hMem with rfl | hRest
    · exact isMarked_markFrom_of_isMarked (isMarked_iff.2 ⟨alloc, hGet, hMark⟩)
    · exact ih hRest hLive
  | case4 visited heap next rest alloc hGet hMark work ih =>
    rcases List.mem_cons.1 hMem with rfl | hRest
    · exact isMarked_markFrom_of_isMarked ((isMarked_setMark hGet).2 (Or.inl rfl))
    · exact ih (List.mem_append_right _ hRest) (by rw [contains_modify, hLive])

theorem closed_markFrom {epoch : UInt32} {work : List Handle} {visited : Array Handle}
    {heap : Arena} (h : heap.Closed epoch work) :
    (heap.markFrom epoch work visited).1.Closed epoch [] := by
  fun_induction markFrom epoch work visited heap with
  | case1 => exact h
  | case2 visited heap next rest hGet ih =>
    apply ih
    intro handle alloc child hHandle hMark hLeads hLive
    rcases h handle alloc child hHandle hMark hLeads hLive with hChild | hChild
    · exact Or.inl hChild
    · rcases List.mem_cons.1 hChild with rfl | hRest
      · rw [contains_eq_false.2 hGet] at hLive
        cases hLive
      · exact Or.inr hRest
  | case3 visited heap next rest found hGet hFound ih =>
    apply ih
    intro handle alloc child hHandle hMark hLeads hLive
    rcases h handle alloc child hHandle hMark hLeads hLive with hChild | hChild
    · exact Or.inl hChild
    · rcases List.mem_cons.1 hChild with rfl | hRest
      · exact Or.inl (isMarked_iff.2 ⟨found, hGet, hFound⟩)
      · exact Or.inr hRest
  | case4 visited heap next rest found hGet hFound work ih =>
    apply ih
    intro handle alloc child hHandle hMark hLeads hLive
    rw [contains_modify] at hLive
    rw [isMarked_setMark hGet]
    by_cases hNext : handle = next
    · -- What the newly marked allocation leads to was put on the worklist.
      subst hNext
      rw [get?_modify_self, hGet, Option.map_some, Option.some.injEq] at hHandle
      subst hHandle
      rw [Allocation.leads_setMark, ← Allocation.mem_children] at hLeads
      exact Or.inr (List.mem_append_left _ (List.mem_reverse.2 hLeads))
    · rw [get?_modify_of_ne hNext] at hHandle
      rcases h handle alloc child hHandle hMark hLeads hLive with hChild | hChild
      · exact Or.inl (Or.inr hChild)
      · rcases List.mem_cons.1 hChild with rfl | hRest
        · exact Or.inl (Or.inl rfl)
        · exact Or.inr (List.mem_append_right _ hRest)

/-- A walk in which nothing was marked before marks exactly what it reaches. -/
theorem isMarked_markFrom {epoch : UInt32} {work : List Handle} {visited : Array Handle}
    {heap : Arena} (hNone : ∀ handle, heap.isMarked handle epoch = false) {handle : Handle} :
    (heap.markFrom epoch work visited).1.isMarked handle epoch = true ↔
      heap.Reaches work handle := by
  constructor
  · intro h
    rcases reaches_of_isMarked_markFrom h with hOld | hReach
    · rw [hNone] at hOld
      cases hOld
    · exact hReach
  · intro h
    have hClosed : (heap.markFrom epoch work visited).1.Closed epoch [] := by
      apply closed_markFrom
      intro handle alloc child hGet hMark
      have hMarked := isMarked_iff.2 ⟨alloc, hGet, hMark⟩
      rw [hNone] at hMarked
      cases hMarked
    have hSame := contents_markFrom epoch work visited heap
    induction h with
    | root hMem hLive => exact isMarked_markFrom_of_mem hMem hLive
    | step hReach hGet hLeads hLive ih =>
      obtain ⟨alloc, hGet', hMark⟩ := isMarked_iff.1 ih
      obtain ⟨mark, hMarked⟩ := get?_of_contents hSame hGet
      rw [hMarked, Option.some.injEq] at hGet'
      subst hGet'
      rw [← contains_of_contents hSame] at hLive
      rcases hClosed _ _ _ hMarked hMark hLeads hLive with hChild | hChild
      · exact hChild
      · cases hChild

/-- The walk lists what it has newly marked. -/
theorem mem_markFrom {epoch : UInt32} {work : List Handle} {visited : Array Handle}
    {heap : Arena} {handle : Handle} :
    handle ∈ (heap.markFrom epoch work visited).2 ↔
      handle ∈ visited ∨
        (heap.markFrom epoch work visited).1.isMarked handle epoch = true ∧
          heap.isMarked handle epoch = false := by
  fun_induction markFrom epoch work visited heap with
  | case1 => simp
  | case2 visited heap next rest hGet ih => exact ih
  | case3 visited heap next rest alloc hGet hMark ih => exact ih
  | case4 visited heap next rest alloc hGet hMark work ih =>
    rw [ih, Array.mem_push]
    have hFresh : heap.isMarked next epoch = false := by
      unfold isMarked
      simp [hGet, hMark]
    have hMarked : ((heap.modify next (·.setMark epoch)).markFrom epoch work
        (visited.push next)).1.isMarked next epoch = true :=
      isMarked_markFrom_of_isMarked ((isMarked_setMark hGet).2 (Or.inl rfl))
    have hStep : (heap.modify next (·.setMark epoch)).isMarked handle epoch = true ↔
        handle = next ∨ heap.isMarked handle epoch = true := isMarked_setMark hGet
    by_cases hNext : handle = next
    · subst hNext
      simp [hFresh, hMarked]
    · simp only [hNext, or_false, false_or] at hStep ⊢
      rw [Bool.eq_iff_iff.2 hStep]

/-! ## A pass -/

theorem epoch_nextEpoch (heap : Arena) : heap.nextEpoch.2.epoch = heap.nextEpoch.1 := by
  unfold nextEpoch
  simp only
  split <;> rfl

/-- The number of a new pass is higher than every mark. -/
theorem mark_lt_nextEpoch {heap : Arena} (hs : heap.Sound) {handle : Handle}
    {alloc : Allocation} (hGet : heap.nextEpoch.2.get? handle = some alloc) :
    alloc.mark < heap.nextEpoch.1 := by
  unfold nextEpoch at hGet ⊢
  simp only at hGet ⊢
  by_cases hWrap : heap.epoch + 1 = 0
  · rw [if_pos hWrap] at hGet ⊢
    have hErased : heap.eraseMarks.get? handle = (heap.get? handle).map (·.setMark 0) :=
      get?_contents heap handle
    change heap.eraseMarks.get? handle = some alloc at hGet
    rw [hErased] at hGet
    obtain ⟨old, _, rfl⟩ := Option.map_eq_some_iff.1 hGet
    exact (by decide : (0 : UInt32) < 1)
  · rw [if_neg hWrap] at hGet ⊢
    have hLast : heap.epoch ≠ -1 := by
      intro h
      rw [h] at hWrap
      exact hWrap rfl
    exact UInt32.lt_of_le_of_lt (hs.mark_le handle alloc hGet) (UInt32.lt_add_one hLast)

/-- The number of a new pass is on no allocation. -/
theorem isMarked_nextEpoch {heap : Arena} (hs : heap.Sound) (handle : Handle) :
    heap.nextEpoch.2.isMarked handle heap.nextEpoch.1 = false := by
  rw [← Bool.not_eq_true, isMarked_iff]
  rintro ⟨alloc, hGet, hMark⟩
  have hlt := mark_lt_nextEpoch hs hGet
  rw [hMark] at hlt
  exact UInt32.lt_irrefl _ hlt

theorem Sound.of_contents {heap heap' : Arena} (hs : heap.Sound)
    (h : heap'.contents = heap.contents)
    (hMark : ∀ handle alloc, heap'.get? handle = some alloc → alloc.mark ≤ heap'.epoch) :
    heap'.Sound := by
  have hVacant : heap'.vacant = heap.vacant := by
    have hFields := congrArg (fun heap : Arena => heap.vacant) h
    exact hFields
  have hSize : heap'.slots.size = heap.slots.size := by
    have hSlots := congrArg (fun heap : Arena => heap.slots.size) h
    simpa [contents, eraseMarks] using hSlots
  refine ⟨?_, ?_, ?_, hMark, ?_, ?_⟩
  · rw [hVacant]
    exact hs.vacant_nodup
  · intro i
    rw [hVacant, stateAt_of_contents h]
    exact hs.mem_vacant i
  · rw [hSize]
    exact hs.size_le
  · intro handle alloc hGet
    obtain ⟨mark, hOld⟩ := get?_of_contents h.symm hGet
    exact (hs.uniform handle (alloc.setMark mark) hOld).setMark alloc.mark
  · rw [pool_of_contents h]
    exact hs.pooled

theorem sound_nextEpoch {heap : Arena} (hs : heap.Sound) : heap.nextEpoch.2.Sound := by
  apply hs.of_contents (contents_nextEpoch heap)
  intro handle alloc hGet
  rw [epoch_nextEpoch]
  exact UInt32.le_of_lt (mark_lt_nextEpoch hs hGet)

theorem sound_markFrom {epoch : UInt32} {work : List Handle} {visited : Array Handle}
    {heap : Arena} (hs : heap.Sound) (hEpoch : epoch ≤ heap.epoch) :
    (heap.markFrom epoch work visited).1.Sound := by
  fun_induction markFrom epoch work visited heap with
  | case1 => exact hs
  | case2 visited heap next rest hGet ih => exact ih hs hEpoch
  | case3 visited heap next rest alloc hGet hMark ih => exact ih hs hEpoch
  | case4 visited heap next rest alloc hGet hMark work ih =>
    refine ih (sound_modify hs fun alloc hAlloc => ?_) hEpoch
    exact ⟨hEpoch, (hs.uniform next alloc hAlloc).setMark epoch⟩

theorem sound_mark {heap : Arena} (hs : heap.Sound) (roots : List Handle) :
    (heap.mark roots).2.2.Sound := by
  have hEpoch : heap.nextEpoch.1 ≤ heap.nextEpoch.2.epoch := by
    rw [epoch_nextEpoch]
    exact UInt32.le_refl _
  exact sound_markFrom (sound_nextEpoch hs) hEpoch

/-- A pass marks exactly what its roots reach. -/
theorem isMarked_mark {heap : Arena} (hs : heap.Sound) {roots : List Handle} {handle : Handle} :
    (heap.mark roots).2.2.isMarked handle (heap.mark roots).1 = true ↔
      heap.Reaches roots handle := by
  have hSame := contents_nextEpoch heap
  have hWalk : (heap.mark roots).2.2.isMarked handle (heap.mark roots).1 = true ↔
      heap.nextEpoch.2.Reaches roots.reverse handle :=
    isMarked_markFrom (isMarked_nextEpoch hs)
  rw [hWalk]
  constructor
  · intro h
    refine (h.of_contents hSame.symm).of_roots fun root hRoot hLive => ?_
    exact .root (List.mem_reverse.1 hRoot) hLive
  · intro h
    refine (h.of_contents hSame).of_roots fun root hRoot hLive => ?_
    exact .root (List.mem_reverse.2 hRoot) hLive

/-- A pass lists exactly what its roots reach. -/
theorem mem_mark {heap : Arena} (hs : heap.Sound) {roots : List Handle} {handle : Handle} :
    handle ∈ (heap.mark roots).2.1 ↔ heap.Reaches roots handle := by
  rw [← isMarked_mark hs]
  have hList : handle ∈ (heap.mark roots).2.1 ↔ handle ∈ #[] ∨
      (heap.mark roots).2.2.isMarked handle (heap.mark roots).1 = true ∧
        heap.nextEpoch.2.isMarked handle heap.nextEpoch.1 = false := mem_markFrom
  rw [hList, isMarked_nextEpoch hs]
  simp

end Arena

end RegisterMachine

-- The invariant of the arena. It ties the list of vacant slots to the slots, so
-- that a new allocation never overwrites a live one, keeps every mark of a live
-- allocation at or below the number of the last marking pass, and keeps the arrays
-- of every allocation, live or pooled, in step.
import Mathlib.Algebra.Group.Nat.Defs
import Mathlib.Data.List.Nodup
import Mathlib.Data.List.Sigma
import RegisterMachine.Proofs.SlotStates
import RegisterMachine.Proofs.Stores

namespace RegisterMachine.Arena

structure Sound (heap : Arena) : Prop where
  vacant_nodup : heap.vacant.toList.Nodup
  /-- The vacant slots are the ones that hold no allocation. -/
  mem_vacant : ∀ i : UInt32, i ∈ heap.vacant ↔ ∃ g, heap.stateAt i.toNat = some (g, false)
  size_le : heap.slots.size ≤ 2 ^ 32
  mark_le : ∀ handle alloc, heap.get? handle = some alloc → alloc.mark ≤ heap.epoch
  uniform : ∀ handle alloc, heap.get? handle = some alloc → alloc.Uniform
  pooled : ∀ alloc ∈ heap.pool, alloc.Uniform

theorem Sound.limit_le {heap : Arena} (hs : heap.Sound) (handle : Handle) (alloc : Allocation)
    (hGet : heap.get? handle = some alloc) : alloc.limit ≤ alloc.capacity :=
  (hs.uniform handle alloc hGet).limit_le

theorem sound_empty (limit poolLimit : Nat) :
    Sound { limit, poolLimit } := by
  refine ⟨by simp, ?_, by simp, ?_, ?_, by simp⟩
  · intro i
    simp [stateAt]
  · intro handle alloc h
    simp [get?] at h
  · intro handle alloc h
    simp [get?] at h

theorem stateAt_isSome {heap : Arena} {i : Nat} :
    (heap.stateAt i).isSome ↔ i < heap.slots.size := by
  unfold stateAt
  simp

/-! ## A new allocation -/

/-- A handle that can be given out: its slot is empty in its generation, or is yet
to be made. -/
def Vacancy (heap : Arena) (handle : Handle) : Prop :=
  heap.stateAt handle.index.toNat = some (handle.generation, false) ∨
    heap.stateAt handle.index.toNat = none ∧ handle.generation = 0

theorem Vacancy.not_live {heap : Arena} {handle : Handle} (h : heap.Vacancy handle)
    (g : UInt32) : heap.stateAt handle.index.toNat ≠ some (g, true) := by
  rcases h with h | ⟨h, _⟩ <;> simp [h]

/-- What `place` does to the slots, and which handle it chooses. -/
theorem place_spec {heap : Arena} (hs : heap.Sound) (hFull : heap.isFull = false)
    (alloc : Allocation) :
    heap.Vacancy (heap.place alloc).1 ∧
      ∀ i, (heap.place alloc).2.slots[i]? =
        if (heap.place alloc).1.index.toNat = i then
          some ⟨(heap.place alloc).1.generation, some alloc⟩
        else heap.slots[i]? := by
  unfold place
  rcases hBack : heap.vacant.back? with _ | index
  · simp only
    have hEmpty : heap.vacant.isEmpty := by simpa using hBack
    have hRoom : heap.slots.size < 2 ^ 32 := by
      simp only [isFull, hEmpty, Bool.true_and, Bool.or_eq_false_iff, decide_eq_false_iff_not,
        Nat.not_le] at hFull
      exact hFull.2
    have hNat : (UInt32.ofNat heap.slots.size).toNat = heap.slots.size :=
      UInt32.toNat_ofNat_of_lt' hRoom
    refine ⟨Or.inr ⟨?_, rfl⟩, ?_⟩
    · simp [hNat, stateAt]
    · intro i
      rw [hNat, Array.getElem?_push]
      by_cases hi : i = heap.slots.size
      · rw [if_pos hi, if_pos hi.symm]
      · rw [if_neg hi, if_neg (Ne.symm hi)]
  · simp only
    have hMem : index ∈ heap.vacant := Array.mem_of_back? hBack
    obtain ⟨g, hState⟩ := (hs.mem_vacant index).1 hMem
    obtain ⟨⟨generation, content⟩, hSlot, hEq⟩ := Option.map_eq_some_iff.1 hState
    simp only [Slot.state, Prod.mk.injEq] at hEq
    rw [hSlot]
    refine ⟨Or.inl ?_, ?_⟩
    · simp [hState, hEq.1]
    · intro i
      rw [Array.getElem?_modify]
      by_cases hi : index.toNat = i
      · rw [if_pos hi, if_pos hi, ← hi, hSlot]
        rfl
      · rw [if_neg hi, if_neg hi]

theorem epoch_insert (heap : Arena) (size : UInt16) (mode : TraceMode) :
    (heap.insert size mode).2.epoch = heap.epoch := by
  unfold insert place
  simp only
  split <;> rfl

theorem pool_insert (heap : Arena) (size : UInt16) (mode : TraceMode) :
    (heap.insert size mode).2.pool = (takeReleased heap.pool size.toNat).2 := by
  have hSupply : (supply heap.pool size.toNat mode).2 = _ := supply_snd
  rw [← hSupply]
  unfold insert place
  simp only
  split <;> rfl

/-- The allocation that `insert` makes. -/
def newAllocation (heap : Arena) (size : UInt16) (mode : TraceMode) : Allocation :=
  (supply heap.pool size.toNat mode).1

/-- Whatever the pool holds, the allocation that is made is as a new one. -/
theorem newAllocation_eq {heap : Arena} (hs : heap.Sound) (size : UInt16) (mode : TraceMode) :
    heap.newAllocation size mode =
      .fresh (suppliedCapacity heap.pool size.toNat) size.toNat mode :=
  supply_fst hs.pooled

/-- The arena from which `insert` has taken the store. -/
theorem sound_supply {heap : Arena} (hs : heap.Sound) (size : Nat) (mode : TraceMode) :
    Sound { heap with pool := (supply heap.pool size mode).2 } := by
  refine ⟨hs.vacant_nodup, hs.mem_vacant, hs.size_le, hs.mark_le, hs.uniform, ?_⟩
  intro alloc hMem
  rw [supply_snd] at hMem
  exact hs.pooled alloc (mem_of_mem_takeReleased hMem)

section Insert

variable {heap : Arena} (hs : heap.Sound) (hFull : heap.isFull = false)
  (size : UInt16) (mode : TraceMode)

include hs hFull

theorem vacancy_insert : heap.Vacancy (heap.insert size mode).1 :=
  (place_spec (sound_supply hs size.toNat mode) hFull _).1

theorem getElem?_insert (i : Nat) :
    (heap.insert size mode).2.slots[i]? =
      if (heap.insert size mode).1.index.toNat = i then
        some ⟨(heap.insert size mode).1.generation, some (heap.newAllocation size mode)⟩
      else heap.slots[i]? :=
  (place_spec (sound_supply hs size.toNat mode) hFull _).2 i

theorem stateAt_insert (i : Nat) :
    (heap.insert size mode).2.stateAt i =
      if (heap.insert size mode).1.index.toNat = i then
        some ((heap.insert size mode).1.generation, true)
      else heap.stateAt i := by
  unfold stateAt
  rw [getElem?_insert hs hFull]
  split <;> rfl

theorem get?_insert (other : Handle) :
    (heap.insert size mode).2.get? other =
      if other = (heap.insert size mode).1 then some (heap.newAllocation size mode)
      else heap.get? other := by
  have hVacant := vacancy_insert hs hFull size mode
  unfold get?
  rw [getElem?_insert hs hFull]
  by_cases hIndex : (heap.insert size mode).1.index.toNat = other.index.toNat
  · rw [if_pos hIndex]
    by_cases hOther : other = (heap.insert size mode).1
    · simp [hOther]
    · -- The slot was empty, so another handle of it was stale and still is.
      have hNe : (heap.insert size mode).1.generation ≠ other.generation :=
        fun h => hOther (handle_eq hIndex.symm h.symm)
      have hStale : heap.get? other = none := by
        rw [← contains_eq_false, ← Bool.not_eq_true, contains_iff_stateAt, ← hIndex]
        exact hVacant.not_live _
      rw [if_neg hOther]
      unfold get? at hStale
      simp [hNe, hStale]
  · have hOther : other ≠ (heap.insert size mode).1 := fun h => hIndex (by rw [h])
    rw [if_neg hIndex, if_neg hOther]

theorem contains_insert (other : Handle) :
    (heap.insert size mode).2.contains other = true ↔
      other = (heap.insert size mode).1 ∨ heap.contains other = true := by
  unfold contains
  rw [get?_insert hs hFull]
  by_cases hOther : other = (heap.insert size mode).1 <;> simp [hOther]

theorem not_contains_new : heap.contains (heap.insert size mode).1 = false := by
  rw [← Bool.not_eq_true, contains_iff_stateAt]
  exact (vacancy_insert hs hFull size mode).not_live _

/-- `insert` takes the slot that it uses out of the vacant ones. -/
theorem vacant_insert :
    (heap.insert size mode).2.vacant.toList.Nodup ∧
      (∀ i, i ∈ (heap.insert size mode).2.vacant ↔
        i ∈ heap.vacant ∧ i ≠ (heap.insert size mode).1.index) ∧
      (heap.insert size mode).2.slots.size ≤ 2 ^ 32 := by
  have hVacant := vacancy_insert hs hFull size mode
  unfold insert place at hVacant ⊢
  simp only at hVacant ⊢
  rcases hBack : heap.vacant.back? with _ | index
  · simp only [hBack] at hVacant ⊢
    have hEmpty : heap.vacant = #[] := by simpa using hBack
    refine ⟨hs.vacant_nodup, by simp [hEmpty], ?_⟩
    simp only [isFull, hEmpty, Array.isEmpty_empty, Bool.true_and, Bool.or_eq_false_iff,
      decide_eq_false_iff_not, Nat.not_le] at hFull
    rw [Array.size_push]
    exact hFull.2
  · simp only
    have hSplit : heap.vacant.toList.dropLast ++ [index] = heap.vacant.toList :=
      List.dropLast_append_getLast? index (by simp [hBack])
    have hNodup := hs.vacant_nodup
    rw [← hSplit, List.nodup_append] at hNodup
    obtain ⟨hPop, _, hApart⟩ := hNodup
    refine ⟨by simpa using hPop, ?_, by simpa using hs.size_le⟩
    intro i
    have hMem : i ∈ heap.vacant ↔ i ∈ heap.vacant.toList.dropLast ∨ i = index := by
      rw [← Array.mem_toList_iff, ← hSplit]
      simp
    rw [← Array.mem_toList_iff, Array.toList_pop, hMem]
    constructor
    · intro hi
      exact ⟨Or.inl hi, hApart i hi index (List.mem_singleton_self index)⟩
    · rintro ⟨hi | hi, hNe⟩
      · exact hi
      · exact absurd hi hNe

theorem sound_insert : (heap.insert size mode).2.Sound := by
  have hState := stateAt_insert hs hFull size mode
  have hGet := get?_insert hs hFull size mode
  have hVacant := vacancy_insert hs hFull size mode
  obtain ⟨hNodup, hMem, hSize⟩ := vacant_insert hs hFull size mode
  have hNew := newAllocation_eq hs size mode
  refine ⟨hNodup, ?_, hSize, ?_, ?_, ?_⟩
  · intro i
    rw [hMem, hs.mem_vacant, hState]
    by_cases hi : (heap.insert size mode).1.index.toNat = i.toNat
    · simp [UInt32.toNat_inj.1 hi]
    · have hNe : i ≠ (heap.insert size mode).1.index := fun h => hi (by rw [h])
      simp [hi, hNe]
  · intro handle alloc h
    rw [hGet] at h
    split at h
    · rw [hNew] at h
      cases h
      exact UInt32.zero_le
    · rw [epoch_insert]
      exact hs.mark_le handle alloc h
  · intro handle alloc h
    rw [hGet] at h
    split at h
    · rw [hNew] at h
      cases h
      exact Allocation.uniform_fresh (le_suppliedCapacity heap.pool size.toNat) mode
    · exact hs.uniform handle alloc h
  · rw [pool_insert]
    exact fun alloc hMem => hs.pooled alloc (mem_of_mem_takeReleased hMem)

end Insert

/-! ## The other operations -/

theorem sound_modify {heap : Arena} (hs : heap.Sound) {handle : Handle}
    {change : Allocation → Allocation}
    (h : ∀ alloc, heap.get? handle = some alloc →
      (change alloc).mark ≤ heap.epoch ∧ (change alloc).Uniform) :
    (heap.modify handle change).Sound := by
  -- Whatever holds of the old allocations and of the changed one holds of the new ones.
  have hAll : ∀ P : Allocation → Prop, (∀ other alloc, heap.get? other = some alloc → P alloc) →
      (∀ alloc, heap.get? handle = some alloc → P (change alloc)) →
      ∀ other alloc, (heap.modify handle change).get? other = some alloc → P alloc := by
    intro P hOld hNew other alloc hGet
    rw [get?_modify] at hGet
    split at hGet
    · obtain ⟨old, hOldGet, rfl⟩ := Option.map_eq_some_iff.1 hGet
      exact hNew old hOldGet
    · exact hOld other alloc hGet
  refine ⟨hs.vacant_nodup, ?_, ?_, ?_, ?_, hs.pooled⟩
  · intro i
    rw [stateAt_modify]
    exact hs.mem_vacant i
  · unfold modify
    rw [Array.size_modify]
    exact hs.size_le
  · exact hAll (fun alloc => alloc.mark ≤ heap.epoch) hs.mark_le fun alloc hGet => (h alloc hGet).1
  · exact hAll Allocation.Uniform hs.uniform fun alloc hGet => (h alloc hGet).2

theorem sound_write {heap : Arena} (hs : heap.Sound) (handle : Handle) (position : Nat)
    (value : Value) : (heap.modify handle (·.write position value)).Sound :=
  sound_modify hs fun alloc hGet =>
    ⟨hs.mark_le handle alloc hGet, (hs.uniform handle alloc hGet).write position value⟩

theorem sound_setFlag {heap : Arena} (hs : heap.Sound) (handle : Handle) (position : Nat)
    (flagged : Bool) : (heap.modify handle (·.setFlag position flagged)).Sound :=
  sound_modify hs fun alloc hGet =>
    ⟨hs.mark_le handle alloc hGet, (hs.uniform handle alloc hGet).setFlag position flagged⟩

theorem sound_setMode {heap : Arena} (hs : heap.Sound) (handle : Handle) (mode : TraceMode) :
    (heap.modify handle (·.setMode mode)).Sound :=
  sound_modify hs fun alloc hGet =>
    ⟨hs.mark_le handle alloc hGet, (hs.uniform handle alloc hGet).setMode mode⟩

/-- A released allocation goes into the pool as it is, if there is room in it. -/
theorem pool_erase {heap : Arena} {handle : Handle} {alloc : Allocation}
    (h : heap.get? handle = some alloc) :
    (heap.erase handle).pool =
      if heap.pool.size < heap.poolLimit then heap.pool.push alloc else heap.pool := by
  unfold erase
  rw [h]

/-- Whatever holds of the pool and of the released allocation holds of the pool then. -/
theorem forall_mem_pool_erase {heap : Arena} {handle : Handle} {alloc : Allocation}
    (hGet : heap.get? handle = some alloc) {P : Allocation → Prop}
    (hPool : ∀ old ∈ heap.pool, P old) (h : P alloc) : ∀ old ∈ (heap.erase handle).pool, P old := by
  rw [pool_erase hGet]
  split
  · intro old hMem
    rcases Array.mem_push.1 hMem with hOld | rfl
    · exact hPool old hOld
    · exact h
  · exact hPool

theorem sound_erase {heap : Arena} (hs : heap.Sound) (handle : Handle) :
    (heap.erase handle).Sound := by
  rcases hGet : heap.get? handle with _ | alloc
  · rw [erase_of_stale hGet]
    exact hs
  · have hState := stateAt_erase hGet
    have hLive := contains_iff_stateAt.1 (contains_eq_true.2 ⟨alloc, hGet⟩)
    have hVacant : (heap.erase handle).vacant = heap.vacant.push handle.index := by
      unfold erase
      rw [hGet]
    have hNotMem : handle.index ∉ heap.vacant := by
      rw [hs.mem_vacant, hLive]
      simp
    have hOld : ∀ other old, (heap.erase handle).get? other = some old →
        heap.get? other = some old := by
      intro other old h
      rw [get?_erase] at h
      split at h
      · cases h
      · exact h
    refine ⟨?_, ?_, ?_, ?_, ?_, ?_⟩
    · rw [hVacant, Array.toList_push, List.nodup_append]
      refine ⟨hs.vacant_nodup, List.nodup_singleton _, ?_⟩
      intro x hx y hy hxy
      rw [List.mem_singleton] at hy
      subst hy hxy
      exact hNotMem (Array.mem_toList_iff.1 hx)
    · intro i
      rw [hVacant, Array.mem_push, hs.mem_vacant, hState]
      by_cases hi : handle.index.toNat = i.toNat
      · simp [UInt32.toNat_inj.1 hi]
      · have hNe : i ≠ handle.index := fun h => hi (by rw [h])
        simp [hi, hNe]
    · unfold erase
      rw [hGet]
      simpa using hs.size_le
    · intro other old h
      have hEpoch : (heap.erase handle).epoch = heap.epoch := by
        unfold erase
        rw [hGet]
      rw [hEpoch]
      exact hs.mark_le other old (hOld other old h)
    · intro other old h
      exact hs.uniform other old (hOld other old h)
    · exact forall_mem_pool_erase hGet hs.pooled (hs.uniform handle alloc hGet)

/-- The slots that `clear` adds to the vacant ones are those that hold an allocation. -/
theorem mem_occupied {heap : Arena} (hs : heap.Sound) (i : UInt32) :
    i ∈ heap.occupied ↔ ∃ g, heap.stateAt i.toNat = some (g, true) := by
  unfold occupied stateAt
  simp only [List.mem_map, List.mem_filter, Prod.exists, List.mem_zipIdx_iff_getElem?,
    Array.getElem?_toList, Option.map_eq_some_iff]
  constructor
  · rintro ⟨slot, j, ⟨hSlot, hContent⟩, rfl⟩
    have hlt : j < 2 ^ 32 :=
      Nat.lt_of_lt_of_le (Array.getElem?_eq_some_iff.1 hSlot).1 hs.size_le
    rw [UInt32.toNat_ofNat_of_lt' hlt]
    exact ⟨slot.generation, slot, hSlot, by simp [Slot.state, hContent]⟩
  · rintro ⟨g, slot, hSlot, hState⟩
    simp only [Slot.state, Prod.mk.injEq] at hState
    exact ⟨slot, i.toNat, ⟨hSlot, hState.2⟩, UInt32.ofNat_toNat⟩

theorem nodup_occupied {heap : Arena} (hs : heap.Sound) : heap.occupied.Nodup := by
  unfold occupied
  refine List.Nodup.map_on ?_ ((List.Nodup.of_map _ (List.nodup_zipIdx_map_snd _)).filter _)
  rintro ⟨slot, i⟩ hx ⟨other, j⟩ hy hij
  simp only [List.mem_filter, List.mem_zipIdx_iff_getElem?, Array.getElem?_toList] at hx hy
  have hi := Nat.lt_of_lt_of_le (Array.getElem?_eq_some_iff.1 hx.1).1 hs.size_le
  have hj := Nat.lt_of_lt_of_le (Array.getElem?_eq_some_iff.1 hy.1).1 hs.size_le
  have hEq : i = j := by
    rw [← UInt32.toNat_ofNat_of_lt' hi, ← UInt32.toNat_ofNat_of_lt' hj]
    exact congrArg UInt32.toNat hij
  subst hEq
  rw [hx.1] at hy
  simpa using hy.1

theorem sound_clear {heap : Arena} (hs : heap.Sound) : heap.clear.2.Sound := by
  have hVacant : heap.clear.2.vacant = heap.vacant ++ heap.occupied.toArray := rfl
  refine ⟨?_, ?_, ?_, ?_, ?_, by simp [clear]⟩
  · rw [hVacant, Array.toList_append, List.nodup_append]
    refine ⟨hs.vacant_nodup, nodup_occupied hs, ?_⟩
    intro i hi j hj hij
    subst hij
    obtain ⟨g, hEmpty⟩ := (hs.mem_vacant i).1 (Array.mem_toList_iff.1 hi)
    obtain ⟨g', hFilled⟩ := (mem_occupied hs i).1 hj
    rw [hEmpty] at hFilled
    simp at hFilled
  · intro i
    rw [hVacant, Array.mem_append, hs.mem_vacant, List.mem_toArray, mem_occupied hs,
      stateAt_clear]
    rcases heap.stateAt i.toNat with _ | ⟨g, _ | _⟩ <;> simp
  · unfold clear
    simpa using hs.size_le
  · intro handle alloc h
    rw [get?_clear] at h
    cases h
  · intro handle alloc h
    rw [get?_clear] at h
    cases h

end RegisterMachine.Arena

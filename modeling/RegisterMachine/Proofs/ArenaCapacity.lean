-- What an arena can hold. The slots, the list of the vacant ones, the pool and the counter of
-- live allocations are changed apart from each other, and still they agree after any calls. So an
-- arena has room until its limit is reached: no history of releases, of releases that fail and
-- of clears takes any of it away.
import RegisterMachine.Proofs.ArenaHistory
import RegisterMachine.Proofs.HeapCounts

namespace RegisterMachine

/-! ## Access to an allocation -/

/-- No access to an allocation falls outside of the array that it goes to. -/
structure Allocation.Indexable (alloc : Allocation) : Prop where
  /-- The slots below the limit are there to be looked at for their values and for both flags. -/
  below : ∀ index < alloc.limit, index < alloc.values.size ∧ index < alloc.written.size ∧
    index < alloc.flagged.size
  position : ∀ index position, alloc.position index = .ok position →
    position < alloc.values.size ∧ position < alloc.written.size ∧ position < alloc.flagged.size
  positionUnchecked : ∀ index position, alloc.positionUnchecked index = .ok position →
    position < alloc.values.size ∧ position < alloc.written.size
  load : ∀ index, alloc.load index ≠ .error .internal

theorem Allocation.Uniform.indexable {alloc : Allocation} (h : alloc.Uniform) :
    alloc.Indexable := by
  obtain ⟨hWritten, hFlagged, hLimit⟩ := h
  unfold capacity at hWritten hFlagged hLimit
  have hBelow : ∀ index < alloc.limit, index < alloc.values.size ∧ index < alloc.written.size ∧
      index < alloc.flagged.size := by
    omega
  have hPosition : ∀ index position, alloc.position index = .ok position →
      position < alloc.limit := by
    intro index position hPosition
    unfold Allocation.position at hPosition
    simp only at hPosition
    split at hPosition
    · cases hPosition
      omega
    · cases hPosition
  refine ⟨hBelow, fun index position hOk => hBelow position (hPosition index position hOk), ?_, ?_⟩
  · intro index position hUnchecked
    unfold positionUnchecked capacity at hUnchecked
    split at hUnchecked
    · cases hUnchecked
      omega
    · cases hUnchecked
  · intro index hLoad
    unfold load at hLoad
    rcases hIndex : alloc.position index with fault | position
    · -- The only fault of the check of the index is that it is out of range.
      rw [hIndex] at hLoad
      cases hLoad
      unfold Allocation.position at hIndex
      simp only at hIndex
      split at hIndex <;> cases hIndex
    · obtain ⟨hValues, hFlags, -⟩ := hBelow position (hPosition index position hIndex)
      rw [hIndex] at hLoad
      simp only [bind, Except.bind, Array.getElem?_eq_getElem hValues,
        Array.getElem?_eq_getElem hFlags] at hLoad
      cases hFlag : alloc.written[position] <;> rw [hFlag] at hLoad <;> cases hLoad

namespace Arena

variable {heap : Arena}

/-! ## Calls -/

theorem Does.operates {call : Call} {done : History} {after : Arena}
    (h : heap.Does call done after) (hs : heap.Sound) :
    Relation.ReflTransGen Operates heap after := by
  cases h with
  | nothing => exact .refl
  | allocate hFull => exact .single (.insert hFull)
  | release _ => exact .single .erase
  | clear => exact .single .clear
  | store | storeUnchecked => exact .single (.modify (sound_write hs _ _ _))
  | setFlag => exact .single (.modify (sound_setFlag hs _ _ _))
  | setMode => exact .single (.modify (sound_setMode hs _ _))
  | mark => exact .single .mark

theorem limits_call (heap : Arena) (call : Call) : (heap.call call).2.limits = heap.limits := by
  have hDoes := does_call heap call
  generalize (heap.call call).1 = done at hDoes
  generalize (heap.call call).2 = after at hDoes ⊢
  cases hDoes with
  | allocate _ => exact limits_insert heap _ _
  | release _ => exact limits_erase heap _
  | mark => exact limits_mark heap _
  | _ => rfl

/-- What every run of calls keeps of the lists, the counters and the arrays. -/
theorem counted_runCalls (hs : heap.Sound) (hCounted : heap.Counted) (history : History)
    (calls : List Call) :
    (runCalls (history, heap) calls).2.Sound ∧ (runCalls (history, heap) calls).2.Counted := by
  induction calls generalizing heap history with
  | nil => exact ⟨hs, hCounted⟩
  | cons call calls ih =>
    obtain ⟨hNext, hNextCounted⟩ :=
      counted_of_operates ((does_call heap call).operates hs) hs hCounted
    exact ih hNext hNextCounted _

theorem limits_runCalls (history : History) (heap : Arena) (calls : List Call) :
    (runCalls (history, heap) calls).2.limits = heap.limits := by
  induction calls generalizing heap history with
  | nil => rfl
  | cons call calls ih => exact (ih _ _).trans (limits_call heap call)

/-! ## Slots -/

theorem length_occupied (heap : Arena) :
    heap.occupied.length = heap.slots.countP (·.content.isSome) := by
  unfold occupied
  rw [List.length_map, ← List.countP_eq_length_filter, ← Array.countP_toList]
  conv_rhs => rw [← List.zipIdx_map_fst 0 heap.slots.toList, List.countP_map]
  rfl

theorem mem_vacant_iff (hs : heap.Sound) (index : Nat) :
    index ∈ heap.vacant.toList.map UInt32.toNat ↔
      ∃ slot, heap.slots[index]? = some slot ∧ slot.content = none := by
  simp only [List.mem_map, Array.mem_toList_iff]
  constructor
  · rintro ⟨i, hMem, rfl⟩
    obtain ⟨g, hState⟩ := (hs.mem_vacant i).1 hMem
    obtain ⟨slot, hSlot, hEq⟩ := Option.map_eq_some_iff.1 hState
    simp only [Slot.state, Prod.mk.injEq, Option.isSome_eq_false_iff, Option.isNone_iff_eq_none]
      at hEq
    exact ⟨slot, hSlot, hEq.2⟩
  · rintro ⟨slot, hSlot, hContent⟩
    have hlt := Nat.lt_of_lt_of_le (Array.getElem?_eq_some_iff.1 hSlot).1 hs.size_le
    have hNat : (UInt32.ofNat index).toNat = index := UInt32.toNat_ofNat_of_lt' hlt
    refine ⟨UInt32.ofNat index, (hs.mem_vacant _).2 ⟨slot.generation, ?_⟩, hNat⟩
    rw [hNat, stateAt, hSlot]
    simp [Slot.state, hContent]

theorem uniform_of_slot (hs : heap.Sound) {slot : Slot} (hSlot : slot ∈ heap.slots)
    {alloc : Allocation} (hContent : slot.content = some alloc) : alloc.Uniform := by
  obtain ⟨i, hGet⟩ := Array.mem_iff_getElem?.1 hSlot
  have hlt := Nat.lt_of_lt_of_le (Array.getElem?_eq_some_iff.1 hGet).1 hs.size_le
  refine hs.uniform ⟨UInt32.ofNat i, slot.generation⟩ alloc (get?_eq_some.2 ?_)
  rw [UInt32.toNat_ofNat_of_lt' hlt, hGet, ← hContent]

/-- With no vacant slot, every slot is occupied. -/
theorem size_slots_of_vacant_empty (hs : heap.Sound) (hCounted : heap.Counted)
    (h : heap.vacant = #[]) : heap.slots.size = heap.live := by
  rw [hCounted.live_eq, length_occupied, eq_comm, Array.countP_eq_size]
  intro slot hSlot
  obtain ⟨i, hGet⟩ := Array.mem_iff_getElem?.1 hSlot
  rw [Option.isSome_iff_ne_none]
  intro hContent
  have hMem := (mem_vacant_iff hs i).2 ⟨slot, hGet, hContent⟩
  simp [h] at hMem

theorem isFull_eq_false_iff (hs : heap.Sound) (hCounted : heap.Counted)
    (hLimit : heap.limit ≤ 2 ^ 32) : heap.isFull = false ↔ heap.live < heap.limit := by
  simp only [isFull, Bool.or_eq_false_iff, decide_eq_false_iff_not, Nat.not_le,
    Bool.and_eq_false_iff]
  refine and_iff_left_of_imp fun hRoom => ?_
  by_cases hEmpty : heap.vacant = #[]
  · right
    rw [size_slots_of_vacant_empty hs hCounted hEmpty]
    exact Nat.lt_of_lt_of_le hRoom hLimit
  · left
    simpa using hEmpty

theorem allocate_isOk_iff (hs : heap.Sound) (hCounted : heap.Counted)
    (hLimit : heap.limit ≤ 2 ^ 32) (size : UInt16) (mode : TraceMode) :
    (∃ handle after, heap.allocate size mode = .ok (handle, after)) ↔ heap.live < heap.limit := by
  rw [← isFull_eq_false_iff hs hCounted hLimit]
  constructor
  · rintro ⟨handle, after, hOk⟩
    exact (allocate_eq_ok hOk).1
  · intro hFull
    refine ⟨(heap.insert size mode).1, (heap.insert size mode).2, ?_⟩
    unfold allocate
    rw [hFull]
    rfl

/-! ## The law -/

/-- An arena has room until its limit is reached, whatever calls were made of it. The number of
live allocations is the number of occupied slots, and within the limit. The vacant slots are
listed once each, and nothing else is. The pool is within its limit. The three arrays of a live
or a pooled allocation have one length, not below its limit, so that no access falls outside of
them. So, where the limit leaves a number for each slot, an allocation is made exactly when fewer
than the limit are live. -/
theorem an_arena_has_room_until_its_limit (limit poolLimit : Nat) (calls : List Call)
    (history : History) (heap : Arena)
    (hRun : runCalls ([], { limit, poolLimit }) calls = (history, heap)) :
    heap.live = heap.slots.countP (·.content.isSome) ∧ heap.live ≤ limit ∧
    heap.vacant.toList.Nodup ∧
    (∀ index, index ∈ heap.vacant.toList.map UInt32.toNat ↔
      ∃ slot, heap.slots[index]? = some slot ∧ slot.content = none) ∧
    heap.pool.size ≤ poolLimit ∧
    (∀ alloc, alloc ∈ heap.pool ∨ (∃ slot ∈ heap.slots, slot.content = some alloc) →
      alloc.Uniform ∧ alloc.Indexable) ∧
    (limit ≤ 2 ^ 32 → ∀ size mode,
      (∃ handle after, heap.allocate size mode = .ok (handle, after)) ↔ heap.live < limit) := by
  have hKept := counted_runCalls (sound_empty limit poolLimit) (counted_empty limit poolLimit) []
    calls
  have hLimits := limits_runCalls [] { limit, poolLimit } calls
  rw [hRun] at hKept hLimits
  simp only [limits, Prod.mk.injEq] at hLimits
  obtain ⟨hLimit, hPoolLimit⟩ := hLimits
  obtain ⟨hSound, hCounted⟩ := hKept
  refine ⟨hCounted.live_eq.trans (length_occupied heap), hLimit ▸ hCounted.live_le,
    hSound.vacant_nodup, mem_vacant_iff hSound, hPoolLimit ▸ hCounted.pool_le, ?_, ?_⟩
  · intro alloc hAlloc
    have hUniform : alloc.Uniform := by
      rcases hAlloc with hPooled | ⟨slot, hSlot, hContent⟩
      · exact hSound.pooled alloc hPooled
      · exact uniform_of_slot hSound hSlot hContent
    exact ⟨hUniform, hUniform.indexable⟩
  · intro hNumbers size mode
    rw [← hLimit] at hNumbers ⊢
    exact allocate_isOk_iff hSound hCounted hNumbers size mode

/-- An arena for one allocation makes it, has it released, refuses to release it again, makes
a smaller one in the same store, and is cleared; then it makes and releases a third, which waits
in the pool with the value that was stored in it. There is still room for one. -/
theorem an_arena_of_one_has_room_again :
    let calls : List Call :=
      [.allocate 2 .always, .release ⟨0, 0⟩, .release ⟨0, 0⟩, .allocate 1 .never, .clear,
       .allocate 3 .always, .store ⟨0, 2⟩ 1 (.long 5), .release ⟨0, 2⟩]
    let state := runCalls ([], { limit := 1, poolLimit := 1 }) calls
    state.2.live = 0 ∧ state.2.vacant = #[0] ∧
      state.2.pool = #[(Allocation.fresh 3 3 .always).write 1 (.long 5)] ∧
      (∀ alloc ∈ state.2.pool, alloc.Indexable) ∧
      ∀ size mode, ∃ handle after, state.2.allocate size mode = .ok (handle, after) := by
  intro calls state
  have hLive : state.2.live = 0 := by decide +kernel
  obtain ⟨-, -, -, -, -, hStores, hRoom⟩ :=
    an_arena_has_room_until_its_limit 1 1 calls state.1 state.2 rfl
  refine ⟨hLive, by decide +kernel, by decide +kernel,
    fun alloc hAlloc => (hStores alloc (Or.inl hAlloc)).2, ?_⟩
  intro size mode
  exact (hRoom (by decide) size mode).2 (by rw [hLive]; decide)

end Arena

end RegisterMachine

-- How full a heap is. All that a program or the host does to a heap comes down to a few
-- operations of the arena, one after the other, and each of them keeps the number of live
-- allocations in step with the occupied slots, and both the slots and the pool within limits.
import RegisterMachine.Proofs.FreshStarts

namespace RegisterMachine

/-! ## The operations of an arena -/

namespace Arena

/-- One operation of an arena. -/
inductive Operates (heap : Arena) : Arena → Prop
  | modify {handle : Handle} {change : Allocation → Allocation}
      (sound : (heap.modify handle change).Sound) : Operates heap (heap.modify handle change)
  | insert {size : UInt16} {mode : TraceMode} (full : heap.isFull = false) :
      Operates heap (heap.insert size mode).2
  | erase {handle : Handle} : Operates heap (heap.erase handle)
  | clear : Operates heap heap.clear.2
  | mark {roots : List Handle} : Operates heap (heap.mark roots).2.2

theorem Operates.sound {heap after : Arena} (h : heap.Operates after) (hs : heap.Sound) :
    after.Sound := by
  cases h with
  | modify hSound => exact hSound
  | insert hFull => exact sound_insert hs hFull _ _
  | erase => exact sound_erase hs _
  | clear => exact sound_clear hs
  | mark => exact sound_mark hs _

/-- What the host does to the heap without the collector is such an operation. -/
theorem Edited.operates {heap after : Arena} (h : heap.Edited after) (hs : heap.Sound) :
    heap.Operates after := by
  cases h with
  | store hStore =>
    obtain ⟨_, _, _, rfl⟩ := store_eq_ok hStore
    exact .modify (sound_write hs _ _ _)
  | storeUnchecked hStore =>
    obtain ⟨_, _, _, rfl⟩ := storeUnchecked_eq_ok hStore
    exact .modify (sound_write hs _ _ _)
  | setFlag hFlag =>
    obtain rfl := setFlag_eq_ok hFlag
    exact .modify (sound_setFlag hs _ _ _)
  | setMode hMode =>
    obtain rfl := setMode_eq_ok hMode
    exact .modify (sound_setMode hs _ _)
  | release hRelease =>
    obtain ⟨_, rfl⟩ := release_eq_ok hRelease
    exact .erase
  | clear => exact .clear

/-! ## Live allocations and pooled stores -/

/-- The number of live allocations is the number of occupied slots, and neither it nor the
pool is beyond its limit. -/
structure Counted (heap : Arena) : Prop where
  live_eq : heap.live = heap.occupied.length
  live_le : heap.live ≤ heap.limit
  pool_le : heap.pool.size ≤ heap.poolLimit

theorem counted_empty (limit poolLimit : Nat) : Counted { limit, poolLimit } :=
  ⟨rfl, Nat.zero_le _, Nat.zero_le _⟩

/-- Sound heaps with the same states of their slots have as many occupied slots. -/
theorem length_occupied_congr {heap heap' : Arena} (hs : heap.Sound) (hs' : heap'.Sound)
    (h : ∀ i, heap'.stateAt i = heap.stateAt i) :
    heap'.occupied.length = heap.occupied.length := by
  refine ((List.perm_ext_iff_of_nodup (nodup_occupied hs') (nodup_occupied hs)).2 ?_).length_eq
  intro i
  rw [mem_occupied hs', mem_occupied hs, h]

/-- A sound heap with one more occupied slot. -/
theorem length_occupied_of_new {heap heap' : Arena} (hs : heap.Sound) (hs' : heap'.Sound)
    {index : UInt32} (hNew : index ∉ heap.occupied)
    (h : ∀ i, i ∈ heap'.occupied ↔ i = index ∨ i ∈ heap.occupied) :
    heap'.occupied.length = heap.occupied.length + 1 := by
  have hNodup : (index :: heap.occupied).Nodup := List.nodup_cons.2 ⟨hNew, nodup_occupied hs⟩
  rw [← List.length_cons]
  exact ((List.perm_ext_iff_of_nodup (nodup_occupied hs') hNodup).2 fun i =>
    (h i).trans List.mem_cons.symm).length_eq

theorem length_occupied_insert {heap : Arena} (hs : heap.Sound) (hFull : heap.isFull = false)
    (size : UInt16) (mode : TraceMode) :
    (heap.insert size mode).2.occupied.length = heap.occupied.length + 1 := by
  have hs' := sound_insert hs hFull size mode
  have hNew : (heap.insert size mode).1.index ∉ heap.occupied := by
    rw [mem_occupied hs]
    rintro ⟨g, hState⟩
    exact (vacancy_insert hs hFull size mode).not_live g hState
  refine length_occupied_of_new hs hs' hNew fun i => ?_
  rw [mem_occupied hs', mem_occupied hs, stateAt_insert hs hFull]
  by_cases hi : (heap.insert size mode).1.index.toNat = i.toNat
  · simp [UInt32.toNat_inj.1 hi]
  · have hNe : i ≠ (heap.insert size mode).1.index := fun h => hi (by rw [h])
    simp [hi, hNe]

theorem length_occupied_erase {heap : Arena} (hs : heap.Sound) {handle : Handle}
    {alloc : Allocation} (hGet : heap.get? handle = some alloc) :
    heap.occupied.length = (heap.erase handle).occupied.length + 1 := by
  have hs' := sound_erase hs handle
  have hState := stateAt_erase hGet
  have hOld : handle.index ∉ (heap.erase handle).occupied := by
    rw [mem_occupied hs', hState]
    simp
  refine length_occupied_of_new hs' hs hOld fun i => ?_
  have hLive := contains_iff_stateAt.1 (contains_eq_true.2 ⟨alloc, hGet⟩)
  rw [mem_occupied hs', mem_occupied hs, hState]
  by_cases hi : handle.index.toNat = i.toNat
  · simp [UInt32.toNat_inj.1 hi, ← hi, hLive]
  · have hNe : i ≠ handle.index := fun h => hi (by rw [h])
    simp [hi, hNe]

theorem occupied_clear {heap : Arena} (hs : heap.Sound) : heap.clear.2.occupied = [] := by
  rw [List.eq_nil_iff_forall_not_mem]
  intro i
  rw [mem_occupied (sound_clear hs), stateAt_clear]
  rcases heap.stateAt i.toNat with _ | ⟨g, _ | _⟩ <;> simp

theorem size_takeReleased_le (pool : Array Allocation) (size : Nat) :
    (takeReleased pool size).2.size ≤ pool.size := by
  unfold takeReleased
  split
  · unfold swapRemove
    split <;> simp
  · exact Nat.le_refl _

theorem Counted.of_contents {heap heap' : Arena} (h : heap.Counted) (hs : heap.Sound)
    (hs' : heap'.Sound) (hSame : heap'.contents = heap.contents) : heap'.Counted := by
  have hLive : heap'.contents.live = heap.contents.live := congrArg Arena.live hSame
  change heap'.live = heap.live at hLive
  have hLimits := limits_of_contents hSame
  simp only [limits, Prod.mk.injEq] at hLimits
  refine ⟨?_, ?_, ?_⟩
  · rw [hLive, length_occupied_congr hs hs' (stateAt_of_contents hSame), h.live_eq]
  · rw [hLive, hLimits.1]
    exact h.live_le
  · rw [pool_of_contents hSame, hLimits.2]
    exact h.pool_le

theorem Counted.insert {heap : Arena} (h : heap.Counted) (hs : heap.Sound)
    (hFull : heap.isFull = false) (size : UInt16) (mode : TraceMode) :
    (heap.insert size mode).2.Counted := by
  have hLimits := limits_insert heap size mode
  simp only [limits, Prod.mk.injEq] at hLimits
  have hRoom : heap.live < heap.limit := by
    simp only [isFull, Bool.or_eq_false_iff, decide_eq_false_iff_not, Nat.not_le] at hFull
    exact hFull.1
  refine ⟨?_, ?_, ?_⟩
  · rw [live_insert, length_occupied_insert hs hFull, h.live_eq]
  · rw [live_insert, hLimits.1]
    exact hRoom
  · rw [pool_insert, hLimits.2]
    exact (size_takeReleased_le _ _).trans h.pool_le

theorem Counted.erase {heap : Arena} (h : heap.Counted) (hs : heap.Sound) (handle : Handle) :
    (heap.erase handle).Counted := by
  rcases hGet : heap.get? handle with _ | alloc
  · rw [erase_of_stale hGet]
    exact h
  · have hLength := length_occupied_erase hs hGet
    have hLive : (heap.erase handle).live = heap.live - 1 := by
      unfold Arena.erase
      rw [hGet]
    have hPool : (heap.erase handle).pool.size ≤ heap.poolLimit := by
      rw [pool_erase hGet]
      split
      · rwa [Array.size_push]
      · exact h.pool_le
    have hLimits := limits_erase heap handle
    simp only [limits, Prod.mk.injEq] at hLimits
    have hEq := h.live_eq
    have hLe := h.live_le
    exact ⟨by omega, by omega, by omega⟩

theorem Operates.counted {heap after : Arena} (h : heap.Operates after) (hs : heap.Sound)
    (hCounted : heap.Counted) : after.Counted := by
  cases h with
  | @modify handle change hSound =>
    refine ⟨?_, hCounted.live_le, hCounted.pool_le⟩
    rw [length_occupied_congr hs hSound (stateAt_modify _ _ _)]
    exact hCounted.live_eq
  | insert hFull => exact hCounted.insert hs hFull _ _
  | erase => exact hCounted.erase hs _
  | clear =>
    refine ⟨?_, Nat.zero_le _, Nat.zero_le _⟩
    rw [occupied_clear hs]
    rfl
  | mark => exact hCounted.of_contents hs (sound_mark hs _) (contents_mark _ _)

theorem counted_of_operates {heap after : Arena}
    (h : Relation.ReflTransGen Operates heap after) (hs : heap.Sound)
    (hCounted : heap.Counted) : after.Sound ∧ after.Counted := by
  induction h with
  | refl => exact ⟨hs, hCounted⟩
  | tail _ hStep ih => exact ⟨hStep.sound ih.1, hStep.counted ih.1 ih.2⟩

end Arena

/-! ## What happens to the heap of a memory -/

namespace Memory

open Arena Relation

theorem operates_foldl_sweepOne (epoch : UInt32) (entries : List Handle)
    (state : SweepReport × Memory) :
    ReflTransGen Operates state.2.heap (entries.foldl (sweepOne epoch) state).2.heap := by
  induction entries generalizing state with
  | nil => exact .refl
  | cons handle entries ih =>
    have hRest := ih (sweepOne epoch state handle)
    rcases sweepOne_cases epoch state handle with ⟨-, hNext⟩ | ⟨-, hNext⟩
    · rw [hNext] at hRest
      exact hRest
    · rw [hNext] at hRest
      exact .head .erase hRest

/-- A frame is closed by a marking pass and releases. -/
theorem operates_closeFrame (memory : Memory) :
    ReflTransGen Operates memory.heap memory.closeFrame.2.heap := by
  unfold closeFrame
  rcases memory.collector.frames.back? with _ | frame
  · exact .refl
  · simp only [← Array.foldl_toList]
    refine .head (b := (memory.heap.mark frame.traced.toList).2.2) .mark ?_
    exact operates_foldl_sweepOne _ _ ({}, { heap := _, collector := _ })

theorem operates_closeFrames (n : Nat) (total : SweepReport) (memory : Memory) :
    ReflTransGen Operates memory.heap (closeFrames n total memory).2.heap := by
  induction n generalizing total memory with
  | zero => exact .refl
  | succ n ih => exact memory.operates_closeFrame.trans (ih _ _)

theorem operates_of_served {before served : Memory} (h : ReflTransGen Serves before served) :
    ReflTransGen Operates before.heap served.heap := by
  induction h with
  | refl => exact .refl
  | tail _ hStep ih =>
    cases hStep with
    | same => exact ih
    | modify hSound => exact ih.tail (.modify hSound)
    | allocate hFull => exact ih.tail (.insert hFull)

theorem operates_of_traced {memory after : Memory} {handle : Handle} {count : Nat}
    (h : memory.supertrace handle = .ok (count, after) ∨
      memory.detrace handle = .ok (count, after)) :
    memory.heap.Operates after.heap := by
  rcases h with h | h
  · unfold supertrace at h
    split at h
    · simp only [Except.ok.injEq, Prod.mk.injEq] at h
      obtain ⟨-, rfl⟩ := h
      exact .mark
    · cases h
  · unfold detrace at h
    split at h
    · simp only [Except.ok.injEq, Prod.mk.injEq] at h
      obtain ⟨-, rfl⟩ := h
      exact .mark
    · cases h

end Memory

/-! ## What happens to the heap of a machine -/

namespace Machine

variable {σ : Type}

open Arena Memory Relation

theorem operates_commit {machine : Machine σ} (hs : machine.memory.Sound) {op : Operation}
    {effect : Effect} (h : machine.Allowed op effect) :
    ReflTransGen Operates machine.memory.heap (machine.commit effect).machine.memory.heap := by
  cases effect with
  | store handle position value => exact .single (.modify (sound_write hs.heap _ _ _))
  | setFlag handle position flagged => exact .single (.modify (sound_setFlag hs.heap _ _ _))
  | setMode handle mode => exact .single (.modify (sound_setMode hs.heap _ _))
  | allocate address size mode => exact .single (.insert h)
  | free handle => exact .single .erase
  | closeFrame => exact machine.memory.operates_closeFrame
  | foreign id input address => exact operates_of_served (served_callForeign hs id input address)
  | _ => exact .refl

theorem operates_step {machine : Machine σ} (hs : machine.memory.Sound)
    (code : Array Instruction) :
    ReflTransGen Operates machine.memory.heap (machine.step code).machine.memory.heap := by
  rcases machine.step_cases code with ⟨fault, hStep⟩ | ⟨ins, op, effect, _, _, _, hFor, hStep⟩
  · rw [hStep]
    exact .refl
  · rw [hStep]
    exact operates_commit hs (machine.plans_planFor ins op effect hFor)

/-- Whatever happens to a machine, its heap changes by operations of the arena. -/
theorem operates_of_becomes {machine after : Machine σ} (hs : machine.memory.Sound)
    (h : machine.Becomes after) :
    ReflTransGen Operates machine.memory.heap after.memory.heap := by
  cases h with
  | start | changeTable | signal => exact .refl
  | @next code _ hStep | @finish code _ hStep =>
    have hOperates := operates_step hs code
    rw [hStep] at hOperates
    exact hOperates
  | @fault code _ _ last hStep =>
    have hOperates := operates_step hs code
    rw [hStep] at hOperates
    exact hOperates.trans (operates_closeFrames _ _ last.memory)
  | allocate hAllocate =>
    obtain ⟨⟨handle, memory⟩, hMemory, hAfter⟩ := bind_eq_ok.1 hAllocate
    cases hAfter
    unfold Memory.allocate at hMemory
    split at hMemory
    · cases hMemory
    · rename_i hFull
      cases hMemory
      exact .single (.insert (by simpa using hFull))
  | supertrace hTrace =>
    obtain ⟨⟨count, memory⟩, hMemory, hAfter⟩ := bind_eq_ok.1 hTrace
    cases hAfter
    exact .single (operates_of_traced (.inl hMemory))
  | detrace hTrace =>
    obtain ⟨⟨count, memory⟩, hMemory, hAfter⟩ := bind_eq_ok.1 hTrace
    cases hAfter
    exact .single (operates_of_traced (.inr hMemory))
  | load hLoad =>
    unfold load at hLoad
    split at hLoad
    · cases hLoad
    · cases hLoad
      exact .refl
  | setRegister hSet =>
    obtain ⟨address, _, hAfter⟩ := bind_eq_ok.1 hSet
    cases hAfter
    exact .refl
  | reset => exact .single .clear
  | edit hEdited => exact .single (hEdited.operates hs.heap)

end Machine

end RegisterMachine

-- The arena seen through its slots. A slot is described by its generation and
-- by whether it holds an allocation; a handle is live when its slot is occupied
-- in the generation of the handle. Each operation gets one law for `get?` and
-- one for the slots, and later modules use these laws only.
import RegisterMachine.Heap.Marking

namespace RegisterMachine

/-- The generation of a slot, and whether it holds an allocation. -/
def Slot.state (slot : Slot) : UInt32 × Bool := (slot.generation, slot.content.isSome)

namespace Arena

/-- The state of a slot, if the arena has it. -/
def stateAt (heap : Arena) (i : Nat) : Option (UInt32 × Bool) := heap.slots[i]?.map Slot.state

theorem handle_eq {x y : Handle} (hIndex : x.index.toNat = y.index.toNat)
    (hGeneration : x.generation = y.generation) : x = y := by
  obtain ⟨i, g⟩ := x
  obtain ⟨j, k⟩ := y
  simp only [Handle.mk.injEq]
  exact ⟨UInt32.toNat_inj.1 hIndex, hGeneration⟩

theorem contains_eq_true {heap : Arena} {handle : Handle} :
    heap.contains handle = true ↔ ∃ alloc, heap.get? handle = some alloc := by
  unfold contains
  exact Option.isSome_iff_exists

theorem contains_eq_false {heap : Arena} {handle : Handle} :
    heap.contains handle = false ↔ heap.get? handle = none := by
  unfold contains
  simp

/-- A handle is live when its slot is occupied in its generation. -/
theorem contains_iff_stateAt {heap : Arena} {handle : Handle} :
    heap.contains handle = true ↔
      heap.stateAt handle.index.toNat = some (handle.generation, true) := by
  rw [contains_eq_true]
  constructor
  · rintro ⟨alloc, h⟩
    unfold stateAt
    rw [get?_eq_some.1 h]
    rfl
  · intro h
    obtain ⟨⟨generation, content⟩, hSlot, hState⟩ := Option.map_eq_some_iff.1 h
    simp only [Slot.state, Prod.mk.injEq] at hState
    obtain ⟨hGeneration, hContent⟩ := hState
    obtain ⟨alloc, hAlloc⟩ := Option.isSome_iff_exists.1 hContent
    refine ⟨alloc, get?_eq_some.2 ?_⟩
    rw [hSlot, hGeneration, hAlloc]

theorem contains_congr {heap heap' : Arena} (h : ∀ i, heap'.stateAt i = heap.stateAt i)
    (handle : Handle) : heap'.contains handle = heap.contains handle := by
  rw [Bool.eq_iff_iff, contains_iff_stateAt, contains_iff_stateAt, h]

/-! ## Changing an allocation -/

theorem get?_modify (heap : Arena) (handle other : Handle) (change : Allocation → Allocation) :
    (heap.modify handle change).get? other =
      if other = handle then (heap.get? handle).map change else heap.get? other := by
  by_cases hIndex : handle.index.toNat = other.index.toNat
  · unfold get? modify
    rw [← hIndex, Array.getElem?_modify, if_pos rfl]
    rcases heap.slots[handle.index.toNat]? with _ | ⟨generation, content⟩
    · simp
    · simp only [Option.map_some]
      by_cases hOther : other = handle
      · subst hOther
        by_cases hGeneration : generation = other.generation <;> simp [hGeneration]
      · have hNe : handle.generation ≠ other.generation :=
          fun h => hOther (handle_eq hIndex.symm h.symm)
        rw [if_neg hOther]
        by_cases hGeneration : generation = handle.generation <;> simp [hGeneration, hNe]
  · have hOther : other ≠ handle := fun h => hIndex (by rw [h])
    unfold get? modify
    rw [if_neg hOther, Array.getElem?_modify, if_neg hIndex]

theorem get?_modify_self {heap : Arena} {handle : Handle} {change : Allocation → Allocation} :
    (heap.modify handle change).get? handle = (heap.get? handle).map change := by
  rw [get?_modify, if_pos rfl]

theorem get?_modify_of_ne {heap : Arena} {handle other : Handle}
    {change : Allocation → Allocation} (h : other ≠ handle) :
    (heap.modify handle change).get? other = heap.get? other := by
  rw [get?_modify, if_neg h]

@[simp] theorem stateAt_modify (heap : Arena) (handle : Handle)
    (change : Allocation → Allocation) (i : Nat) :
    (heap.modify handle change).stateAt i = heap.stateAt i := by
  unfold stateAt modify
  rw [Array.getElem?_modify]
  by_cases hIndex : handle.index.toNat = i
  · rw [if_pos hIndex]
    rcases heap.slots[i]? with _ | slot
    · rfl
    · by_cases hGeneration : slot.generation = handle.generation <;>
        simp [Slot.state, hGeneration]
  · rw [if_neg hIndex]

@[simp] theorem contains_modify (heap : Arena) (handle other : Handle)
    (change : Allocation → Allocation) :
    (heap.modify handle change).contains other = heap.contains other :=
  contains_congr (stateAt_modify heap handle change) other

/-! ## Releasing -/

theorem erase_of_stale {heap : Arena} {handle : Handle} (h : heap.get? handle = none) :
    heap.erase handle = heap := by
  unfold erase
  rw [h]

theorem stateAt_erase {heap : Arena} {handle : Handle} {alloc : Allocation}
    (h : heap.get? handle = some alloc) (i : Nat) :
    (heap.erase handle).stateAt i =
      if handle.index.toNat = i then some (handle.generation + 1, false) else heap.stateAt i := by
  unfold erase stateAt
  rw [h]
  simp only [Array.getElem?_modify]
  by_cases hIndex : handle.index.toNat = i
  · subst hIndex
    rw [if_pos rfl, if_pos rfl, get?_eq_some.1 h]
    rfl
  · rw [if_neg hIndex, if_neg hIndex]

theorem get?_erase (heap : Arena) (handle other : Handle) :
    (heap.erase handle).get? other = if other = handle then none else heap.get? other := by
  rcases hGet : heap.get? handle with _ | alloc
  · rw [erase_of_stale hGet]
    by_cases hOther : other = handle
    · rw [if_pos hOther, hOther, hGet]
    · rw [if_neg hOther]
  · by_cases hIndex : handle.index.toNat = other.index.toNat
    · -- The slot is now empty, and before it held no allocation of another generation.
      have hNow : (heap.erase handle).get? other = none := by
        rw [← contains_eq_false, ← Bool.not_eq_true, contains_iff_stateAt, stateAt_erase hGet,
          if_pos hIndex]
        simp
      have hBefore : other ≠ handle → heap.get? other = none := by
        intro hOther
        have hNe : handle.generation ≠ other.generation :=
          fun h => hOther (handle_eq hIndex.symm h.symm)
        have hLive := contains_iff_stateAt.1 (contains_eq_true.2 ⟨alloc, hGet⟩)
        rw [← contains_eq_false, ← Bool.not_eq_true, contains_iff_stateAt, ← hIndex, hLive]
        simp [hNe]
      by_cases hOther : other = handle
      · rw [if_pos hOther, hNow]
      · rw [if_neg hOther, hNow, hBefore hOther]
    · have hOther : other ≠ handle := fun h => hIndex (by rw [h])
      have hSlot : (heap.erase handle).slots[other.index.toNat]?
          = heap.slots[other.index.toNat]? := by
        unfold erase
        rw [hGet]
        simp only [Array.getElem?_modify, if_neg hIndex]
      rw [if_neg hOther]
      unfold get?
      rw [hSlot]

theorem contains_erase (heap : Arena) (handle other : Handle) :
    (heap.erase handle).contains other = true ↔ other ≠ handle ∧ heap.contains other = true := by
  unfold contains
  rw [get?_erase]
  by_cases hOther : other = handle <;> simp [hOther]

theorem stateAt_clear (heap : Arena) (i : Nat) :
    heap.clear.2.stateAt i = (heap.stateAt i).map fun (generation, occupied) =>
      (if occupied then generation + 1 else generation, false) := by
  unfold clear stateAt
  simp only [Array.getElem?_map, Option.map_map]
  rcases heap.slots[i]? with _ | ⟨generation, _ | alloc⟩ <;> rfl

theorem get?_clear (heap : Arena) (handle : Handle) : heap.clear.2.get? handle = none := by
  rw [← contains_eq_false, ← Bool.not_eq_true, contains_iff_stateAt, stateAt_clear]
  rcases heap.stateAt handle.index.toNat with _ | ⟨generation, occupied⟩ <;> simp

/-! ## Access through a handle -/

theorem get_of_get? {heap : Arena} {handle : Handle} {alloc : Allocation}
    (h : heap.get? handle = some alloc) : heap.get handle = .ok alloc := by
  unfold get
  rw [h]

theorem get_of_stale {heap : Arena} {handle : Handle} (h : heap.get? handle = none) :
    heap.get handle = .error .internal := by
  unfold get
  rw [h]

theorem get_eq_ok {heap : Arena} {handle : Handle} {alloc : Allocation} :
    heap.get handle = .ok alloc ↔ heap.get? handle = some alloc := by
  unfold get
  cases heap.get? handle <;> simp

/-- A result of two computations in a row comes from a result of the first. -/
theorem bind_eq_ok {ε α β : Type} {first : Except ε α} {second : α → Except ε β} {result : β} :
    (first >>= second) = .ok result ↔ ∃ value, first = .ok value ∧ second value = .ok result := by
  cases first <;> simp [bind, Except.bind]

theorem map_eq_ok {α β : Type} {first : Except Fault α} {change : α → β} {result : β} :
    first.map change = .ok result ↔ ∃ value, first = .ok value ∧ change value = result := by
  cases first <;> simp [Except.map]

theorem position_eq_ok {heap : Arena} {handle : Handle} {index : Int64} {position : Nat} :
    heap.position handle index = .ok position ↔
      ∃ alloc, heap.get? handle = some alloc ∧
        (0 ≤ index.toInt ∧ index.toInt < alloc.limit) ∧ position = index.toInt.toNat := by
  unfold Arena.position Allocation.position
  simp only [bind_eq_ok, get_eq_ok]
  refine exists_congr fun alloc => and_congr_right fun _ => ?_
  by_cases hIndex : 0 ≤ index.toInt ∧ index.toInt < alloc.limit <;>
    simp [hIndex, eq_comm]

theorem positionUnchecked_eq_ok {heap : Arena} {handle : Handle} {index position : Nat} :
    heap.positionUnchecked handle index = .ok position ↔
      ∃ alloc, heap.get? handle = some alloc ∧ index < alloc.capacity ∧ position = index := by
  unfold Arena.positionUnchecked Allocation.positionUnchecked
  simp only [bind_eq_ok, get_eq_ok]
  refine exists_congr fun alloc => and_congr_right fun _ => ?_
  by_cases hIndex : index < alloc.capacity <;> simp [hIndex, eq_comm]

theorem contains_of_position {heap : Arena} {handle : Handle} {index : Int64} {position : Nat}
    (h : heap.position handle index = .ok position) : heap.contains handle = true := by
  obtain ⟨alloc, hGet, _⟩ := position_eq_ok.1 h
  exact contains_eq_true.2 ⟨alloc, hGet⟩

theorem contains_of_positionUnchecked {heap : Arena} {handle : Handle} {index position : Nat}
    (h : heap.positionUnchecked handle index = .ok position) : heap.contains handle = true := by
  obtain ⟨alloc, hGet, _⟩ := positionUnchecked_eq_ok.1 h
  exact contains_eq_true.2 ⟨alloc, hGet⟩

/-- What a checked store does when it succeeds. -/
theorem store_eq_ok {heap heap' : Arena} {handle : Handle} {index : Int64} {value : Value}
    (h : heap.store handle index value = .ok heap') :
    ∃ alloc, heap.get? handle = some alloc ∧ index.toInt.toNat < alloc.limit ∧
      heap' = heap.modify handle (·.write index.toInt.toNat value) := by
  obtain ⟨position, hPosition, hWrite⟩ := bind_eq_ok.1 h
  obtain ⟨alloc, hGet, hIndex, rfl⟩ := position_eq_ok.1 hPosition
  cases hWrite
  exact ⟨alloc, hGet, by omega, rfl⟩

/-- What an unchecked store does when it succeeds. -/
theorem storeUnchecked_eq_ok {heap heap' : Arena} {handle : Handle} {index : Nat}
    {value : Value} (h : heap.storeUnchecked handle index value = .ok heap') :
    ∃ alloc, heap.get? handle = some alloc ∧ index < alloc.capacity ∧
      heap' = heap.modify handle (·.write index value) := by
  obtain ⟨position, hPosition, hWrite⟩ := bind_eq_ok.1 h
  obtain ⟨alloc, hGet, hIndex, rfl⟩ := positionUnchecked_eq_ok.1 hPosition
  cases hWrite
  exact ⟨alloc, hGet, hIndex, rfl⟩

theorem setFlag_eq_ok {heap heap' : Arena} {handle : Handle} {index : Int64} {flagged : Bool}
    (h : heap.setFlag handle index flagged = .ok heap') :
    heap' = heap.modify handle (·.setFlag index.toInt.toNat flagged) := by
  obtain ⟨position, hPosition, hFlag⟩ := bind_eq_ok.1 h
  obtain ⟨alloc, hGet, hIndex, rfl⟩ := position_eq_ok.1 hPosition
  cases hFlag
  rfl

theorem setMode_eq_ok {heap heap' : Arena} {handle : Handle} {mode : TraceMode}
    (h : heap.setMode handle mode = .ok heap') :
    heap' = heap.modify handle (·.setMode mode) := by
  unfold setMode at h
  split at h
  · cases h
    rfl
  · cases h

theorem release_eq_ok {heap heap' : Arena} {handle : Handle}
    (h : heap.release handle = .ok heap') :
    heap.contains handle = true ∧ heap' = heap.erase handle := by
  unfold release at h
  split at h
  · rename_i hLive
    cases h
    exact ⟨hLive, rfl⟩
  · cases h

theorem allocate_eq_ok {heap heap' : Arena} {size : UInt16} {mode : TraceMode}
    {handle : Handle} (h : heap.allocate size mode = .ok (handle, heap')) :
    heap.isFull = false ∧ handle = (heap.insert size mode).1 ∧
      heap' = (heap.insert size mode).2 := by
  unfold allocate at h
  split at h
  · cases h
  · rename_i hFull
    simp only [Except.ok.injEq] at h
    exact ⟨by simpa using hFull, by rw [h], by rw [h]⟩

end Arena

end RegisterMachine

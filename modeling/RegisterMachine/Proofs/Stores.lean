-- Stores that are used again. The three arrays of an allocation keep one common
-- length, also while the allocation waits in the pool. Under this a released
-- array that is recycled is the new array of its capacity: nothing of what its
-- last owner left in it is seen by the next one.
import RegisterMachine.Heap.Arena

namespace RegisterMachine

namespace Allocation

/-- The three arrays have one length, which the limit does not exceed. -/
structure Uniform (alloc : Allocation) : Prop where
  written : alloc.written.size = alloc.capacity
  flagged : alloc.flagged.size = alloc.capacity
  limit_le : alloc.limit ≤ alloc.capacity

variable {alloc : Allocation}

@[simp]
theorem capacity_fresh (capacity limit : Nat) (mode : TraceMode) :
    (fresh capacity limit mode).capacity = capacity := by
  simp [fresh, Allocation.capacity]

@[simp]
theorem capacity_write (position : Nat) (value : Value) :
    (alloc.write position value).capacity = alloc.capacity := by
  simp [write, capacity]

@[simp]
theorem capacity_setMark (mark : UInt32) : (alloc.setMark mark).capacity = alloc.capacity := rfl

theorem uniform_fresh {capacity limit : Nat} (h : limit ≤ capacity) (mode : TraceMode) :
    (fresh capacity limit mode).Uniform where
  written := by simp [fresh, Allocation.capacity]
  flagged := by simp [fresh, Allocation.capacity]
  limit_le := by rwa [capacity_fresh]

namespace Uniform

variable (h : alloc.Uniform)

include h

theorem write (position : Nat) (value : Value) : (alloc.write position value).Uniform where
  written := by simpa [Allocation.write, capacity] using h.written
  flagged := by simpa [Allocation.write, capacity] using h.flagged
  limit_le := by rw [capacity_write]; exact h.limit_le

theorem setFlag (position : Nat) (flagged : Bool) : (alloc.setFlag position flagged).Uniform where
  written := h.written
  flagged := by simpa [Allocation.setFlag, capacity] using h.flagged
  limit_le := h.limit_le

theorem setMode (mode : TraceMode) : (alloc.setMode mode).Uniform := ⟨h.1, h.2, h.3⟩

theorem setMark (mark : UInt32) : (alloc.setMark mark).Uniform := ⟨h.1, h.2, h.3⟩

/-- A recycled array is the new one of its capacity. -/
theorem recycle_eq_fresh (limit : Nat) (mode : TraceMode) :
    alloc.recycle limit mode = fresh alloc.capacity limit mode := by
  have hClear : ∀ {α β : Type} (entries : Array α) (value : β),
      (entries.map fun _ => value) = Array.replicate entries.size value := by
    intro α β entries value
    exact Array.ext (by simp) (by simp)
  unfold recycle fresh
  rw [hClear alloc.values, hClear alloc.written, hClear alloc.flagged, h.written, h.flagged,
    capacity]

end Uniform

end Allocation

/-! ## The pool -/

namespace Arena

variable {pool : Array Allocation} {size : Nat} {mode : TraceMode}

theorem mem_of_mem_swapRemove {α : Type} {entries : Array α} {i : Nat} {entry : α}
    (h : entry ∈ swapRemove entries i) : entry ∈ entries := by
  unfold swapRemove at h
  split at h
  · rename_i last hBack
    have hSet : entry ∈ entries.setIfInBounds i last := by
      rw [← Array.mem_toList_iff, Array.toList_pop] at h
      exact Array.mem_toList_iff.1 (List.dropLast_subset _ h)
    rcases Array.mem_or_eq_of_mem_setIfInBounds hSet with hOld | rfl
    · exact hOld
    · exact Array.mem_of_back? hBack
  · exact h

theorem swapRemove_map {α β : Type} (view : α → β) (entries : Array α) (i : Nat) :
    swapRemove (entries.map view) i = (swapRemove entries i).map view := by
  unfold swapRemove
  rw [Array.back?_map]
  rcases entries.back? with _ | last
  · rfl
  · simp only [Option.map_some, Array.map_pop, Array.map_setIfInBounds]

/-- What is taken out of a pool was in it and has room. -/
theorem takeReleased_eq_some {released : Allocation}
    (h : (takeReleased pool size).1 = some released) :
    released ∈ pool ∧ size ≤ released.capacity := by
  unfold takeReleased at h
  split at h
  · rename_i i hFind
    obtain ⟨hlt, hle, -⟩ := Array.findIdx?_eq_some_iff_getElem.1 hFind
    rw [Array.getElem?_eq_getElem hlt] at h
    cases h
    exact ⟨Array.getElem_mem hlt, by simpa using hle⟩
  · cases h

theorem mem_of_mem_takeReleased {alloc : Allocation} (h : alloc ∈ (takeReleased pool size).2) :
    alloc ∈ pool := by
  unfold takeReleased at h
  split at h
  · exact mem_of_mem_swapRemove h
  · exact h

/-- Only the capacities decide which allocation is taken. -/
theorem takeReleased_map {view : Allocation → Allocation}
    (hView : ∀ alloc, (view alloc).capacity = alloc.capacity) :
    takeReleased (pool.map view) size =
      ((takeReleased pool size).1.map view, (takeReleased pool size).2.map view) := by
  have hFind : (pool.map view).findIdx? (size ≤ ·.capacity) =
      pool.findIdx? (size ≤ ·.capacity) := by
    rw [Array.findIdx?_map]
    congr 1
    funext alloc
    exact congrArg (fun capacity => decide (size ≤ capacity)) (hView alloc)
  unfold takeReleased
  rw [hFind]
  rcases hFound : pool.findIdx? (size ≤ ·.capacity) with _ | i
  · rw [hFound]
    rfl
  · rw [hFound]
    simp only [Array.getElem?_map, swapRemove_map]

theorem supply_snd : (supply pool size mode).2 = (takeReleased pool size).2 := by
  unfold supply
  rcases takeReleased pool size with ⟨_ | released, rest⟩ <;> rfl

/-- The capacity of the array that an allocation of `size` slots gets. -/
def suppliedCapacity (pool : Array Allocation) (size : Nat) : Nat :=
  ((takeReleased pool size).1.map Allocation.capacity).getD size

theorem le_suppliedCapacity (pool : Array Allocation) (size : Nat) :
    size ≤ suppliedCapacity pool size := by
  unfold suppliedCapacity
  rcases hTake : (takeReleased pool size).1 with _ | released
  · exact Nat.le_refl size
  · exact (takeReleased_eq_some hTake).2

theorem suppliedCapacity_map {view : Allocation → Allocation}
    (hView : ∀ alloc, (view alloc).capacity = alloc.capacity) :
    suppliedCapacity (pool.map view) size = suppliedCapacity pool size := by
  unfold suppliedCapacity
  rw [takeReleased_map hView, Option.map_map,
    show Allocation.capacity ∘ view = Allocation.capacity from funext hView]

/-- Whatever the pool holds, the array that it supplies is as a new one. -/
theorem supply_fst (hPool : ∀ released ∈ pool, released.Uniform) :
    (supply pool size mode).1 = .fresh (suppliedCapacity pool size) size mode := by
  unfold supply suppliedCapacity
  rcases hTake : takeReleased pool size with ⟨_ | released, rest⟩
  · rfl
  · have hMem := (takeReleased_eq_some (congrArg Prod.fst hTake)).1
    exact (hPool released hMem).recycle_eq_fresh size mode

end Arena

end RegisterMachine

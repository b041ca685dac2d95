-- The heap without its pool. The bare form of a heap has stores that are cut to the limits
-- of their arrays, and keeps no allocation for reuse. What an operation does to a heap it
-- does to the bare form as well, since a recycled array, cut to its limit, is a new one. So
-- nothing that an operation answers depends on the pool.
import RegisterMachine.Collector.Memory
import RegisterMachine.Proofs.ArenaSound
import RegisterMachine.Proofs.FrameStack

namespace RegisterMachine

/-! ## Allocations -/

section Cut

variable {α : Type} (entries : Array α) (limit : Nat)

theorem getElem?_cut {i : Nat} (h : i < limit) :
    (entries.extract 0 limit)[i]? = entries[i]? := by
  rw [Array.getElem?_extract, Nat.sub_zero, Nat.zero_add]
  by_cases hSize : i < entries.size
  · rw [if_pos (by omega)]
  · rw [if_neg (by omega), Array.getElem?_eq_none (by omega)]

theorem cut_set (position : Nat) (entry : α) :
    (entries.setIfInBounds position entry).extract 0 limit =
      (entries.extract 0 limit).setIfInBounds position entry := by
  apply Array.ext_getElem?
  intro i
  simp only [Array.getElem?_extract, Array.getElem?_setIfInBounds, Array.size_setIfInBounds,
    Array.size_extract, Nat.sub_zero, Nat.zero_add]
  by_cases hi : i < min limit entries.size
  · rw [if_pos hi, if_pos hi]
    by_cases hPosition : position = i
    · rw [if_pos hPosition, if_pos hPosition, if_pos (by omega), if_pos (by omega)]
    · rw [if_neg hPosition, if_neg hPosition]
  · rw [if_neg hi, if_neg hi]
    by_cases hPosition : position = i
    · rw [if_pos hPosition, if_neg (by omega)]
    · rw [if_neg hPosition]

end Cut

namespace Allocation

/-- The array with a store of just its slots. -/
def bare (alloc : Allocation) : Allocation :=
  { alloc with
    values := alloc.values.extract 0 alloc.limit
    written := alloc.written.extract 0 alloc.limit
    flagged := alloc.flagged.extract 0 alloc.limit }

theorem limit_bare (alloc : Allocation) : alloc.bare.limit = alloc.limit := rfl

section Below

variable {alloc : Allocation} {i : Nat} (h : i < alloc.limit)

include h

theorem values_bare : alloc.bare.values[i]? = alloc.values[i]? := getElem?_cut _ _ h

theorem written_bare : alloc.bare.written[i]? = alloc.written[i]? := getElem?_cut _ _ h

theorem flagged_bare : alloc.bare.flagged[i]? = alloc.flagged[i]? := getElem?_cut _ _ h

theorem follows_bare : alloc.bare.follows i = alloc.follows i := by
  unfold follows isWritten isFlagged
  rw [written_bare h, flagged_bare h]
  rfl

end Below

theorem bare_write (alloc : Allocation) (position : Nat) (value : Value) :
    (alloc.write position value).bare = alloc.bare.write position value := by
  simp only [bare, write, cut_set]

theorem bare_setFlag (alloc : Allocation) (position : Nat) (flagged : Bool) :
    (alloc.setFlag position flagged).bare = alloc.bare.setFlag position flagged := by
  simp only [bare, setFlag, cut_set]

theorem bare_setMode (alloc : Allocation) (mode : TraceMode) :
    (alloc.setMode mode).bare = alloc.bare.setMode mode := rfl

theorem bare_setMark (alloc : Allocation) (mark : UInt32) :
    (alloc.setMark mark).bare = alloc.bare.setMark mark := rfl

theorem bare_fresh {capacity limit : Nat} (h : limit ≤ capacity) (mode : TraceMode) :
    (fresh capacity limit mode).bare = fresh limit limit mode := by
  simp only [fresh, bare, Array.extract_replicate, Nat.min_eq_left h, Nat.sub_zero]

theorem children_bare (alloc : Allocation) : alloc.bare.children = alloc.children := by
  unfold children
  rw [limit_bare, List.filter_congr fun i hi => follows_bare (List.mem_range.1 hi)]
  refine List.filterMap_congr fun i hi => ?_
  rw [values_bare (List.mem_range.1 (List.mem_of_mem_filter hi))]

theorem position_bare (alloc : Allocation) (index : Int64) :
    alloc.bare.position index = alloc.position index := rfl

theorem load_bare (alloc : Allocation) (index : Int64) :
    alloc.bare.load index = alloc.load index := by
  unfold load
  rw [position_bare]
  rcases hPosition : alloc.position index with fault | position
  · rfl
  · have hLimit : position < alloc.limit := by
      unfold Allocation.position at hPosition
      simp only at hPosition
      split at hPosition
      · cases hPosition
        omega
      · cases hPosition
    simp only [bind, Except.bind, written_bare hLimit, values_bare hLimit]

theorem loadUnchecked_bare {alloc : Allocation} {index : Nat} (h : index < alloc.limit) :
    alloc.bare.loadUnchecked index = alloc.loadUnchecked index := by
  unfold loadUnchecked
  rw [values_bare h]

theorem positionUnchecked_bare {alloc : Allocation} {index : Nat} (h : index < alloc.limit) :
    alloc.bare.positionUnchecked index = alloc.positionUnchecked index := by
  have hCapacity : index < alloc.bare.capacity ↔ index < alloc.capacity := by
    simp only [bare, capacity, Array.size_extract]
    omega
  unfold positionUnchecked
  simp only [hCapacity]

end Allocation

/-! ## The arena -/

def Slot.bare (slot : Slot) : Slot := { slot with content := slot.content.map Allocation.bare }

namespace Arena

/-- The arena with bare stores and without a pool. -/
def bare (heap : Arena) : Arena :=
  { heap with slots := heap.slots.map Slot.bare, pool := #[], poolLimit := 0 }

theorem get?_bare (heap : Arena) (handle : Handle) :
    heap.bare.get? handle = (heap.get? handle).map Allocation.bare := by
  unfold get? bare
  simp only [Array.getElem?_map]
  rcases heap.slots[handle.index.toNat]? with _ | slot
  · rfl
  · by_cases hGeneration : slot.generation = handle.generation <;>
      simp [Slot.bare, hGeneration]

theorem get_bare (heap : Arena) (handle : Handle) :
    heap.bare.get handle = (heap.get handle).map Allocation.bare := by
  unfold get
  rw [get?_bare]
  rcases heap.get? handle with _ | alloc <;> rfl

theorem contains_bare (heap : Arena) : heap.bare.contains = heap.contains := by
  funext handle
  unfold contains
  rw [get?_bare, Option.isSome_map]

theorem isMarked_bare (heap : Arena) (handle : Handle) (epoch : UInt32) :
    heap.bare.isMarked handle epoch = heap.isMarked handle epoch := by
  unfold isMarked
  rw [get?_bare]
  rcases heap.get? handle with _ | alloc <;> rfl

theorem isFull_bare (heap : Arena) : heap.bare.isFull = heap.isFull := by
  unfold isFull bare
  simp

theorem load_bare (heap : Arena) (handle : Handle) (index : Int64) :
    heap.bare.load handle index = heap.load handle index := by
  unfold load
  rw [get_bare]
  rcases heap.get handle with fault | alloc
  · rfl
  · exact alloc.load_bare index

theorem position_bare (heap : Arena) (handle : Handle) (index : Int64) :
    heap.bare.position handle index = heap.position handle index := by
  unfold position
  rw [get_bare]
  rcases heap.get handle with fault | alloc <;> rfl

section Unchecked

variable {heap : Arena} {handle : Handle} {index : Nat}
  (h : ∀ alloc, heap.get? handle = some alloc → index < alloc.limit)

include h

theorem loadUnchecked_bare :
    heap.bare.loadUnchecked handle index = heap.loadUnchecked handle index := by
  unfold loadUnchecked
  rw [get_bare]
  rcases hGet : heap.get handle with fault | alloc
  · rfl
  · exact Allocation.loadUnchecked_bare (h alloc (get_eq_ok.1 hGet))

theorem positionUnchecked_bare :
    heap.bare.positionUnchecked handle index = heap.positionUnchecked handle index := by
  unfold positionUnchecked
  rw [get_bare]
  rcases hGet : heap.get handle with fault | alloc
  · rfl
  · exact Allocation.positionUnchecked_bare (h alloc (get_eq_ok.1 hGet))

end Unchecked

/-! ## Changing the arena -/

theorem map_modify {α β : Type} {view : α → β} {change : α → α} {change' : β → β}
    (h : ∀ entry, view (change entry) = change' (view entry)) (entries : Array α) (i : Nat) :
    (entries.modify i change).map view = (entries.map view).modify i change' := by
  apply Array.ext_getElem?
  intro j
  simp only [Array.getElem?_map, Array.getElem?_modify]
  split
  · rcases entries[j]? with _ | entry
    · rfl
    · exact congrArg some (h entry)
  · rfl

theorem bare_modify {change : Allocation → Allocation} (heap : Arena) (handle : Handle)
    (h : ∀ alloc, (change alloc).bare = change alloc.bare) :
    (heap.modify handle change).bare = heap.bare.modify handle change := by
  simp only [bare, modify, mk.injEq, and_true]
  apply map_modify
  rintro ⟨generation, content⟩
  by_cases hGeneration : generation = handle.generation
  · rcases content with _ | alloc <;> simp [Slot.bare, hGeneration, h]
  · simp [Slot.bare, hGeneration]

theorem bare_write (heap : Arena) (handle : Handle) (position : Nat) (value : Value) :
    (heap.write handle position value).bare = heap.bare.write handle position value :=
  heap.bare_modify handle fun alloc => alloc.bare_write position value

theorem place_bare (heap : Arena) (alloc : Allocation) :
    heap.bare.place alloc.bare = ((heap.place alloc).1, (heap.place alloc).2.bare) := by
  have hSlots : ∀ index : Nat,
      (heap.slots.modify index fun slot => { slot with content := some alloc }).map Slot.bare =
        (heap.slots.map Slot.bare).modify index fun slot =>
          { slot with content := some alloc.bare } := by
    intro index
    apply map_modify
    intro slot
    rfl
  unfold place
  rw [show heap.bare.vacant = heap.vacant from rfl]
  rcases heap.vacant.back? with _ | index
  · simp [bare, Slot.bare]
  · simp only [bare, hSlots, Array.getElem?_map, Option.map_map]
    rfl

/-- The new array is put into the same slot, whatever store it gets: the old pool may give
a recycled one, the bare one gives none, and cut to the limit both are new. -/
theorem insert_bare {heap : Arena} (hs : heap.Sound) (size : UInt16) (mode : TraceMode) :
    heap.bare.insert size mode = ((heap.insert size mode).1, (heap.insert size mode).2.bare) := by
  have hNew : (supply heap.pool size.toNat mode).1.bare = .fresh size.toNat size.toNat mode := by
    rw [supply_fst hs.pooled]
    exact Allocation.bare_fresh (le_suppliedCapacity heap.pool size.toNat) mode
  have hNone : supply heap.bare.pool size.toNat mode =
      (.fresh size.toNat size.toNat mode, heap.bare.pool) := by
    simp [supply, takeReleased, bare]
  unfold insert
  rw [hNone, ← hNew]
  exact place_bare { heap with pool := (supply heap.pool size.toNat mode).2 } _

theorem bare_erase (heap : Arena) (handle : Handle) :
    (heap.erase handle).bare = heap.bare.erase handle := by
  have hSlots : (heap.slots.modify handle.index.toNat Slot.vacate).map Slot.bare =
      (heap.slots.map Slot.bare).modify handle.index.toNat Slot.vacate := by
    apply map_modify
    intro slot
    rfl
  unfold erase
  rw [get?_bare]
  rcases heap.get? handle with _ | alloc
  · rfl
  · simp [bare, hSlots]

theorem eraseMarks_bare (heap : Arena) : heap.bare.eraseMarks = heap.eraseMarks.bare := by
  unfold eraseMarks bare
  simp only [Array.map_map]
  congr 2
  funext slot
  rcases slot with ⟨generation, _ | alloc⟩ <;> rfl

theorem nextEpoch_bare (heap : Arena) :
    heap.bare.nextEpoch = (heap.nextEpoch.1, heap.nextEpoch.2.bare) := by
  unfold nextEpoch
  rw [eraseMarks_bare, show heap.bare.epoch = heap.epoch from rfl]
  simp only
  split <;> rfl

theorem markFrom_bare (epoch : UInt32) (work : List Handle) (visited : Array Handle)
    (heap : Arena) :
    heap.bare.markFrom epoch work visited =
      ((heap.markFrom epoch work visited).1.bare, (heap.markFrom epoch work visited).2) := by
  -- The walk over the bare form takes the same branch at every handle, since marks and
  -- children are the same.
  fun_induction markFrom epoch work visited heap with
  | case1 => rw [markFrom]
  | case2 visited heap handle rest hGet ih =>
    rw [markFrom]
    split
    · exact ih
    · simp [get?_bare, hGet] at *
  | case3 visited heap handle rest alloc hGet hMark ih =>
    rw [markFrom]
    split
    · simp [get?_bare, hGet] at *
    · rename_i found hFound
      rw [get?_bare, hGet] at hFound
      cases hFound
      rw [dif_pos (show alloc.bare.mark = epoch from hMark)]
      exact ih
  | case4 visited heap handle rest alloc hGet hMark work ih =>
    rw [markFrom]
    split
    · simp [get?_bare, hGet] at *
    · rename_i found hFound
      rw [get?_bare, hGet] at hFound
      cases hFound
      have hModify := heap.bare_modify handle fun alloc => alloc.bare_setMark epoch
      rw [dif_neg (show ¬ alloc.bare.mark = epoch from hMark), Allocation.children_bare, ← hModify]
      exact ih

theorem mark_bare (heap : Arena) (roots : List Handle) :
    heap.bare.mark roots =
      ((heap.mark roots).1, (heap.mark roots).2.1, (heap.mark roots).2.2.bare) := by
  unfold mark
  rw [nextEpoch_bare]
  simp only
  rw [markFrom_bare]

end Arena

/-! ## Frames -/

theorem Frame.compact_bare (frame : Frame) (heap : Arena) :
    frame.compact heap.bare = frame.compact heap := by
  unfold compact
  rw [heap.contains_bare]

theorem Collector.register_bare (collector : Collector) (heap : Arena) (handle : Handle) :
    collector.register heap.bare handle = collector.register heap handle := by
  unfold register Frame.own
  simp only [Frame.compact_bare]

theorem Collector.addTrace_bare (collector : Collector) (heap : Arena) (handle : Handle) :
    collector.addTrace heap.bare handle = collector.addTrace heap handle := by
  unfold addTrace Frame.trace Frame.pushTrace
  simp only [Frame.compact_bare]

namespace Memory

def bare (memory : Memory) : Memory := { memory with heap := memory.heap.bare }

theorem insert_bare {memory : Memory} (hs : memory.heap.Sound) (size : UInt16)
    (mode : TraceMode) :
    memory.bare.insert size mode =
      ((memory.insert size mode).1, (memory.insert size mode).2.bare) := by
  unfold insert
  rw [show memory.bare.heap = memory.heap.bare from rfl, Arena.insert_bare hs]
  simp only [Collector.register_bare]
  rfl

theorem bare_free (memory : Memory) (handle : Handle) :
    (memory.free handle).bare = memory.bare.free handle := by
  unfold free bare
  simp only [Arena.bare_erase]

theorem sweepOne_bare (epoch : UInt32) (state : SweepReport × Memory) (handle : Handle) :
    sweepOne epoch (state.1, state.2.bare) handle =
      ((sweepOne epoch state handle).1, (sweepOne epoch state handle).2.bare) := by
  unfold sweepOne bare
  simp only [Arena.contains_bare, Arena.isMarked_bare, Collector.register_bare]
  split
  · split
    · rfl
    · simp only [Arena.bare_erase]
  · rfl

theorem foldl_sweepOne_bare (epoch : UInt32) (entries : Array Handle)
    (state : SweepReport × Memory) :
    entries.foldl (sweepOne epoch) (state.1, state.2.bare) =
      ((entries.foldl (sweepOne epoch) state).1, (entries.foldl (sweepOne epoch) state).2.bare) :=
  Array.foldl_hom (fun state : SweepReport × Memory => (state.1, state.2.bare))
    (sweepOne_bare epoch)

theorem closeFrame_bare (memory : Memory) :
    memory.bare.closeFrame = (memory.closeFrame.1, memory.closeFrame.2.bare) := by
  unfold closeFrame
  rw [show memory.bare.collector = memory.collector from rfl]
  rcases memory.collector.frames.back? with _ | frame
  · rfl
  · simp only [show memory.bare.heap = memory.heap.bare from rfl, Arena.mark_bare]
    exact foldl_sweepOne_bare _ frame.owned ({}, ⟨_, memory.collector.pop⟩)

theorem closeFrames_bare (n : Nat) (total : SweepReport) (memory : Memory) :
    closeFrames n total memory.bare =
      ((closeFrames n total memory).1, (closeFrames n total memory).2.bare) := by
  induction n generalizing total memory with
  | zero => rfl
  | succ n ih =>
    rw [closeFrames, closeFrame_bare]
    exact ih _ _

theorem unwind_bare (memory : Memory) :
    memory.bare.unwind = (memory.unwind.1, memory.unwind.2.bare) :=
  closeFrames_bare _ _ _

theorem bare_make (heapLimit poolLimit frameLimit : Nat) :
    (make heapLimit poolLimit frameLimit).bare = make heapLimit 0 frameLimit := by
  simp [bare, make, Arena.bare]

end Memory

end RegisterMachine

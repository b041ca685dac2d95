-- Marking: the allocations that can be reached from some roots. Each pass has
-- a number of its own, so that the marks of earlier passes count for nothing.
import RegisterMachine.Heap.Arena

namespace RegisterMachine.Arena

/-! ## Passes -/

/-- Takes the marks off every allocation. -/
def eraseMarks (heap : Arena) : Arena :=
  { heap with
    slots := heap.slots.map fun slot => { slot with content := slot.content.map (·.setMark 0) } }

/-- The number of a new marking pass. When the numbers start again, the old
marks are erased. -/
def nextEpoch (heap : Arena) : UInt32 × Arena :=
  let epoch := heap.epoch + 1
  if epoch = 0 then (1, { heap.eraseMarks with epoch := 1 })
  else (epoch, { heap with epoch })

/-- Whether a live allocation was reached by the pass `epoch`. -/
def isMarked (heap : Arena) (handle : Handle) (epoch : UInt32) : Bool :=
  (heap.get? handle).any (·.mark = epoch)

/-- Whether a slot holds an allocation that the pass `epoch` has not reached. -/
def awaits (epoch : UInt32) (slot : Slot) : Bool :=
  slot.content.any (·.mark ≠ epoch)

/-- The number of allocations that the pass `epoch` has not reached. -/
def unmarkedCount (heap : Arena) (epoch : UInt32) : Nat :=
  heap.slots.countP (awaits epoch)

/-! ## The walk -/

theorem get?_eq_some {heap : Arena} {handle : Handle} {alloc : Allocation} :
    heap.get? handle = some alloc ↔
      heap.slots[handle.index.toNat]? = some ⟨handle.generation, some alloc⟩ := by
  unfold get?
  constructor
  · intro h
    split at h
    · rename_i slot hslot
      split at h
      · rename_i hgen
        rw [hslot, ← h, ← hgen]
      · cases h
    · cases h
  · intro h
    simp [h]

theorem modify_eq_set {α : Type} {entries : Array α} {i : Nat} (h : i < entries.size)
    (f : α → α) : entries.modify i f = entries.set i (f entries[i]) h := by
  apply Array.ext_getElem?
  intro j
  rw [Array.getElem?_modify, Array.getElem?_set]
  split
  · rename_i hij
    subst hij
    simp [h]
  · rfl

/-- Marking an allocation that was not marked leaves one fewer. -/
theorem unmarkedCount_setMark {heap : Arena} {handle : Handle} {alloc : Allocation}
    {epoch : UInt32} (hget : heap.get? handle = some alloc) (hmark : alloc.mark ≠ epoch) :
    (heap.modify handle (·.setMark epoch)).unmarkedCount epoch < heap.unmarkedCount epoch := by
  have hslot := get?_eq_some.1 hget
  obtain ⟨hlt, heq⟩ := Array.getElem?_eq_some_iff.1 hslot
  have hpos : 0 < heap.slots.countP (awaits epoch) :=
    Array.countP_pos_iff.2 ⟨_, Array.getElem_mem hlt, by simp [heq, awaits, hmark]⟩
  simp only [unmarkedCount, modify, modify_eq_set hlt, Array.countP_set, heq]
  simp only [awaits, Allocation.setMark, Option.map_some, Option.any_some, hmark,
    ne_eq, not_false_eq_true, decide_true, if_true, not_true_eq_false, decide_false,
    Bool.false_eq_true, if_false]
  omega

/-- Marks every live allocation that can be reached from the handles of `work`,
and puts each newly marked one behind `visited`. Stale handles are passed over,
and an allocation that is marked is not visited again. -/
def markFrom (epoch : UInt32) (work : List Handle) (visited : Array Handle) (heap : Arena) :
    Arena × Array Handle :=
  match work with
  | [] => (heap, visited)
  | handle :: rest =>
    match _hget : heap.get? handle with
    | none => markFrom epoch rest visited heap
    | some alloc =>
      if _hmark : alloc.mark = epoch then markFrom epoch rest visited heap
      else
        let work := alloc.children.reverse ++ rest
        markFrom epoch work (visited.push handle) (heap.modify handle (·.setMark epoch))
termination_by (heap.unmarkedCount epoch, work.length)
decreasing_by
  · exact Prod.Lex.right _ (by simp)
  · exact Prod.Lex.right _ (by simp)
  · exact Prod.Lex.left _ _ (unmarkedCount_setMark _hget _hmark)

/-- Runs a marking pass from `roots`, of which the last is visited first. Gives
the number of the pass and the allocations in the order in which they were
reached. -/
def mark (heap : Arena) (roots : List Handle) : UInt32 × Array Handle × Arena :=
  let (epoch, heap) := heap.nextEpoch
  let (heap, visited) := heap.markFrom epoch roots.reverse #[]
  (epoch, visited, heap)

end RegisterMachine.Arena

-- Allocating, releasing and closing frames, step by step. Each step finds the
-- memory as the steps before it have left it, and may fail; what was done before
-- the fault stays done. `Memory` has the same operations with every check in front.
import RegisterMachine.Collector.Memory

namespace RegisterMachine

/-- Work on a state, which ends with a result or with a fault. Either way the
state is left as the work has made it. -/
abbrev Attempt (state α : Type) := EStateM Fault state α

namespace Attempt

variable {state part α : Type}

/-- Looks at the state, and leaves it as it is. -/
def look (read : state → Except Fault α) : Attempt state α := fun s =>
  match read s with
  | .ok value => .ok value s
  | .error fault => .error fault s

/-- Changes the state in one piece, or leaves it as it is. -/
def alter (change : state → Except Fault state) : Attempt state Unit := fun s =>
  match change s with
  | .ok changed => .ok () changed
  | .error fault => .error fault s

/-- Works on a part of the state. -/
def within (read : state → part) (put : part → state → state) (attempt : Attempt part α) :
    Attempt state α := fun s =>
  match attempt (read s) with
  | .ok value p => .ok value (put p s)
  | .error fault p => .error fault (put p s)

end Attempt

/-- Makes an allocation. The array is taken out of the pool before it is known
whether there is a slot for it. -/
def Arena.tryAllocate (size : UInt16) (mode : TraceMode) : Attempt Arena Handle := do
  let heap ← getThe Arena
  if heap.limit ≤ heap.live then throw .memory
  let (alloc, pool) := supply heap.pool size.toNat mode
  set { heap with pool }
  if heap.vacant.isEmpty ∧ UInt32.size ≤ heap.slots.size then throw .memory
  let (handle, heap) := { heap with pool }.place alloc
  set heap
  return handle

/-- Releases the allocation of a live handle. -/
def Arena.tryRelease (handle : Handle) : Attempt Arena Unit := Attempt.alter (·.release handle)

namespace Memory

/-- Works on the heap. -/
def onHeap {α : Type} (attempt : Attempt Arena α) : Attempt Memory α :=
  attempt.within Memory.heap fun heap memory => { memory with heap }

/-- Works on the frames, with a view of the heap. -/
def onCollector (change : Arena → Collector → Collector) : Attempt Memory Unit :=
  Attempt.alter fun memory =>
    .ok { memory with collector := change memory.heap memory.collector }

/-- Makes an allocation for the current frame. -/
def tryAllocate (size : UInt16) (mode : TraceMode) : Attempt Memory Handle := do
  let handle ← onHeap (Arena.tryAllocate size mode)
  onCollector fun heap collector => collector.register heap handle
  return handle

/-- Releases an allocation and drops it from the current frame. -/
def tryFree (handle : Handle) : Attempt Memory Unit := do
  onHeap (Arena.tryRelease handle)
  onCollector fun _ collector => collector.forget handle

/-! ## Closing frames -/

/-- Decides about one allocation of a closed frame. -/
def trySweepOne (epoch : UInt32) (report : SweepReport) (handle : Handle) :
    Attempt Memory SweepReport := do
  let heap := (← getThe Memory).heap
  if heap.contains handle then
    if heap.isMarked handle epoch then
      onCollector fun heap collector => collector.register heap handle
      return { report with promoted := report.promoted + 1 }
    else
      onHeap (Arena.tryRelease handle)
      return { report with released := report.released + 1 }
  else return report

/-- Closes the innermost frame: it is taken off the stack first, then the heap is
marked, then its allocations are handed down or released, one after the other. -/
def tryClean : Attempt Memory SweepReport := do
  let memory ← getThe Memory
  match memory.collector.frames.back? with
  | none => throw .internal
  | some frame =>
    let collector := { memory.collector with frames := memory.collector.frames.pop }
    let (epoch, _, heap) := memory.heap.mark frame.traced.toList
    set ({ heap, collector } : Memory)
    frame.owned.toList.foldlM (trySweepOne epoch) {}

/-- Closes the `n` innermost frames, and stops at one that cannot be closed. -/
def tryCleans : Nat → SweepReport → Attempt Memory SweepReport
  | 0, total => pure total
  | n + 1, total => do
    let report ← tryClean
    tryCleans n (total.add report)

/-- Closes every frame above the root. -/
def tryUnwind : Attempt Memory SweepReport := do
  tryCleans (← getThe Memory).collector.depth {}

end Memory

end RegisterMachine

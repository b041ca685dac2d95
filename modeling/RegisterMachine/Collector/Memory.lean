-- The memory of a machine: the arena together with the collector frames. When
-- a frame is closed, what its traces lead to goes to the frame below, and the
-- other allocations of the frame are released.
import RegisterMachine.Collector.Frame
import RegisterMachine.Heap.Marking

namespace RegisterMachine

structure Memory where
  heap : Arena
  collector : Collector
  deriving DecidableEq, Repr, Inhabited

/-- What happened to the allocations of closed frames. -/
structure SweepReport where
  /-- Handed to the frame below. -/
  promoted : Nat := 0
  released : Nat := 0
  deriving DecidableEq, Repr, Inhabited

def SweepReport.add (x y : SweepReport) : SweepReport :=
  ⟨x.promoted + y.promoted, x.released + y.released⟩

namespace Memory

/-- An empty memory. -/
def make (heapLimit poolLimit frameLimit : Nat) : Memory :=
  { heap := { limit := heapLimit, poolLimit }, collector := { frameLimit } }

/-! ## Allocation -/

/-- Makes an allocation, in an arena that is not full, for the current frame. -/
def insert (memory : Memory) (size : UInt16) (mode : TraceMode) : Handle × Memory :=
  let (handle, heap) := memory.heap.insert size mode
  let collector := memory.collector.register heap handle
  (handle, { heap, collector })

def allocate (memory : Memory) (size : UInt16) (mode : TraceMode) :
    Except Fault (Handle × Memory) :=
  if memory.heap.isFull then .error .memory else .ok (memory.insert size mode)

/-- Releases the allocation of a live handle and drops it from the current frame. -/
def free (memory : Memory) (handle : Handle) : Memory :=
  { heap := memory.heap.erase handle, collector := memory.collector.forget handle }

/-! ## Traces of all that is reachable -/

/-- Traces one handle and counts it when the trace is new. -/
def traceCounted (heap : Arena) (state : Nat × Collector) (handle : Handle) : Nat × Collector :=
  if state.2.current.isTracing handle then state
  else (state.1 + 1, state.2.modifyCurrent (·.pushTrace heap handle))

/-- Traces a live allocation and all that it leads to; gives the number of new traces. -/
def supertrace (memory : Memory) (handle : Handle) : Except Fault (Nat × Memory) :=
  if memory.heap.contains handle then
    let (_, visited, heap) := memory.heap.mark [handle]
    let (added, collector) := visited.foldl (traceCounted heap) (0, memory.collector)
    .ok (added, { heap, collector })
  else .error .internal

/-- Drops the traces of a live allocation and of all that it leads to; gives
the number of dropped traces. -/
def detrace (memory : Memory) (handle : Handle) : Except Fault (Nat × Memory) :=
  if memory.heap.contains handle then
    let (epoch, _, heap) := memory.heap.mark [handle]
    let before := memory.collector.current.traced.size
    let collector := memory.collector.modifyCurrent fun frame =>
      { frame with traced := frame.traced.filter fun h => !heap.isMarked h epoch }
    .ok (before - collector.current.traced.size, { heap, collector })
  else .error .internal

/-! ## Closing frames -/

/-- Decides about one allocation of a closed frame: a dead one is passed over, a
marked one goes to the current frame, and any other is released. -/
def sweepOne (epoch : UInt32) (state : SweepReport × Memory) (handle : Handle) :
    SweepReport × Memory :=
  let (report, memory) := state
  if memory.heap.contains handle then
    if memory.heap.isMarked handle epoch then
      let collector := memory.collector.register memory.heap handle
      ({ report with promoted := report.promoted + 1 }, { heap := memory.heap, collector })
    else
      ({ report with released := report.released + 1 },
        { heap := memory.heap.erase handle, collector := memory.collector })
  else (report, memory)

/-- Closes the innermost frame, if there is one above the root. -/
def closeFrame (memory : Memory) : SweepReport × Memory :=
  match memory.collector.frames.back? with
  | none => ({}, memory)
  | some frame =>
    let collector := { memory.collector with frames := memory.collector.frames.pop }
    let (epoch, _, heap) := memory.heap.mark frame.traced.toList
    frame.owned.foldl (sweepOne epoch) ({}, { heap, collector })

/-- Closes the innermost frame. The root cannot be closed. -/
def clean (memory : Memory) : Except Fault (SweepReport × Memory) :=
  if memory.collector.frames.isEmpty then .error .internal else .ok memory.closeFrame

/-- Closes the `n` innermost frames, the last one first. -/
def closeFrames : Nat → SweepReport → Memory → SweepReport × Memory
  | 0, total, memory => (total, memory)
  | n + 1, total, memory =>
    let (report, memory) := memory.closeFrame
    closeFrames n (total.add report) memory

/-- Closes every frame above the root. -/
def unwind (memory : Memory) : SweepReport × Memory :=
  closeFrames memory.collector.depth {} memory

/-! ## The end -/

/-- Releases every allocation and drops every frame. -/
def reset (memory : Memory) : Memory :=
  { heap := memory.heap.clear.2, collector := memory.collector.reset }

end Memory

end RegisterMachine

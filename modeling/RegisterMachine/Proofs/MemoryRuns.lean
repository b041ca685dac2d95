-- Runs of the memory: any operations, one after the other.
import RegisterMachine.Proofs.MemoryTurns

namespace RegisterMachine

/-! ## Operations -/

/-- An operation on the memory of a machine. -/
inductive Memory.Operation where
  | allocate (size : UInt16) (mode : TraceMode)
  | store (handle : Handle) (index : Int64) (value : Value)
  | storeUnchecked (handle : Handle) (index : Nat) (value : Value)
  | setFlag (handle : Handle) (index : Int64) (flagged : Bool)
  | setMode (handle : Handle) (mode : TraceMode)
  | free (handle : Handle)
  | trace (handle : Handle)
  | supertrace (handle : Handle)
  | detrace (handle : Handle)
  | openFrame
  | closeFrame
  /-- Closes every open frame, as after a fault. -/
  | unwind
  /-- A release that the collector is not told of. -/
  | release (handle : Handle)
  /-- A release of everything that the collector is not told of. -/
  | clear
  | reset
  deriving DecidableEq, Repr

namespace Memory

/-- The memory after an operation, or the fault that it raises. -/
def apply (memory : Memory) : Operation → Except Fault Memory
  | .allocate size mode => (memory.allocate size mode).map Prod.snd
  | .store handle index value => (memory.heap.store handle index value).map memory.withHeap
  | .storeUnchecked handle index value =>
    (memory.heap.storeUnchecked handle index value).map memory.withHeap
  | .setFlag handle index flagged =>
    (memory.heap.setFlag handle index flagged).map memory.withHeap
  | .setMode handle mode => (memory.heap.setMode handle mode).map memory.withHeap
  | .free handle =>
    if memory.heap.contains handle then .ok (memory.free handle) else .error .internal
  | .trace handle => (memory.collector.trace memory.heap handle).map memory.withCollector
  | .supertrace handle => (memory.supertrace handle).map Prod.snd
  | .detrace handle => (memory.detrace handle).map Prod.snd
  | .openFrame => memory.collector.openFrame.map memory.withCollector
  | .closeFrame => memory.clean.map Prod.snd
  | .unwind => .ok memory.unwind.2
  | .release handle => (memory.heap.release handle).map memory.withHeap
  | .clear => .ok (memory.withHeap memory.heap.clear.2)
  | .reset => .ok memory.reset

/-- Carries out an operation. One that fails changes nothing. -/
def perform (memory : Memory) (op : Operation) : Memory :=
  match memory.apply op with
  | .ok after => after
  | .error _ => memory

/-- Carries out operations one after the other. -/
def run : Memory → List Operation → Memory
  | memory, [] => memory
  | memory, op :: ops => run (memory.perform op) ops

/-- The memories after each operation of a run. -/
def trail : Memory → List Operation → List Memory
  | _, [] => []
  | memory, op :: ops => memory.perform op :: trail (memory.perform op) ops

/-- The arenas along a run. -/
def heaps (memory : Memory) (ops : List Operation) : List Arena :=
  (memory :: memory.trail ops).map Memory.heap

theorem run_mem_trail (memory : Memory) (ops : List Operation) :
    memory.run ops ∈ memory :: memory.trail ops := by
  induction ops generalizing memory with
  | nil => exact List.mem_cons_self ..
  | cons op ops ih => exact List.mem_cons_of_mem _ (ih (memory.perform op))

/-! ## Every operation is of one of the kinds -/

theorem clean_eq_ok {memory : Memory} {result : SweepReport × Memory}
    (h : memory.clean = .ok result) :
    (∃ closed, memory.collector.frames.back? = some closed) ∧ result = memory.closeFrame := by
  unfold clean at h
  split at h
  · cases h
  · rename_i hOpen
    cases h
    exact ⟨Collector.back?_of_isEmpty (by simpa using hOpen), rfl⟩

theorem turns_apply {memory : Memory} (hs : memory.heap.Sound) {op : Operation} {after : Memory}
    (h : memory.apply op = .ok after) : Turns (fun _ => True) memory after := by
  cases op with
  | allocate size mode =>
    obtain ⟨⟨handle, after⟩, hAllocate, rfl⟩ := Arena.map_eq_ok.1 h
    exact turns_allocate hAllocate
  | store handle index value =>
    obtain ⟨heap, hStore, rfl⟩ := Arena.map_eq_ok.1 h
    exact turns_edited hs (.store hStore)
  | storeUnchecked handle index value =>
    obtain ⟨heap, hStore, rfl⟩ := Arena.map_eq_ok.1 h
    exact turns_edited hs (.storeUnchecked hStore)
  | setFlag handle index flagged =>
    obtain ⟨heap, hFlag, rfl⟩ := Arena.map_eq_ok.1 h
    exact turns_edited hs (.setFlag hFlag)
  | setMode handle mode =>
    obtain ⟨heap, hMode, rfl⟩ := Arena.map_eq_ok.1 h
    exact turns_edited hs (.setMode hMode)
  | free handle =>
    simp only [apply] at h
    split at h
    · cases h
      exact turns_free hs trivial
    · cases h
  | trace handle =>
    obtain ⟨collector, hTrace, rfl⟩ := Arena.map_eq_ok.1 h
    unfold Collector.trace at hTrace
    split at hTrace
    · rename_i hLive
      cases hTrace
      exact turns_addTrace hs hLive
    · cases hTrace
  | supertrace handle =>
    obtain ⟨⟨count, after⟩, hTrace, rfl⟩ := Arena.map_eq_ok.1 h
    exact turns_supertrace hs hTrace
  | detrace handle =>
    obtain ⟨⟨count, after⟩, hTrace, rfl⟩ := Arena.map_eq_ok.1 h
    exact turns_detrace hs hTrace
  | openFrame =>
    obtain ⟨collector, hOpen, rfl⟩ := Arena.map_eq_ok.1 h
    unfold Collector.openFrame at hOpen
    split at hOpen
    · cases hOpen
      exact .openFrame
    · cases hOpen
  | closeFrame =>
    obtain ⟨⟨report, after⟩, hClean, rfl⟩ := Arena.map_eq_ok.1 h
    obtain ⟨⟨closed, hBack⟩, hAfter⟩ := clean_eq_ok hClean
    have hClosed : after = memory.closeFrame.2 := by rw [← hAfter]
    subst hClosed
    exact .closeFrame hBack
  | unwind =>
    cases h
    exact .unwind
  | release handle =>
    obtain ⟨heap, hRelease, rfl⟩ := Arena.map_eq_ok.1 h
    exact turns_edited hs (.release hRelease)
  | clear =>
    cases h
    exact turns_edited hs .clear
  | reset =>
    cases h
    exact .reset

theorem turns_perform {memory : Memory} (hs : memory.heap.Sound) (op : Operation) :
    Turns (fun _ => True) memory (memory.perform op) := by
  unfold perform
  split
  · rename_i hApply
    exact turns_apply hs hApply
  · exact turns_same hs

theorem isChain_trail {memory : Memory} (hs : memory.Sound) (ops : List Operation) :
    (memory :: memory.trail ops).IsChain (Moves fun _ => True) := by
  induction ops generalizing memory with
  | nil => exact List.isChain_singleton _
  | cons op ops ih =>
    have hTurns := turns_perform hs.heap op
    rw [trail, List.isChain_cons_cons]
    exact ⟨hTurns.moves, ih (hTurns.sound hs)⟩

end Memory

end RegisterMachine

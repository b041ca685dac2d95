-- Closing frames step by step comes to the same as closing them at once. A release of a
-- frame that is being closed could only fail for a handle that is not live, and each handle
-- is looked up before; so whenever a frame is open, it is closed to its end.
import RegisterMachine.Collector.Attempts
import RegisterMachine.Proofs.MemoryTurns

namespace RegisterMachine

theorem Attempt.getThe_eq {state : Type} (s : state) :
    (getThe state : Attempt state state) s = .ok s s := rfl

theorem Arena.tryRelease_eq {heap : Arena} {handle : Handle} (h : heap.contains handle = true) :
    tryRelease handle heap = .ok () (heap.erase handle) := by
  have hRelease : heap.release handle = .ok (heap.erase handle) := if_pos h
  unfold tryRelease Attempt.alter
  simp only [hRelease]

namespace Memory

/-- What has been done to a memory, as the end of an attempt. -/
def attempted {α : Type} (done : α × Memory) : EStateM.Result Fault Memory α :=
  .ok done.1 done.2

theorem onHeap_tryRelease {memory : Memory} {handle : Handle}
    (h : memory.heap.contains handle = true) :
    onHeap (Arena.tryRelease handle) memory =
      .ok () { memory with heap := memory.heap.erase handle } := by
  unfold onHeap Attempt.within
  rw [Arena.tryRelease_eq h]

theorem tryFree_eq {memory : Memory} {handle : Handle}
    (h : memory.heap.contains handle = true) :
    tryFree handle memory = .ok () (memory.free handle) := by
  simp only [tryFree, bind, EStateM.bind, onHeap_tryRelease h]
  rfl

theorem trySweepOne_eq (epoch : UInt32) (report : SweepReport) (memory : Memory)
    (handle : Handle) :
    trySweepOne epoch report handle memory =
      attempted (sweepOne epoch (report, memory) handle) := by
  simp only [trySweepOne, sweepOne, bind, EStateM.bind, Attempt.getThe_eq]
  by_cases hLive : memory.heap.contains handle = true
  · by_cases hMarked : memory.heap.isMarked handle epoch = true
    · simp only [hLive, hMarked, if_true]
      rfl
    · simp only [hLive, hMarked, if_true, Bool.false_eq_true, if_false, EStateM.bind,
        onHeap_tryRelease hLive]
      rfl
  · simp only [hLive]
    rfl

theorem foldlM_trySweepOne (epoch : UInt32) (entries : List Handle) (report : SweepReport)
    (memory : Memory) :
    entries.foldlM (trySweepOne epoch) report memory =
      attempted (entries.foldl (sweepOne epoch) (report, memory)) := by
  induction entries generalizing report memory with
  | nil => rfl
  | cons handle entries ih =>
    simp only [List.foldlM_cons, List.foldl_cons, bind, EStateM.bind, trySweepOne_eq, attempted]
    exact ih _ _

theorem tryClean_eq {memory : Memory} (h : memory.collector.frames.isEmpty = false) :
    memory.tryClean = attempted memory.closeFrame := by
  obtain ⟨closed, hBack⟩ := Collector.back?_of_isEmpty h
  simp only [tryClean, closeFrame, bind, EStateM.bind, Attempt.getThe_eq,
    hBack, ← Array.foldl_toList]
  exact foldlM_trySweepOne _ _ _ _

theorem tryCleans_eq {n : Nat} {memory : Memory} (hs : memory.Sound)
    (hn : n ≤ memory.collector.depth) (total : SweepReport) :
    tryCleans n total memory = attempted (closeFrames n total memory) := by
  induction n generalizing total memory with
  | zero => rfl
  | succ n ih =>
    have hOpen := Collector.isEmpty_of_depth (show 0 < memory.collector.depth by omega)
    have hDepth := depth_closeFrame hs
    simp only [tryCleans, bind, EStateM.bind, tryClean_eq hOpen, attempted]
    exact ih (sound_closeFrame hs) (by omega) _

/-- The unwind never fails. -/
theorem tryUnwind_eq {memory : Memory} (hs : memory.Sound) :
    memory.tryUnwind = attempted memory.unwind :=
  tryCleans_eq hs (Nat.le_refl _) {}

end Memory

end RegisterMachine

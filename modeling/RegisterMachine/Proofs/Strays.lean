-- Allocations that no frame owns. The host can fill the heap behind the back of the collector;
-- what it puts there strays. A frame below the root that owns the strays is never the current
-- one, so that with it a memory does what it does without, and each live allocation has one owner.
import RegisterMachine.Proofs.FrameClosing

namespace RegisterMachine

/-! ## A frame below the root -/

namespace Collector

variable {collector : Collector} (strays : Array Handle)

/-- The collector with one more frame at the bottom, which owns `strays`. -/
def atop (collector : Collector) (strays : Array Handle) : Collector where
  root := { owned := strays }
  frames := #[collector.root] ++ collector.frames
  frameLimit := collector.frameLimit + 1

theorem stack_atop (collector : Collector) :
    (collector.atop strays).stack = { owned := strays } :: collector.stack := by
  simp [atop, stack]

theorem eq_of_stack {collector other : Collector} (hStack : collector.stack = other.stack)
    (hLimit : collector.frameLimit = other.frameLimit) : collector = other := by
  obtain ⟨root, frames, limit⟩ := collector
  obtain ⟨root', frames', limit'⟩ := other
  simp only [stack, List.cons.injEq, Array.toList_inj] at hStack
  simp only at hLimit
  rw [hStack.1, hStack.2, hLimit]

theorem outer_and_current_atop (collector : Collector) :
    (collector.atop strays).outer = { owned := strays } :: collector.outer ∧
      (collector.atop strays).current = collector.current := by
  have hStack := stack_atop strays collector
  rw [stack_eq, stack_eq collector, ← List.cons_append] at hStack
  obtain ⟨hOuter, hCurrent⟩ := List.append_inj' hStack rfl
  exact ⟨hOuter, List.singleton_inj.1 hCurrent⟩

theorem modifyCurrent_atop (collector : Collector) (change : Frame → Frame) :
    (collector.atop strays).modifyCurrent change =
      (collector.modifyCurrent change).atop strays := by
  obtain ⟨hOuter, hCurrent⟩ := outer_and_current_atop strays collector
  apply eq_of_stack
  · rw [stack_modifyCurrent, stack_atop, stack_modifyCurrent, hOuter, hCurrent]
    rfl
  · simp [atop, frameLimit_modifyCurrent]

theorem push_atop (collector : Collector) :
    (collector.atop strays).push = collector.push.atop strays := by
  apply eq_of_stack
  · simp [stack_push, stack_atop]
  · rfl

theorem back?_atop {frame : Frame} (h : collector.frames.back? = some frame) :
    (collector.atop strays).frames.back? = some frame := by
  simp [atop, Array.back?_append, h]

theorem pop_atop {frame : Frame} (h : collector.frames.back? = some frame) :
    (collector.atop strays).pop = collector.pop.atop strays := by
  have hAbove := stack_of_back? (back?_atop strays h)
  rw [stack_atop, stack_of_back? h, ← List.cons_append] at hAbove
  apply eq_of_stack
  · rw [stack_atop]
    exact (List.append_inj_left' hAbove rfl).symm
  · rfl

theorem Retraces.atop {heap : Arena} {before after : Collector}
    (h : Retraces heap before after) : Retraces heap (before.atop strays) (after.atop strays) := by
  obtain ⟨hOuter, hCurrent⟩ := outer_and_current_atop strays before
  obtain ⟨hOuter', hCurrent'⟩ := outer_and_current_atop strays after
  refine ⟨?_, ?_, ?_⟩
  · simp [Collector.atop, h.frameLimit]
  · rw [hOuter, hOuter', h.outer]
  · rw [hCurrent, hCurrent']
    exact h.current

end Collector

namespace Memory

open RegisterMachine.Frame

variable {memory before after : Memory} (strays : Array Handle)

/-- The memory with a frame below the root that owns `strays`. -/
def atop (memory : Memory) (strays : Array Handle) : Memory :=
  { memory with collector := memory.collector.atop strays }

theorem sound_atop (h : memory.Sound) : (memory.atop strays).Sound := by
  refine ⟨h.heap, ?_⟩
  simp only [atop, Collector.stack_atop, List.forall_mem_cons]
  exact ⟨List.nodup_nil, h.traced⟩

theorem insert_atop (memory : Memory) (size : UInt16) (mode : TraceMode) :
    ((memory.atop strays).insert size mode).2 = (memory.insert size mode).2.atop strays := by
  simp [insert, atop, Collector.register, Collector.modifyCurrent_atop]

theorem sweepOne_atop (epoch : UInt32) (state : SweepReport × Memory) (handle : Handle) :
    sweepOne epoch (state.1, state.2.atop strays) handle =
      ((sweepOne epoch state handle).1, (sweepOne epoch state handle).2.atop strays) := by
  unfold sweepOne atop
  simp only [Collector.register, Collector.modifyCurrent_atop]
  split
  · split <;> rfl
  · rfl

theorem foldl_sweepOne_atop (epoch : UInt32) (entries : List Handle)
    (state : SweepReport × Memory) :
    entries.foldl (sweepOne epoch) (state.1, state.2.atop strays) =
      ((entries.foldl (sweepOne epoch) state).1,
        (entries.foldl (sweepOne epoch) state).2.atop strays) := by
  induction entries generalizing state with
  | nil => rfl
  | cons handle entries ih =>
    rw [List.foldl_cons, List.foldl_cons, sweepOne_atop]
    exact ih _

theorem closeFrame_atop {closed : Frame} (h : memory.collector.frames.back? = some closed) :
    (memory.atop strays).closeFrame =
      (memory.closeFrame.1, memory.closeFrame.2.atop strays) := by
  unfold closeFrame
  simp only [atop, Collector.back?_atop strays h, h, ← Array.foldl_toList]
  have hPop := Collector.pop_atop strays h
  unfold Collector.pop at hPop
  rw [hPop]
  exact foldl_sweepOne_atop strays _ _ ({}, { heap := _, collector := _ })

theorem closeFrames_atop (n : Nat) (total : SweepReport) (hs : memory.Sound)
    (hn : n ≤ memory.collector.depth) :
    closeFrames n total (memory.atop strays) =
      ((closeFrames n total memory).1, (closeFrames n total memory).2.atop strays) := by
  induction n generalizing total memory with
  | zero => rfl
  | succ n ih =>
    obtain ⟨closed, hBack⟩ :=
      Collector.back?_of_isEmpty (Collector.isEmpty_of_depth (Nat.lt_of_lt_of_le (by omega) hn))
    have hDepth := (closes_closeFrame hs.heap hBack).depth hBack
    simp only [closeFrames, closeFrame_atop strays hBack]
    exact ih _ (sound_closeFrame hs) (by omega)

/-! ## Owners and strays -/

/-- Every live allocation strays or has one owner. -/
def Placed (memory : Memory) : Prop := ∃ strays, (memory.atop strays).Owned

theorem Owned.placed (h : memory.Owned) : memory.Placed := by
  refine ⟨#[], ?_, ?_, ?_⟩
  · simpa [atop, Collector.stack_atop, Frame.entries] using h.issued
  · simpa [atop, Collector.stack_atop] using h.once
  · simpa [atop, Collector.stack_atop, Frame.Apart] using h.apart

/-- An allocation that the collector is not told of strays. -/
theorem Placed.insert (h : memory.Placed) (hs : memory.heap.Sound)
    (hFull : memory.heap.isFull = false) (size : UInt16) (mode : TraceMode) :
    (memory.withHeap (memory.heap.insert size mode).2).Placed := by
  obtain ⟨strays, hOwned⟩ := h
  have hNew := Arena.not_issued_new hs hFull size mode
  have hIssued : ∀ handle, (memory.heap.insert size mode).2.Issued handle ↔
      memory.heap.Issued handle ∨ handle = (memory.heap.insert size mode).1 :=
    fun _ => Arena.issued_insert hs hFull size mode
  have hContains := Arena.contains_insert hs hFull size mode
  have hNone := hOwned.count_eq_zero hNew
  obtain ⟨hGiven, hOnce, hApart⟩ := hOwned
  simp only [atop, Collector.stack_atop, List.forall_mem_cons, List.pairwise_cons,
    ownedBy_cons, List.count_append] at hGiven hOnce hApart hNone
  refine ⟨strays.push (memory.heap.insert size mode).1, ?_, ?_, ?_⟩
  · simp only [atop, withHeap, Collector.stack_atop, List.forall_mem_cons, entries,
      Array.toList_push, List.mem_append, List.mem_singleton, hIssued]
    refine ⟨?_, fun frame hFrame handle hMem => Or.inl (hGiven.2 frame hFrame handle ?_)⟩
    · rintro handle ((hOld | hEq) | hNone)
      · exact Or.inl (hGiven.1 handle (List.mem_append_left _ hOld))
      · exact Or.inr hEq
      · cases hNone
    · exact List.mem_append.2 hMem
  · intro handle hLive
    simp only [atop, withHeap, Collector.stack_atop, ownedBy_cons, List.count_append,
      Array.toList_push]
    rcases (hContains handle).1 hLive with rfl | hOld
    · rw [List.count_singleton_self]
      omega
    · have hNe : handle ≠ (memory.heap.insert size mode).1 := by
        rintro rfl
        exact hNew (Arena.issued_of_contains hOld)
      have hOther : [(memory.heap.insert size mode).1].count handle = 0 :=
        List.count_eq_zero_of_not_mem (by simpa using hNe)
      have hOne := hOnce handle hOld
      omega
  · simp only [atop, withHeap, Collector.stack_atop, List.pairwise_cons]
    refine ⟨by simp [Apart], hApart.2.imp_of_mem ?_⟩
    intro lower upper hLower _ hFrames handle hMem hLive
    rcases (hContains handle).1 hLive with rfl | hOld
    · exact absurd (hGiven.2 lower hLower _ (List.mem_append_right _ hMem)) hNew
    · exact hFrames handle hMem hOld

theorem Turns.placed {dropped : Handle → Prop} (h : Turns dropped before after)
    (hs : before.Sound) (hPlaced : before.Placed)
    (hSteady : Arena.Steady before.heap after.heap) : after.Placed := by
  obtain ⟨strays, hOwned⟩ := hPlaced
  cases h with
  | keep _ hSheds hRetraces _ =>
    exact ⟨strays, hOwned.of_retraces hSheds hSteady (hRetraces.atop strays)⟩
  | @allocate size mode hFull =>
    have hInsert := hOwned.insert hs.heap hFull size mode
    rw [insert_atop] at hInsert
    exact ⟨strays, hInsert⟩
  | openFrame =>
    have hPush := hOwned.push
    simp only [atop, Collector.push_atop] at hPush
    exact ⟨strays, hPush⟩
  | closeFrame hBack =>
    have hClosed := hOwned.closeFrame (sound_atop strays hs)
    rw [closeFrame_atop strays hBack] at hClosed
    exact ⟨strays, hClosed hSteady⟩
  | unwind =>
    have hClosed := hOwned.closeFrames before.collector.depth {} (sound_atop strays hs)
    rw [closeFrames_atop strays _ _ hs (Nat.le_refl _)] at hClosed
    exact ⟨strays, hClosed hSteady⟩
  | reset => exact (Owned.reset before).placed

theorem placed_of_served {served : Memory} (h : Relation.ReflTransGen Serves before served)
    (hs : before.Sound) (hPlaced : before.Placed) : served.Placed := by
  induction h with
  | refl => exact hPlaced
  | tail hFirst hStep ih =>
    have hSound := sound_of_served hFirst hs
    refine (hStep.turns hSound.heap fun _ => True).placed hSound ih ?_
    intro slot
    rw [hStep.generationAt hSound.heap slot]
    exact UInt32.le_refl _

/-- Requests of a host function take no slot back. -/
theorem steady_of_served {served : Memory} (h : Relation.ReflTransGen Serves before served)
    (hs : before.Sound) {heap : Arena} (hSteady : Arena.Steady before.heap heap) :
    Arena.Steady served.heap heap := by
  intro slot
  rw [generationAt_of_served h hs slot]
  exact hSteady slot

theorem Moves.placed {dropped : Handle → Prop} (h : Moves dropped before after)
    (hs : before.Sound) (hPlaced : before.Placed)
    (hSteady : Arena.Steady before.heap after.heap) : after.Placed := by
  obtain ⟨served, hServed, hTurns⟩ := h
  exact hTurns.placed (sound_of_served hServed hs) (placed_of_served hServed hs hPlaced)
    (steady_of_served hServed hs hSteady)

/-! ## What no two frames share -/

/-- A live allocation has one entry at most. -/
theorem Placed.count_le (h : memory.Placed) {handle : Handle}
    (hLive : memory.heap.contains handle = true) :
    (ownedBy memory.collector.stack).count handle ≤ 1 := by
  obtain ⟨strays, hOwned⟩ := h
  have hOnce := hOwned.once handle hLive
  simp only [atop, Collector.stack_atop, ownedBy_cons, List.count_append] at hOnce
  omega

/-- A live allocation with an entry in the frame below is not of the frame that is closed. -/
theorem Placed.not_owned_by_closed (h : memory.Placed) {closed : Frame}
    (hBack : memory.collector.frames.back? = some closed) {handle : Handle}
    (hMem : handle ∈ memory.collector.pop.current.entries)
    (hLive : memory.heap.contains handle = true) : handle ∉ closed.owned := by
  obtain ⟨strays, hOwned⟩ := h
  refine Memory.not_owned_by_closed hOwned (Collector.back?_atop strays hBack) ?_ hLive
  rw [atop, Collector.pop_atop strays hBack, (Collector.outer_and_current_atop strays _).2]
  exact hMem

end Memory

end RegisterMachine

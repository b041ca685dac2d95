-- What closing a frame does: the allocations of the frame that its traces do not
-- reach are released, the others go to the frame below, and nothing else happens.
import RegisterMachine.Collector.Memory
import RegisterMachine.Proofs.FrameStack
import RegisterMachine.Proofs.Lifetimes

namespace RegisterMachine.Memory

open Arena RegisterMachine.Frame

/-! ## One entry of the closed frame -/

theorem isMarked_erase (heap : Arena) (handle other : Handle) (epoch : UInt32) :
    (heap.erase handle).isMarked other epoch = (other ≠ handle && heap.isMarked other epoch) := by
  unfold isMarked
  rw [get?_erase]
  by_cases h : other = handle <;> simp [h]

/-- Releasing what is not marked leaves the marks as they are. -/
theorem isMarked_erase_of_unmarked {heap : Arena} {handle : Handle} {epoch : UInt32}
    (h : heap.isMarked handle epoch = false) (other : Handle) :
    (heap.erase handle).isMarked other epoch = heap.isMarked other epoch := by
  rw [isMarked_erase]
  by_cases hOther : other = handle <;> simp [hOther, h]

/-- A marked entry goes to the current frame; any other is released, if it is live. -/
theorem sweepOne_cases (epoch : UInt32) (state : SweepReport × Memory) (handle : Handle) :
    (state.2.heap.isMarked handle epoch = true ∧
      (sweepOne epoch state handle).2 =
        { state.2 with collector := state.2.collector.register state.2.heap handle }) ∨
    (state.2.heap.isMarked handle epoch = false ∧
      (sweepOne epoch state handle).2 = { state.2 with heap := state.2.heap.erase handle }) := by
  unfold sweepOne
  by_cases hMarked : state.2.heap.isMarked handle epoch = true
  · have hLive := contains_of_isMarked hMarked
    simp [hMarked, hLive]
  · right
    have hUnmarked : state.2.heap.isMarked handle epoch = false := by simpa using hMarked
    refine ⟨hUnmarked, ?_⟩
    by_cases hLive : state.2.heap.contains handle = true
    · simp [hLive, hUnmarked]
    · have hStale : state.2.heap.get? handle = none := contains_eq_false.1 (by simpa using hLive)
      simp [hLive, erase_of_stale hStale]

/-! ## All entries -/

/-- What a sweep over `entries` does to a memory. -/
structure Swept (epoch : UInt32) (entries : List Handle) (before after : Memory) : Prop where
  get? : ∀ handle, after.heap.get? handle =
    if handle ∈ entries ∧ before.heap.isMarked handle epoch = false then none
    else before.heap.get? handle
  sheds : Sheds before.heap after.heap
  sound : before.heap.Sound → after.heap.Sound
  frameLimit : after.collector.frameLimit = before.collector.frameLimit
  stack : ∃ parent, after.collector.stack = before.collector.outer ++ [parent] ∧
    Extends after.heap (entries.filter (before.heap.isMarked · epoch)) []
      before.collector.current parent

theorem swept_nil (epoch : UInt32) (memory : Memory) : Swept epoch [] memory memory where
  get? := by simp
  sheds := sheds_of_stateAt fun _ => rfl
  sound := id
  frameLimit := rfl
  stack := ⟨_, memory.collector.stack_eq, extends_refl _ _⟩

theorem swept_promote {epoch : UInt32} {handle : Handle} {entries : List Handle}
    {before after : Memory} (hMarked : before.heap.isMarked handle epoch = true)
    (h : Swept epoch entries
      { before with collector := before.collector.register before.heap handle } after) :
    Swept epoch (handle :: entries) before after := by
  obtain ⟨hGet, hSheds, hSound, hLimit, parent, hStack, hExtends⟩ := h
  have hLive : after.heap.contains handle = true := by
    obtain ⟨alloc, hAlloc, _⟩ := isMarked_iff.1 hMarked
    exact contains_eq_true.2 ⟨alloc, by simp [hGet, hMarked, hAlloc]⟩
  refine ⟨?_, hSheds, hSound, ?_, parent, ?_, ?_⟩
  · intro other
    rw [hGet]
    by_cases hOther : other = handle
    · simp [hOther, hMarked]
    · simp [hOther]
  · rw [hLimit]
    exact Collector.frameLimit_modifyCurrent _ _
  · rw [hStack]
    simp only [Collector.register, Collector.outer_modifyCurrent]
  · simp only [Collector.register, Collector.current_modifyCurrent] at hExtends
    have hFilter : (handle :: entries).filter (before.heap.isMarked · epoch) =
        handle :: entries.filter (before.heap.isMarked · epoch) :=
      List.filter_cons_of_pos hMarked
    rw [hFilter]
    refine (extends_own before.heap before.collector.current handle).trans hExtends ?_ ?_ ?_
    · exact fun _ h => hSheds.contains_of_contains h
    · simpa using hLive
    · simp

theorem swept_release {epoch : UInt32} {handle : Handle} {entries : List Handle}
    {before after : Memory} (hUnmarked : before.heap.isMarked handle epoch = false)
    (h : Swept epoch entries { before with heap := before.heap.erase handle } after) :
    Swept epoch (handle :: entries) before after := by
  obtain ⟨hGet, hSheds, hSound, hLimit, parent, hStack, hExtends⟩ := h
  have hMarks := isMarked_erase_of_unmarked hUnmarked
  refine ⟨?_, (sheds_erase before.heap handle).trans hSheds, ?_, hLimit, parent, hStack, ?_⟩
  · intro other
    rw [hGet]
    simp only [hMarks]
    rw [get?_erase]
    by_cases hOther : other = handle
    · simp [hOther, hUnmarked]
    · simp [hOther]
  · exact fun hs => hSound (sound_erase hs handle)
  · simp only [hMarks] at hExtends
    rw [List.filter_cons_of_neg (by simp [hUnmarked])]
    exact hExtends

theorem swept_foldl (epoch : UInt32) (entries : List Handle) (state : SweepReport × Memory) :
    Swept epoch entries state.2 (entries.foldl (sweepOne epoch) state).2 := by
  induction entries generalizing state with
  | nil => exact swept_nil epoch state.2
  | cons handle entries ih =>
    have hRest := ih (sweepOne epoch state handle)
    rcases sweepOne_cases epoch state handle with ⟨hMarked, hNext⟩ | ⟨hUnmarked, hNext⟩
    · rw [hNext] at hRest
      exact swept_promote hMarked hRest
    · rw [hNext] at hRest
      exact swept_release hUnmarked hRest

/-! ## Closing a frame -/

/-- What becomes of a memory whose innermost frame `closed` is closed. -/
structure Closes (before : Memory) (closed : Frame) (after : Memory) : Prop where
  /-- Of the allocations of the frame, those stay that its traces reach. -/
  contains : ∀ handle, after.heap.contains handle = true ↔
    before.heap.contains handle = true ∧
      (handle ∉ closed.owned ∨ before.heap.Reaches closed.traced.toList handle)
  /-- An allocation that stays is the same, but for its mark. -/
  get? : ∀ handle alloc, after.heap.get? handle = some alloc →
    ∃ old mark, before.heap.get? handle = some old ∧ alloc = old.setMark mark
  sheds : Sheds before.heap after.heap
  sound : after.heap.Sound
  frameLimit : after.collector.frameLimit = before.collector.frameLimit
  stack : ∃ parent, after.collector.stack = before.collector.pop.outer ++ [parent] ∧
    Extends after.heap (closed.owned.toList.filter after.heap.contains) []
      before.collector.pop.current parent

theorem closes_closeFrame {memory : Memory} (hs : memory.heap.Sound) {closed : Frame}
    (hBack : memory.collector.frames.back? = some closed) :
    Closes memory closed memory.closeFrame.2 := by
  have hSame := contents_mark memory.heap closed.traced.toList
  have hMarked : ∀ {handle : Handle},
      (memory.heap.mark closed.traced.toList).2.2.isMarked handle
        (memory.heap.mark closed.traced.toList).1 = true ↔
      memory.heap.Reaches closed.traced.toList handle := isMarked_mark hs
  have hSwept : Swept (memory.heap.mark closed.traced.toList).1 closed.owned.toList
      { heap := (memory.heap.mark closed.traced.toList).2.2, collector := memory.collector.pop }
      memory.closeFrame.2 := by
    unfold closeFrame
    rw [hBack]
    simp only [← Array.foldl_toList]
    exact swept_foldl _ closed.owned.toList ({}, ⟨_, memory.collector.pop⟩)
  have hSound := sound_mark hs closed.traced.toList
  generalize (memory.heap.mark closed.traced.toList).1 = epoch at hMarked hSwept
  generalize (memory.heap.mark closed.traced.toList).2.2 = marked at hSame hMarked hSwept hSound
  obtain ⟨hGet, hSheds, hKept, hLimit, parent, hStack, hExtends⟩ := hSwept
  have hContains : ∀ handle, memory.closeFrame.2.heap.contains handle = true ↔
      memory.heap.contains handle = true ∧
        (handle ∉ closed.owned ∨ memory.heap.Reaches closed.traced.toList handle) := by
    intro handle
    rw [← contains_of_contents hSame, ← hMarked]
    unfold Arena.contains
    rw [hGet]
    by_cases hOwned : handle ∈ closed.owned
    · by_cases hMark : marked.isMarked handle epoch = true <;> simp [hOwned, hMark]
    · simp [hOwned]
  refine ⟨hContains, ?_, (sheds_of_contents hSame).trans hSheds, hKept hSound, hLimit, parent,
    hStack, ?_⟩
  · intro handle alloc hAlloc
    rw [hGet] at hAlloc
    split at hAlloc
    · cases hAlloc
    · obtain ⟨mark, hOld⟩ := get?_of_contents hSame.symm hAlloc
      exact ⟨_, alloc.mark, hOld, rfl⟩
  · -- Among the entries of the frame, the marked ones are those that stay.
    have hFilter : closed.owned.toList.filter memory.closeFrame.2.heap.contains =
        closed.owned.toList.filter (marked.isMarked · epoch) := by
      apply List.filter_congr
      intro handle hMem
      rw [Bool.eq_iff_iff, hContains, hMarked]
      constructor
      · rintro ⟨_, hNot | hReach⟩
        · exact absurd (Array.mem_toList_iff.1 hMem) hNot
        · exact hReach
      · exact fun hReach => ⟨hReach.live, Or.inr hReach⟩
    rw [hFilter]
    exact hExtends

end RegisterMachine.Memory

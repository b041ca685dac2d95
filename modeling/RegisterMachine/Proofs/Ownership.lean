-- Who owns what. Every live allocation stands once in the lists of the frames, and
-- no frame has a trace of an allocation that a frame above it owns. Both hold as
-- long as no slot starts its generations again, so that the entry of a released
-- allocation never comes to stand for a new one.
import RegisterMachine.Proofs.MemoryTurns

namespace RegisterMachine

/-! ## Entries of frames -/

namespace Frame

/-- The entries of both lists. -/
def entries (frame : Frame) : List Handle := frame.owned.toList ++ frame.traced.toList

/-- What some frames own, in the order of the frames. -/
def ownedBy (frames : List Frame) : List Handle := frames.flatMap (·.owned.toList)

/-- The lower frame has no trace of a live allocation that the upper frame owns. -/
def Apart (heap : Arena) (lower upper : Frame) : Prop :=
  ∀ handle ∈ lower.traced.toList, heap.contains handle = true → handle ∉ upper.owned.toList

@[simp] theorem ownedBy_nil : ownedBy [] = [] := rfl

@[simp] theorem ownedBy_cons (frame : Frame) (frames : List Frame) :
    ownedBy (frame :: frames) = frame.owned.toList ++ ownedBy frames :=
  List.flatMap_cons

@[simp] theorem ownedBy_append (lower upper : List Frame) :
    ownedBy (lower ++ upper) = ownedBy lower ++ ownedBy upper :=
  List.flatMap_append

theorem ownedBy_singleton (frame : Frame) : ownedBy [frame] = frame.owned.toList := by
  simp

theorem mem_ownedBy {frames : List Frame} {handle : Handle} :
    handle ∈ ownedBy frames ↔ ∃ frame ∈ frames, handle ∈ frame.owned.toList :=
  List.mem_flatMap

/-- What stands once among the entries of some frames has one of them as its owner. -/
theorem one_owner {frames : List Frame} {handle : Handle}
    (h : (ownedBy frames).count handle = 1) :
    ∃ below frame above, frames = below ++ frame :: above ∧
      frame.owned.toList.count handle = 1 ∧
      ∀ other ∈ below ++ above, handle ∉ other.owned := by
  induction frames with
  | nil => cases h
  | cons first frames ih =>
    rw [← List.singleton_append, ownedBy_append, ownedBy_singleton, List.count_append] at h
    by_cases hFirst : handle ∈ first.owned.toList
    · have hCount := List.count_pos_iff.2 hFirst
      refine ⟨[], first, frames, rfl, by omega, ?_⟩
      intro other hOther hMem
      have hRest : handle ∉ ownedBy frames := by
        rw [← List.count_eq_zero]
        omega
      exact hRest (mem_ownedBy.2 ⟨other, hOther, Array.mem_toList_iff.2 hMem⟩)
    · rw [List.count_eq_zero_of_not_mem hFirst, Nat.zero_add] at h
      obtain ⟨below, frame, above, rfl, hCount, hOthers⟩ := ih h
      refine ⟨first :: below, frame, above, rfl, hCount, ?_⟩
      rw [List.cons_append, List.forall_mem_cons]
      exact ⟨fun hMem => hFirst (Array.mem_toList_iff.2 hMem), hOthers⟩

theorem mem_entries_of_extends {heap : Arena} {owned traced : List Handle}
    {before after : Frame} (h : Extends heap owned traced before after) {handle : Handle}
    (hMem : handle ∈ after.entries) :
    handle ∈ before.entries ∨ handle ∈ owned ∨ handle ∈ traced := by
  simp only [entries, List.mem_append] at hMem ⊢
  rcases hMem with hMem | hMem
  · rcases h.mem_owned hMem with hOld | hNew
    · exact Or.inl (Or.inl hOld)
    · exact Or.inr (Or.inl hNew)
  · rcases h.mem_traced hMem with hOld | hNew
    · exact Or.inl (Or.inr hOld)
    · exact Or.inr (Or.inr hNew)

end Frame

namespace Memory

open RegisterMachine.Frame

/-! ## The invariant -/

structure Owned (memory : Memory) : Prop where
  /-- The entries of a frame are handles that were given out. -/
  issued : ∀ frame ∈ memory.collector.stack, ∀ handle ∈ frame.entries,
    memory.heap.Issued handle
  /-- A live allocation has one entry. -/
  once : ∀ handle, memory.heap.contains handle = true →
    (ownedBy memory.collector.stack).count handle = 1
  apart : memory.collector.stack.Pairwise (Apart memory.heap)

theorem owned_make (heapLimit poolLimit frameLimit : Nat) :
    (make heapLimit poolLimit frameLimit).Owned where
  issued := by simp [make, Collector.stack, entries]
  once := by simp [make, Arena.contains, Arena.get?]
  apart := by simp [make, Collector.stack]

theorem Owned.count_split {memory : Memory} (h : memory.Owned) {lower tops : List Frame}
    (hStack : memory.collector.stack = lower ++ tops) {handle : Handle}
    (hLive : memory.heap.contains handle = true) :
    (ownedBy lower).count handle + (ownedBy tops).count handle = 1 := by
  have hOnce := h.once handle hLive
  rwa [hStack, ownedBy_append, List.count_append] at hOnce

/-- A handle that was not given out has no entry. -/
theorem Owned.count_eq_zero {memory : Memory} (h : memory.Owned) {handle : Handle}
    (hNew : ¬ memory.heap.Issued handle) :
    (ownedBy memory.collector.stack).count handle = 0 := by
  rw [List.count_eq_zero, mem_ownedBy]
  rintro ⟨frame, hFrame, hMem⟩
  exact hNew (h.issued frame hFrame handle (List.mem_append_left _ hMem))

/-- The innermost frames are replaced by one frame, and no old entry comes to stand
for a new allocation. -/
theorem Owned.of_stack {before after : Memory} (h : before.Owned) {lower tops : List Frame}
    {top : Frame} (hBefore : before.collector.stack = lower ++ tops)
    (hAfter : after.collector.stack = lower ++ [top])
    (hIssued : ∀ handle, before.heap.Issued handle → after.heap.Issued handle)
    (hLive : ∀ handle, before.heap.Issued handle → after.heap.contains handle = true →
      before.heap.contains handle = true)
    (hEntries : ∀ handle ∈ top.entries, after.heap.Issued handle)
    (hOnce : ∀ handle, after.heap.contains handle = true →
      (ownedBy lower).count handle + top.owned.toList.count handle = 1)
    (hOwned : ∀ handle ∈ top.owned.toList, before.heap.Issued handle →
      ∃ frame ∈ tops, handle ∈ frame.owned.toList) : after.Owned := by
  have hOld := h.issued
  have hApart := h.apart
  rw [hBefore] at hOld hApart
  rw [List.pairwise_append] at hApart
  obtain ⟨hLower, -, hCross⟩ := hApart
  have hTraced : ∀ frame ∈ lower, ∀ handle ∈ frame.traced.toList, before.heap.Issued handle :=
    fun frame hFrame handle hMem =>
      hOld frame (List.mem_append_left _ hFrame) handle (List.mem_append_right _ hMem)
  constructor
  · rw [hAfter]
    simp only [List.forall_mem_append, List.forall_mem_singleton]
    refine ⟨fun frame hFrame handle hMem => hIssued handle ?_, hEntries⟩
    exact hOld frame (List.mem_append_left _ hFrame) handle hMem
  · intro handle hContains
    rw [hAfter, ownedBy_append, ownedBy_singleton, List.count_append]
    exact hOnce handle hContains
  · rw [hAfter, List.pairwise_append]
    refine ⟨?_, List.pairwise_singleton _ _, ?_⟩
    · refine hLower.imp_of_mem ?_
      intro frame upper hFrame _ hFrames handle hMem hContains
      exact hFrames handle hMem (hLive handle (hTraced frame hFrame handle hMem) hContains)
    · intro frame hFrame last hLast handle hMem hContains hTop
      rw [List.mem_singleton] at hLast
      subst hLast
      have hGiven := hTraced frame hFrame handle hMem
      obtain ⟨upper, hUpper, hUpperOwned⟩ := hOwned handle hTop hGiven
      exact hCross frame hFrame upper hUpper handle hMem (hLive handle hGiven hContains) hUpperOwned

/-! ## Each kind of operation -/

theorem Owned.of_retraces {before after : Memory} (h : before.Owned)
    (hSheds : Arena.Sheds before.heap after.heap)
    (hSteady : Arena.Steady before.heap after.heap)
    (hRetraces : Collector.Retraces after.heap before.collector after.collector) :
    after.Owned := by
  have hFrame := hRetraces.current
  have hStack := Collector.stack_eq before.collector
  have hIssued : ∀ handle, before.heap.Issued handle → after.heap.Issued handle :=
    fun _ hOld => hOld.of_sheds hSheds hSteady
  have hCurrent : ∀ handle ∈ before.collector.current.entries, before.heap.Issued handle :=
    h.issued before.collector.current (by simp [hStack])
  refine h.of_stack hStack (by rw [Collector.stack_eq, hRetraces.outer]) hIssued
    (fun _ _ => hSheds.contains_of_contains) ?_ ?_ ?_
  · intro handle hMem
    rcases List.mem_append.1 hMem with hOwned | hTraced
    · exact hIssued _ (hCurrent _ (List.mem_append_left _ (hFrame.owned handle hOwned)))
    · rcases hFrame.traced handle hTraced with hOld | hLive
      · exact hIssued _ (hCurrent _ (List.mem_append_right _ hOld))
      · exact Arena.issued_of_contains hLive
  · intro handle hLive
    have hOnce := h.count_split hStack (hSheds.contains_of_contains hLive)
    rwa [ownedBy_singleton, ← hFrame.count handle hLive] at hOnce
  · intro handle hMem _
    exact ⟨_, List.mem_singleton_self _, hFrame.owned handle hMem⟩

theorem Owned.insert {memory : Memory} (h : memory.Owned) (hs : memory.heap.Sound)
    (hFull : memory.heap.isFull = false) (size : UInt16) (mode : TraceMode) :
    (memory.insert size mode).2.Owned := by
  have hStack := Collector.stack_eq memory.collector
  have hNew := Arena.not_issued_new hs hFull size mode
  obtain ⟨top, hAfter, hExtends⟩ := memory.stack_insert size mode
  have hLive : ∀ handle, memory.heap.Issued handle →
      (memory.heap.insert size mode).2.contains handle = true →
      memory.heap.contains handle = true := by
    intro handle hIssued hContains
    rcases (Arena.contains_insert hs hFull size mode handle).1 hContains with rfl | hOld
    · exact absurd hIssued hNew
    · exact hOld
  refine h.of_stack hStack hAfter (fun handle hIssued => ?_) hLive ?_ ?_ ?_
  · exact (Arena.issued_insert hs hFull size mode).2 (Or.inl hIssued)
  · intro handle hMem
    apply (Arena.issued_insert hs hFull size mode).2
    rcases mem_entries_of_extends hExtends hMem with hOld | hOwned | hTraced
    · exact Or.inl (h.issued _ (by simp [hStack]) handle hOld)
    · exact Or.inr (List.mem_singleton.1 hOwned)
    · cases hTraced
  · intro handle hContains
    rw [hExtends.count_owned hContains]
    rcases (Arena.contains_insert hs hFull size mode handle).1 hContains with rfl | hOld
    · have hCount := h.count_eq_zero hNew
      simp only [hStack, ownedBy_append, ownedBy_singleton, List.count_append] at hCount
      simp only [List.count_singleton_self]
      omega
    · have hOnce := h.count_split hStack hOld
      have hNe : handle ≠ (memory.heap.insert size mode).1 := by
        rintro rfl
        exact hNew (Arena.issued_of_contains hOld)
      have hNone : [(memory.heap.insert size mode).1].count handle = 0 :=
        List.count_eq_zero_of_not_mem (by simpa using hNe)
      rw [ownedBy_singleton] at hOnce
      omega
  · intro handle hMem hIssued
    rcases hExtends.mem_owned hMem with hOld | hEq
    · exact ⟨_, List.mem_singleton_self _, hOld⟩
    · rw [List.mem_singleton] at hEq
      exact absurd (hEq ▸ hIssued) hNew

theorem Owned.push {memory : Memory} (h : memory.Owned) :
    Owned { memory with collector := memory.collector.push } where
  issued := by
    simp only [Collector.stack_push, List.forall_mem_append, List.forall_mem_singleton]
    exact ⟨h.issued, by simp [entries]⟩
  once := by
    intro handle hLive
    rw [Collector.stack_push, ownedBy_append, ownedBy_singleton, List.count_append,
      h.once handle hLive]
    rfl
  apart := by
    rw [Collector.stack_push, List.pairwise_append]
    refine ⟨h.apart, List.pairwise_singleton _ _, ?_⟩
    intro frame _ last hLast handle _ _
    rw [List.mem_singleton] at hLast
    simp [hLast]

theorem Owned.of_closes {before after : Memory} {closed : Frame} (h : before.Owned)
    (hCloses : Closes before closed after)
    (hBack : before.collector.frames.back? = some closed)
    (hSteady : Arena.Steady before.heap after.heap) : after.Owned := by
  obtain ⟨parent, hAfter, hExtends⟩ := hCloses.stack
  have hStack := Collector.stack_of_back?_pop hBack
  have hIssued : ∀ handle, before.heap.Issued handle → after.heap.Issued handle :=
    fun _ hOld => hOld.of_sheds hCloses.sheds hSteady
  have hEntries : ∀ frame ∈ [before.collector.pop.current, closed],
      ∀ handle ∈ frame.entries, before.heap.Issued handle :=
    fun frame hFrame => h.issued frame (hStack ▸ List.mem_append_right _ hFrame)
  refine h.of_stack hStack hAfter hIssued (fun _ _ => hCloses.sheds.contains_of_contains) ?_ ?_ ?_
  · intro handle hMem
    apply hIssued
    rcases mem_entries_of_extends hExtends hMem with hOld | hPromoted | hNone
    · exact hEntries _ (by simp) handle hOld
    · exact hEntries closed (by simp) handle
        (List.mem_append_left _ (List.mem_filter.1 hPromoted).1)
    · cases hNone
  · intro handle hLive
    have hOnce := h.count_split hStack (hCloses.sheds.contains_of_contains hLive)
    rw [hExtends.count_owned hLive, List.count_filter hLive]
    simpa using hOnce
  · intro handle hMem _
    rcases hExtends.mem_owned hMem with hOld | hPromoted
    · exact ⟨before.collector.pop.current, by simp, hOld⟩
    · exact ⟨closed, by simp, (List.mem_filter.1 hPromoted).1⟩

theorem Owned.closeFrame {memory : Memory} (h : memory.Owned) (hs : memory.Sound)
    (hSteady : Arena.Steady memory.heap memory.closeFrame.2.heap) :
    memory.closeFrame.2.Owned := by
  rcases hBack : memory.collector.frames.back? with _ | closed
  · rw [closeFrame_of_root hBack]
    exact h
  · exact h.of_closes (closes_closeFrame hs.heap hBack) hBack hSteady

theorem Owned.closeFrames (n : Nat) (total : SweepReport) {memory : Memory} (h : memory.Owned)
    (hs : memory.Sound)
    (hSteady : Arena.Steady memory.heap (closeFrames n total memory).2.heap) :
    (closeFrames n total memory).2.Owned := by
  induction n generalizing total memory with
  | zero => exact h
  | succ n ih =>
    have hRest := closeFrames_spec n (total.add memory.closeFrame.1) (sound_closeFrame hs)
    obtain ⟨hFirst, hLast⟩ := (sheds_closeFrame hs).steady hRest.2 hSteady
    exact ih _ (h.closeFrame hs hFirst) (sound_closeFrame hs) hLast

theorem Owned.reset (memory : Memory) : memory.reset.Owned where
  issued := by simp [Memory.reset, Collector.reset, Collector.stack, entries]
  once := by
    intro handle hLive
    obtain ⟨alloc, hGet⟩ := Arena.contains_eq_true.1 hLive
    rw [Memory.reset, Arena.get?_clear] at hGet
    cases hGet
  apart := by simp [Memory.reset, Collector.reset, Collector.stack]

theorem Turns.owned {dropped : Handle → Prop} {before after : Memory}
    (h : Turns dropped before after) (hs : before.Sound) (hOwned : before.Owned)
    (hSteady : Arena.Steady before.heap after.heap) : after.Owned := by
  cases h with
  | keep _ hSheds hRetraces _ => exact hOwned.of_retraces hSheds hSteady hRetraces
  | allocate hFull => exact hOwned.insert hs.heap hFull _ _
  | openFrame => exact hOwned.push
  | closeFrame hBack => exact hOwned.of_closes (closes_closeFrame hs.heap hBack) hBack hSteady
  | unwind => exact hOwned.closeFrames _ _ hs hSteady
  | reset => exact Owned.reset before

theorem owned_of_served {before served : Memory}
    (h : Relation.ReflTransGen Serves before served) (hs : before.Sound)
    (hOwned : before.Owned) : served.Owned := by
  induction h with
  | refl => exact hOwned
  | tail hFirst hStep ih =>
    have hSound := sound_of_served hFirst hs
    refine (hStep.turns hSound.heap fun _ => True).owned hSound ih ?_
    intro slot
    rw [hStep.generationAt hSound.heap slot]
    exact UInt32.le_refl _

theorem Moves.owned {dropped : Handle → Prop} {before after : Memory}
    (h : Moves dropped before after) (hs : before.Sound) (hOwned : before.Owned)
    (hSteady : Arena.Steady before.heap after.heap) : after.Owned := by
  obtain ⟨served, hServed, hTurns⟩ := h
  refine hTurns.owned (sound_of_served hServed hs) (owned_of_served hServed hs hOwned) ?_
  intro slot
  rw [generationAt_of_served hServed hs slot]
  exact hSteady slot

/-! ## Step after step -/

/-- As long as no slot is released `2 ^ 32` times, every memory of a run is sound, and
its live allocations have one owner each. -/
theorem sound_and_owned_along {dropped : Handle → Prop} {first : Memory} {later : List Memory}
    (hs : first.Sound) (hOwned : first.Owned)
    (hEmpty : ∀ slot, first.heap.generationAt slot = 0)
    (hMoves : (first :: later).IsChain (Moves dropped))
    (hReleases : ∀ slot, Arena.releases ((first :: later).map Memory.heap) slot < 2 ^ 32) :
    ∀ memory ∈ first :: later, memory.Sound ∧ memory.Owned := by
  have hSteady := isChain_steady_of_moves hs hEmpty hMoves hReleases
  clear hEmpty hReleases
  induction later generalizing first with
  | nil =>
    rw [List.forall_mem_singleton]
    exact ⟨hs, hOwned⟩
  | cons next later ih =>
    rw [List.isChain_cons_cons] at hMoves
    rw [List.map_cons, List.map_cons, List.isChain_cons_cons] at hSteady
    rw [List.forall_mem_cons]
    refine ⟨⟨hs, hOwned⟩, ih (hMoves.1.sound hs) ?_ hMoves.2 hSteady.2⟩
    exact hMoves.1.owned hs hOwned hSteady.1

end Memory

end RegisterMachine

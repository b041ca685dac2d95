-- Closing a frame is exact. In a memory that any run has led to, the innermost frame
-- can be closed whenever a frame is open; the allocations that are released are those
-- of the frame that its traces do not reach, and the others go to the frame below.
import RegisterMachine.Proofs.FrameAttempts
import RegisterMachine.Proofs.MemoryRuns
import RegisterMachine.Proofs.Ownership

namespace RegisterMachine.Memory

open RegisterMachine.Frame

/-! ## The frame below -/

section Below

variable {before after : Memory} {closed : Frame} (h : before.Owned)
  (hBack : before.collector.frames.back? = some closed)

include h hBack

/-- A live allocation with an entry in the frame below is not the closed frame's. -/
theorem not_owned_by_closed {handle : Handle}
    (hMem : handle ∈ before.collector.pop.current.entries)
    (hLive : before.heap.contains handle = true) : handle ∉ closed.owned := by
  have hStack := Collector.stack_of_back?_pop hBack
  rw [← Array.mem_toList_iff]
  rcases List.mem_append.1 hMem with hOwned | hTraced
  · intro hClosed
    have hOnce := h.count_split hStack hLive
    have hBelow := List.count_pos_iff.2 hOwned
    have hAbove := List.count_pos_iff.2 hClosed
    simp only [ownedBy_cons, ownedBy_nil, List.append_nil, List.count_append] at hOnce
    omega
  · have hApart := h.apart
    rw [hStack, List.pairwise_append, List.pairwise_pair] at hApart
    exact hApart.2.1 handle hTraced hLive

/-- So the frame below loses no entry of a live allocation. -/
theorem below_keeps_live (hCloses : Closes before closed after) :
    ∃ parent, after.collector.stack = before.collector.pop.outer ++ [parent] ∧
      Extends before.heap (closed.owned.toList.filter after.heap.contains) []
        before.collector.pop.current parent := by
  obtain ⟨parent, hStack, keep, hKeep, hOwned, hTraced⟩ := hCloses.stack
  have hFilter : ∀ handle ∈ before.collector.pop.current.entries,
      keep handle = (keep handle || before.heap.contains handle) := by
    intro handle hMem
    by_cases hLive : before.heap.contains handle = true
    · have hStays := (hCloses.contains handle).2
        ⟨hLive, Or.inl (not_owned_by_closed h hBack hMem hLive)⟩
      rw [hKeep handle hStays, Bool.true_or]
    · simp [hLive]
  refine ⟨parent, hStack, fun handle => keep handle || before.heap.contains handle, ?_, ?_, ?_⟩
  · intro handle hLive
    simp [hLive]
  · rw [hOwned]
    congr 1
    exact List.filter_congr fun handle hMem => hFilter handle (List.mem_append_left _ hMem)
  · rw [hTraced]
    congr 1
    exact List.filter_congr fun handle hMem => hFilter handle (List.mem_append_right _ hMem)

end Below

/-! ## The law -/

/-- Whenever a frame is open, the innermost one can be closed, and no release fails when this is
done step by step. An allocation is live afterwards when it was live and is not of the closed
frame, or is reached from its traces. What stays of the closed frame goes behind the entries of
the frame below, in order, and that frame loses at most entries of released allocations; nothing
else changes but marks. -/
theorem closing_a_frame_releases_what_it_does_not_reach (heapLimit poolLimit frameLimit : Nat)
    (ops : List Operation) (before : Memory)
    (hRun : (make heapLimit poolLimit frameLimit).run ops = before)
    (hReleases : ∀ slot,
      Arena.releases ((make heapLimit poolLimit frameLimit).heaps ops) slot < 2 ^ 32)
    (hOpen : 0 < before.collector.depth) :
    ∃ report after outer parent closed parent',
      before.clean = .ok (report, after) ∧
      before.tryClean = .ok report after ∧
      before.collector.stack = outer ++ [parent, closed] ∧
      after.collector.stack = outer ++ [parent'] ∧
      after.collector.frameLimit = before.collector.frameLimit ∧
      (∀ handle, after.heap.contains handle = true ↔
        before.heap.contains handle = true ∧
          (handle ∉ closed.owned ∨ before.heap.Reaches closed.traced.toList handle)) ∧
      (∀ handle alloc, after.heap.get? handle = some alloc →
        ∃ old mark, before.heap.get? handle = some old ∧ alloc = old.setMark mark) ∧
      ∃ keep : Handle → Bool,
        (∀ handle, before.heap.contains handle = true → keep handle = true) ∧
        parent'.owned.toList = parent.owned.toList.filter keep ++
          closed.owned.toList.filter after.heap.contains ∧
        parent'.traced.toList = parent.traced.toList.filter keep := by
  have hFirst := sound_make heapLimit poolLimit frameLimit
  obtain ⟨hs, hOwned⟩ := sound_and_owned_along hFirst (owned_make heapLimit poolLimit frameLimit)
    (generationAt_make heapLimit poolLimit frameLimit) (isChain_trail hFirst ops) hReleases _
    (run_mem_trail _ ops)
  rw [hRun] at hs hOwned
  have hFrames := Collector.isEmpty_of_depth hOpen
  obtain ⟨closed, hBack⟩ := Collector.back?_of_isEmpty hFrames
  have hCloses := closes_closeFrame hs.heap hBack
  obtain ⟨parent', hStack, keep, hKeep, hParent, hTraced⟩ := below_keeps_live hOwned hBack hCloses
  refine ⟨before.closeFrame.1, before.closeFrame.2, before.collector.pop.outer,
    before.collector.pop.current, closed, parent', ?_, tryClean_eq hFrames,
    Collector.stack_of_back?_pop hBack, hStack,
    hCloses.frameLimit, hCloses.contains, hCloses.get?, keep, hKeep, hParent, ?_⟩
  · unfold clean
    rw [if_neg (by simp [hFrames])]
  · rw [hTraced, List.append_nil]

/-- Two arrays that hold each other, of which one is traced, go to the root frame when
their frame is closed; a third array of the frame, which nothing leads to, is released. -/
theorem a_traced_cycle_outlives_its_frame :
    let ops : List Operation :=
      [.openFrame, .allocate 1 .always, .allocate 1 .always, .allocate 1 .always,
       .store ⟨0, 0⟩ 0 (.handle ⟨1, 0⟩), .store ⟨1, 0⟩ 0 (.handle ⟨0, 0⟩),
       .store ⟨2, 0⟩ 0 (.handle ⟨0, 0⟩), .trace ⟨0, 0⟩]
    let before := (make 8 2 4).run ops
    (∀ slot, Arena.releases ((make 8 2 4).heaps ops) slot < 2 ^ 32) ∧
      0 < before.collector.depth ∧
      ∃ report after, before.clean = .ok (report, after) ∧
        after.heap.contains ⟨0, 0⟩ = true ∧ after.heap.contains ⟨1, 0⟩ = true ∧
        after.heap.contains ⟨2, 0⟩ = false ∧
        ∃ root, after.collector.stack = [root] ∧ root.owned.toList = [⟨0, 0⟩, ⟨1, 0⟩] := by
  intro ops before
  have hReleases : ∀ slot, Arena.releases ((make 8 2 4).heaps ops) slot < 2 ^ 32 := by
    intro slot
    have hLength : ((make 8 2 4).heaps ops).length = 9 := by decide +kernel
    have hle := Arena.releases_le_length ((make 8 2 4).heaps ops) slot
    omega
  have hOpen : 0 < before.collector.depth := by decide +kernel
  have hStack : before.collector.stack =
      [{}, { owned := #[⟨0, 0⟩, ⟨1, 0⟩, ⟨2, 0⟩], traced := #[⟨0, 0⟩] }] := by decide +kernel
  have hFirst : before.heap.get? ⟨0, 0⟩ =
      some ((Allocation.fresh 1 1 .always).write 0 (.handle ⟨1, 0⟩)) := by decide +kernel
  have hSecond : before.heap.get? ⟨1, 0⟩ =
      some ((Allocation.fresh 1 1 .always).write 0 (.handle ⟨0, 0⟩)) := by decide +kernel
  have hReach₀ : before.heap.Reaches [⟨0, 0⟩] ⟨0, 0⟩ := .root (by simp) (by decide +kernel)
  have hReach₁ : before.heap.Reaches [⟨0, 0⟩] ⟨1, 0⟩ :=
    .step hReach₀ hFirst (Allocation.mem_children.1 (by decide)) (by decide +kernel)
  have hOnly : ∀ handle, before.heap.Reaches [⟨0, 0⟩] handle →
      handle = ⟨0, 0⟩ ∨ handle = ⟨1, 0⟩ := by
    intro handle hReach
    induction hReach with
    | root hMem _ => exact Or.inl (List.mem_singleton.1 hMem)
    | step _ hGet hLeads _ ih =>
      have hChild := Allocation.mem_children.2 hLeads
      rcases ih with rfl | rfl
      · rw [hFirst, Option.some.injEq] at hGet
        subst hGet
        exact Or.inr (List.mem_singleton.1 hChild)
      · rw [hSecond, Option.some.injEq] at hGet
        subst hGet
        exact Or.inl (List.mem_singleton.1 hChild)
  obtain ⟨report, after, outer, parent, closed, parent', hClean, -, hFrames, hAfter, -,
      hContains, -, keep, -, hParent, -⟩ :=
    closing_a_frame_releases_what_it_does_not_reach 8 2 4 ops before rfl hReleases hOpen
  have hLists : outer = [] ∧ parent = {} ∧
      closed = { owned := #[⟨0, 0⟩, ⟨1, 0⟩, ⟨2, 0⟩], traced := #[⟨0, 0⟩] } := by
    have hSplit : outer ++ [parent, closed] = [] ++ [_, _] := hFrames.symm.trans hStack
    obtain ⟨hOuter, hTops⟩ := List.append_inj' hSplit rfl
    simpa using And.intro hOuter hTops
  obtain ⟨rfl, rfl, rfl⟩ := hLists
  have hLive₀ : after.heap.contains ⟨0, 0⟩ = true :=
    (hContains ⟨0, 0⟩).2 ⟨hReach₀.live, Or.inr hReach₀⟩
  have hLive₁ : after.heap.contains ⟨1, 0⟩ = true :=
    (hContains ⟨1, 0⟩).2 ⟨hReach₁.live, Or.inr hReach₁⟩
  have hDead : after.heap.contains ⟨2, 0⟩ = false := by
    rw [← Bool.not_eq_true, hContains]
    rintro ⟨-, hOwned | hReach⟩
    · simp at hOwned
    · exact absurd (hOnly _ hReach) (by decide)
  refine ⟨hReleases, hOpen, report, after, hClean, hLive₀, hLive₁, hDead, parent', hAfter, ?_⟩
  rw [hParent]
  simp [hLive₀, hLive₁, hDead]

end RegisterMachine.Memory

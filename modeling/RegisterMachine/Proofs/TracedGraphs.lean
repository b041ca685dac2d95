-- Traces of all that a handle leads to. Adding them and dropping them goes by what is reachable,
-- whatever cycles the arrays form, whatever passes marked them before, and whatever dead entries
-- the frame takes out in the middle. Nothing else changes: neither the arrays nor their owners
-- nor any other frame.
import RegisterMachine.Proofs.ArenaCapacity
import RegisterMachine.Proofs.MemoryRuns

namespace RegisterMachine

/-! ## A walk visits each allocation once -/

namespace Arena

theorem nodup_markFrom {epoch : UInt32} {work : List Handle} {visited : Array Handle}
    {heap : Arena} (hNodup : visited.toList.Nodup)
    (hMarked : ∀ handle ∈ visited, heap.isMarked handle epoch = true) :
    (heap.markFrom epoch work visited).2.toList.Nodup := by
  fun_induction markFrom epoch work visited heap with
  | case1 => exact hNodup
  | case2 visited heap next rest hGet ih => exact ih hNodup hMarked
  | case3 visited heap next rest alloc hGet hMark ih => exact ih hNodup hMarked
  | case4 visited heap next rest alloc hGet hMark work ih =>
    have hNew : next ∉ visited := by
      intro hMem
      have hOld := hMarked next hMem
      simp [isMarked, hGet, hMark] at hOld
    apply ih
    · rw [Array.toList_push, List.nodup_append]
      refine ⟨hNodup, List.nodup_singleton next, ?_⟩
      intro x hx y hy hxy
      rw [List.mem_singleton] at hy
      exact hNew (hy ▸ hxy ▸ Array.mem_toList_iff.1 hx)
    · intro handle hMem
      rw [isMarked_setMark hGet]
      rcases Array.mem_push.1 hMem with hOld | hNext
      · exact Or.inr (hMarked handle hOld)
      · exact Or.inl hNext

theorem nodup_mark (heap : Arena) (roots : List Handle) :
    (heap.mark roots).2.1.toList.Nodup := by
  apply nodup_markFrom <;> simp

theorem sound_call {heap : Arena} (hs : heap.Sound) (call : Call) :
    (heap.call call).2.Sound := by
  have hOperates := (does_call heap call).operates hs
  generalize (heap.call call).2 = after at hOperates ⊢
  induction hOperates with
  | refl => exact hs
  | tail _ hStep ih => exact hStep.sound ih

end Arena

/-! ## Lists of a frame -/

namespace Frame

theorem Extends.mem_traced_iff {heap : Arena} {owned traced : List Handle} {before after : Frame}
    (h : Extends heap owned traced before after) {handle : Handle}
    (hLive : heap.contains handle = true) :
    handle ∈ after.traced ↔ handle ∈ before.traced ∨ handle ∈ traced := by
  obtain ⟨keep, hKeep, -, hTraced⟩ := h
  rw [← Array.mem_toList_iff, hTraced]
  simp [hKeep handle hLive]

/-- Of the live entries, none is lost, and the new ones come behind the others. -/
theorem Extends.filter_live {heap : Arena} {owned traced : List Handle} {before after : Frame}
    (h : Extends heap owned traced before after)
    (hOwned : ∀ handle ∈ owned, heap.contains handle = true)
    (hTraced : ∀ handle ∈ traced, heap.contains handle = true) :
    after.owned.toList.filter heap.contains =
        before.owned.toList.filter heap.contains ++ owned ∧
      after.traced.toList.filter heap.contains =
        before.traced.toList.filter heap.contains ++ traced := by
  obtain ⟨keep, hKeep, hO, hT⟩ := h
  have hBoth : (fun handle => heap.contains handle && keep handle) = heap.contains := by
    funext handle
    cases hLive : heap.contains handle <;> simp [hKeep, hLive]
  rw [hO, hT, List.filter_append, List.filter_append, List.filter_filter, List.filter_filter,
    hBoth, List.filter_eq_self.2 hOwned, List.filter_eq_self.2 hTraced]
  exact ⟨rfl, rfl⟩

theorem nodup_swapRemove {entries : Array Handle} (h : entries.toList.Nodup) (i : Nat) :
    (Arena.swapRemove entries i).toList.Nodup := by
  unfold Arena.swapRemove
  split
  · rename_i last hBack
    have hSplit : entries.toList.dropLast ++ [last] = entries.toList :=
      List.dropLast_append_getLast? last (by simp [hBack])
    rw [← hSplit, List.nodup_append] at h
    obtain ⟨hBelow, -, hApart⟩ := h
    have hLast : last ∉ entries.toList.dropLast := fun hMem => hApart last hMem last (by simp) rfl
    simp only [Array.toList_pop, Array.toList_setIfInBounds]
    rw [← hSplit, List.set_append]
    split
    · rw [List.dropLast_concat]
      exact hBelow.set hLast
    · have hSame : [last].set (i - entries.toList.dropLast.length) last = [last] := by
        cases i - entries.toList.dropLast.length <;> rfl
      rw [hSame, List.dropLast_concat]
      exact hBelow
  · exact h

theorem nodup_removeLast {entries : Array Handle} (h : entries.toList.Nodup) (handle : Handle) :
    (removeLast entries handle).toList.Nodup := by
  unfold removeLast
  split
  · exact nodup_swapRemove h _
  · exact h

end Frame

namespace Memory

variable {memory after : Memory} {handle : Handle}

/-! ## Calls of the arena and of the collector -/

/-- One call of the arena of a memory or of its collector. -/
inductive Touches (memory : Memory) : Memory → Prop
  | heap (call : Arena.Call) : Touches memory (memory.withHeap (memory.heap.call call).2)
  | register (handle : Handle) :
      Touches memory (memory.withCollector (memory.collector.register memory.heap handle))
  | forget (handle : Handle) :
      Touches memory (memory.withCollector (memory.collector.forget handle))
  | openFrame {collector : Collector} (h : memory.collector.openFrame = .ok collector) :
      Touches memory (memory.withCollector collector)
  | trace {handle : Handle} {collector : Collector}
      (h : memory.collector.trace memory.heap handle = .ok collector) :
      Touches memory (memory.withCollector collector)
  | untrace (handle : Handle) :
      Touches memory (memory.withCollector (memory.collector.untrace handle).2)
  | supertrace {handle : Handle} {count : Nat} {after : Memory}
      (h : memory.supertrace handle = .ok (count, after)) : Touches memory after
  | detrace {handle : Handle} {count : Nat} {after : Memory}
      (h : memory.detrace handle = .ok (count, after)) : Touches memory after
  | clean {report : SweepReport} {after : Memory} (h : memory.clean = .ok (report, after)) :
      Touches memory after
  | unwind : Touches memory memory.unwind.2
  | reset : Touches memory (memory.withCollector memory.collector.reset)

/-- A change of the current frame keeps a memory sound when no trace comes twice. -/
theorem Sound.modifyCurrent (hs : memory.Sound) {change : Frame → Frame}
    (h : ∀ frame : Frame, frame.traced.toList.Nodup → (change frame).traced.toList.Nodup) :
    (memory.withCollector (memory.collector.modifyCurrent change)).Sound := by
  refine hs.of_current hs.heap (Collector.outer_modifyCurrent _ _) ?_
  intro hNodup
  simp only [withCollector, Collector.current_modifyCurrent]
  exact h _ hNodup

theorem Touches.sound (h : memory.Touches after) (hs : memory.Sound) : after.Sound := by
  cases h with
  | heap call => exact ⟨Arena.sound_call hs.heap call, hs.traced⟩
  | register handle =>
    apply hs.modifyCurrent
    intro frame hNodup
    exact Frame.nodup_traced_of_extends (Frame.extends_own _ _ _) hNodup List.nodup_nil (by simp)
  | forget handle =>
    apply hs.modifyCurrent
    intro frame hNodup
    simp only [Frame.forget, Array.toList_filter]
    exact hNodup.filter _
  | openFrame hOpen =>
    unfold Collector.openFrame at hOpen
    split at hOpen
    · cases hOpen
      have hTurns : Turns (fun _ => True) memory _ := .openFrame
      exact hTurns.sound hs
    · cases hOpen
  | trace hTrace =>
    unfold Collector.trace at hTrace
    split at hTrace
    · rename_i hLive
      cases hTrace
      have hTurns : Turns (fun _ => True) memory _ := turns_addTrace hs.heap hLive
      exact hTurns.sound hs
    · cases hTrace
  | untrace handle =>
    apply hs.modifyCurrent
    intro frame hNodup
    exact Frame.nodup_removeLast hNodup handle
  | supertrace hTrace =>
    have hTurns : Turns (fun _ => True) memory after := turns_supertrace hs.heap hTrace
    exact hTurns.sound hs
  | detrace hTrace =>
    have hTurns : Turns (fun _ => True) memory after := turns_detrace hs.heap hTrace
    exact hTurns.sound hs
  | clean hClean =>
    have hAfter := (clean_eq_ok hClean).2
    have hClosed := sound_closeFrame hs
    rw [← hAfter] at hClosed
    exact hClosed
  | unwind => exact (closeFrames_spec _ _ hs).1
  | reset =>
    refine ⟨hs.heap, ?_⟩
    simp [withCollector, Collector.reset, Collector.stack]

theorem touched_runCalls (memory : Memory) (history : History) (calls : List Arena.Call) :
    Relation.ReflTransGen Touches memory
      (memory.withHeap (Arena.runCalls (history, memory.heap) calls).2) := by
  induction calls generalizing memory history with
  | nil => exact .refl
  | cons call calls ih =>
    exact .head (.heap call) (ih (memory.withHeap (memory.heap.call call).2) _)

theorem sound_of_touched {heapLimit poolLimit frameLimit : Nat}
    (h : Relation.ReflTransGen Touches (make heapLimit poolLimit frameLimit) memory) :
    memory.Sound := by
  induction h with
  | refl => exact sound_make _ _ _
  | tail _ hStep ih => exact hStep.sound ih

/-! ## Adding traces -/

/-- The traces of handles that the current frame has already change nothing. -/
theorem foldl_traceCounted_of_traced (heap : Arena) {handles : List Handle}
    (state : Nat × Collector) (h : ∀ handle ∈ handles, handle ∈ state.2.current.traced) :
    handles.foldl (traceCounted heap) state = state := by
  induction handles with
  | nil => rfl
  | cons handle handles ih =>
    have hFirst : traceCounted heap state handle = state := by
      unfold traceCounted
      rw [if_pos (Frame.isTracing_iff_mem.2 (h handle (by simp)))]
    rw [List.foldl_cons, hFirst]
    exact ih fun other hMem => h other (List.mem_cons_of_mem _ hMem)

/-- The handles that the current frame has no trace of are counted, and go behind its traces. -/
theorem foldl_traceCounted_spec {heap : Arena} {handles : List Handle} (hNodup : handles.Nodup)
    (hLive : ∀ handle ∈ handles, heap.contains handle = true) (state : Nat × Collector) :
    let added := handles.filter (· ∉ state.2.current.traced)
    (handles.foldl (traceCounted heap) state).1 = state.1 + added.length ∧
      (handles.foldl (traceCounted heap) state).2.outer = state.2.outer ∧
      (handles.foldl (traceCounted heap) state).2.frameLimit = state.2.frameLimit ∧
      Frame.Extends heap [] added state.2.current
        (handles.foldl (traceCounted heap) state).2.current := by
  induction handles generalizing state with
  | nil => exact ⟨rfl, rfl, rfl, Frame.extends_refl _ _⟩
  | cons handle handles ih =>
    obtain ⟨hNew, hRest⟩ := List.nodup_cons.1 hNodup
    have hRestLive := fun other hMem => hLive other (List.mem_cons_of_mem handle hMem)
    rw [List.foldl_cons]
    by_cases hTraced : handle ∈ state.2.current.traced
    · have hFirst : traceCounted heap state handle = state := by
        unfold traceCounted
        rw [if_pos (Frame.isTracing_iff_mem.2 hTraced)]
      rw [hFirst, List.filter_cons_of_neg (by simpa using hTraced)]
      exact ih hRest hRestLive state
    · have hFirst : traceCounted heap state handle =
          (state.1 + 1, state.2.modifyCurrent (·.pushTrace heap handle)) := by
        unfold traceCounted
        rw [if_neg fun h => hTraced (Frame.isTracing_iff_mem.1 h)]
      have hPush := Frame.extends_pushTrace heap state.2.current handle
      obtain ⟨hCount, hOuter, hLimit, hExtends⟩ :=
        ih hRest hRestLive (traceCounted heap state handle)
      rw [hFirst] at hCount hOuter hLimit hExtends ⊢
      simp only [Collector.current_modifyCurrent, Collector.outer_modifyCurrent,
        Collector.frameLimit_modifyCurrent] at hCount hOuter hLimit hExtends
      -- The frame may have lost dead traces, but the other handles are live.
      have hSame : handles.filter (· ∉ (state.2.current.pushTrace heap handle).traced) =
          handles.filter (· ∉ state.2.current.traced) := by
        apply List.filter_congr
        intro other hMem
        have hNe : other ≠ handle := fun h => hNew (h ▸ hMem)
        simp [hPush.mem_traced_iff (hRestLive other hMem), hNe]
      rw [hSame] at hCount hExtends
      rw [List.filter_cons_of_pos (by simpa using hTraced)]
      refine ⟨?_, hOuter, hLimit, hPush.trans hExtends (fun _ h => h) (by simp) ?_⟩
      · rw [hCount, List.length_cons]
        omega
      · simpa using hLive handle (by simp)

/-! ## What stays -/

/-- The live traces of the current frame. -/
def liveTraces (memory : Memory) : List Handle :=
  memory.collector.current.traced.toList.filter memory.heap.contains

/-- The live allocations of the current frame. -/
def liveOwned (memory : Memory) : List Handle :=
  memory.collector.current.owned.toList.filter memory.heap.contains

/-- No more than the traces of the current frame has changed, and the marks: the arrays are the
same, so are the other frames, and every live allocation has the owner that it had. -/
structure Retraced (before after : Memory) : Prop where
  contents : after.heap.contents = before.heap.contents
  frameLimit : after.collector.frameLimit = before.collector.frameLimit
  outer : after.collector.outer = before.collector.outer
  owned : after.liveOwned = before.liveOwned

/-- The allocations that a handle reaches, each once. -/
structure Reached (heap : Arena) (handle : Handle) (reach : List Handle) : Prop where
  nodup : reach.Nodup
  mem : ∀ other, other ∈ reach ↔ heap.Reaches [handle] other

theorem reached_mark {heap : Arena} (hs : heap.Sound) (handle : Handle) :
    Reached heap handle (heap.mark [handle]).2.1.toList :=
  ⟨heap.nodup_mark [handle], fun _ => Array.mem_toList_iff.trans (Arena.mem_mark hs)⟩

theorem Reached.of_contents {heap heap' : Arena} {reach : List Handle}
    (h : Reached heap handle reach) (hSame : heap'.contents = heap.contents) :
    Reached heap' handle reach :=
  ⟨h.nodup, fun other => (h.mem other).trans
    ⟨fun hReach => hReach.of_contents hSame, fun hReach => hReach.of_contents hSame.symm⟩⟩

/-! ## Tracing and dropping what is reachable -/

theorem supertrace_of_live (hLive : memory.heap.contains handle = true)
    {state : Nat × Collector}
    (hState : (memory.heap.mark [handle]).2.1.toList.foldl
      (traceCounted (memory.heap.mark [handle]).2.2) (0, memory.collector) = state) :
    memory.supertrace handle =
      .ok (state.1, { heap := (memory.heap.mark [handle]).2.2, collector := state.2 }) := by
  unfold supertrace
  rw [if_pos hLive]
  simp only [← Array.foldl_toList, hState]

/-- A handle is traced with all that it reaches. -/
theorem supertrace_spec (hs : memory.Sound) (hLive : memory.heap.contains handle = true) :
    ∃ reach after, Reached memory.heap handle reach ∧
      memory.supertrace handle =
        .ok ((reach.filter (· ∉ memory.collector.current.traced)).length, after) ∧
      memory.Retraced after ∧ after.Sound ∧
      after.liveTraces =
        memory.liveTraces ++ reach.filter (· ∉ memory.collector.current.traced) := by
  have hReached := reached_mark hs.heap handle
  have hSame := Arena.contents_mark memory.heap [handle]
  have hContains := funext (Arena.contains_of_contents hSame)
  have hLives : ∀ other ∈ (memory.heap.mark [handle]).2.1.toList,
      (memory.heap.mark [handle]).2.2.contains other = true := by
    intro other hMem
    rw [hContains]
    exact ((hReached.mem other).1 hMem).live
  obtain ⟨hCount, hOuter, hLimit, hExtends⟩ :=
    foldl_traceCounted_spec hReached.nodup hLives (0, memory.collector)
  generalize hState : (memory.heap.mark [handle]).2.1.toList.foldl
    (traceCounted (memory.heap.mark [handle]).2.2) (0, memory.collector) = state
    at hCount hOuter hLimit hExtends
  have hTrace := supertrace_of_live hLive hState
  have hTurns : Turns (fun _ => True) memory _ := turns_supertrace hs.heap hTrace
  obtain ⟨hOwned, hTraced⟩ := hExtends.filter_live (by simp)
    fun other hMem => hLives other (List.mem_of_mem_filter hMem)
  rw [hContains] at hOwned hTraced
  rw [hCount, Nat.zero_add] at hTrace
  refine ⟨_, _, hReached, hTrace, ⟨hSame, hLimit, hOuter, ?_⟩, hTurns.sound hs, ?_⟩
  · simpa [liveOwned, hContains] using hOwned
  · simpa [liveTraces, hContains] using hTraced

/-- What is traced already is not traced again. -/
theorem supertrace_of_traced (hs : memory.Sound) {reach : List Handle}
    (hReached : Reached memory.heap handle reach) (hLive : memory.heap.contains handle = true)
    (h : ∀ other ∈ reach, other ∈ memory.collector.current.traced) :
    ∃ after, memory.supertrace handle = .ok (0, after) ∧
      after.collector = memory.collector ∧ after.heap.contents = memory.heap.contents := by
  have hVisited : ∀ other ∈ (memory.heap.mark [handle]).2.1.toList,
      other ∈ memory.collector.current.traced := by
    intro other hMem
    exact h other ((hReached.mem other).2 (((reached_mark hs.heap handle).mem other).1 hMem))
  have hState := foldl_traceCounted_of_traced (memory.heap.mark [handle]).2.2
    (0, memory.collector) hVisited
  exact ⟨_, supertrace_of_live hLive hState, rfl, Arena.contents_mark memory.heap [handle]⟩

theorem detrace_of_live (hLive : memory.heap.contains handle = true) {keep : Handle → Bool}
    (hKeep : (fun other => !(memory.heap.mark [handle]).2.2.isMarked other
      (memory.heap.mark [handle]).1) = keep) :
    memory.detrace handle =
      .ok (memory.collector.current.traced.size -
          (memory.collector.current.traced.filter keep).size,
        { heap := (memory.heap.mark [handle]).2.2,
          collector := memory.collector.modifyCurrent fun frame =>
            { frame with traced := frame.traced.filter keep } }) := by
  unfold detrace
  rw [if_pos hLive]
  simp only [hKeep, Collector.current_modifyCurrent]

/-- Of the traces of the current frame, those are dropped that the handle reaches. -/
theorem detrace_spec (hs : memory.Sound) {reach : List Handle}
    (hReached : Reached memory.heap handle reach) (hLive : memory.heap.contains handle = true) :
    ∃ after, memory.detrace handle =
        .ok ((memory.collector.current.traced.toList.filter (· ∈ reach)).length, after) ∧
      memory.Retraced after ∧
      after.collector.current.traced.toList =
        memory.collector.current.traced.toList.filter (· ∉ reach) := by
  have hSame := Arena.contents_mark memory.heap [handle]
  have hContains := funext (Arena.contains_of_contents hSame)
  have hKeep : (fun other => !(memory.heap.mark [handle]).2.2.isMarked other
      (memory.heap.mark [handle]).1) = fun other => decide (other ∉ reach) := by
    funext other
    have hMarked : (memory.heap.mark [handle]).2.2.isMarked other (memory.heap.mark [handle]).1
        = decide (other ∈ reach) := by
      rw [Bool.eq_iff_iff, Arena.isMarked_mark hs.heap, ← hReached.mem, decide_eq_true_iff]
    rw [hMarked, decide_not]
  have hDetrace := detrace_of_live hLive hKeep
  have hCount : memory.collector.current.traced.size -
        (memory.collector.current.traced.filter fun other => decide (other ∉ reach)).size =
      (memory.collector.current.traced.toList.filter (· ∈ reach)).length := by
    have hLength := memory.collector.current.traced.toList.length_eq_length_filter_add
      (fun other => decide (other ∈ reach))
    have hKept : (memory.collector.current.traced.filter fun other => decide (other ∉ reach)).size =
        (memory.collector.current.traced.toList.filter (· ∉ reach)).length :=
      Array.length_toList.symm.trans (congrArg List.length Array.toList_filter)
    rw [Array.length_toList] at hLength
    simp only [decide_not] at hKept ⊢
    omega
  rw [hCount] at hDetrace
  refine ⟨_, hDetrace, ⟨hSame, Collector.frameLimit_modifyCurrent _ _,
    Collector.outer_modifyCurrent _ _, ?_⟩, ?_⟩
  · simp [liveOwned, Collector.current_modifyCurrent, hContains]
  · simp [Collector.current_modifyCurrent]

/-! ## The law -/

/-- Traces go by what is reachable. In any memory that calls of the arena and of the collector
lead to, take a live handle and the allocations that it reaches. Tracing all of them gives the
number of those that the current frame had no trace of, and puts these behind its live traces;
doing it again gives zero and changes no trace. Dropping all of them gives the number of traces
that the handle reaches, and keeps the other ones in order; after the tracing, the live traces
that had been there are left, less what is reached. Nothing else changes but marks. With a stale
handle both are internal faults and change nothing. -/
theorem traces_go_by_what_is_reachable (heapLimit poolLimit frameLimit : Nat) (memory : Memory)
    (hCalls : Relation.ReflTransGen Touches (make heapLimit poolLimit frameLimit) memory)
    (handle : Handle) :
    (memory.heap.contains handle = true →
      ∃ reach, Reached memory.heap handle reach ∧
        let traces := memory.collector.current.traced.toList
        (∃ traced, memory.supertrace handle = .ok ((reach.filter (· ∉ traces)).length, traced) ∧
          memory.Retraced traced ∧ traced.collector.current.traced.toList.Nodup ∧
          traced.liveTraces = memory.liveTraces ++ reach.filter (· ∉ traces) ∧
          (∃ again, traced.supertrace handle = .ok (0, again) ∧
            again.collector = traced.collector ∧ again.heap.contents = traced.heap.contents) ∧
          ∃ dropped left, traced.detrace handle = .ok (dropped, left) ∧ traced.Retraced left ∧
            left.liveTraces = memory.liveTraces.filter (· ∉ reach)) ∧
        ∃ left, memory.detrace handle = .ok ((traces.filter (· ∈ reach)).length, left) ∧
          memory.Retraced left ∧
          left.collector.current.traced.toList = traces.filter (· ∉ reach)) ∧
    (memory.heap.contains handle = false →
      memory.supertrace handle = .error .internal ∧ memory.detrace handle = .error .internal ∧
      memory.perform (.supertrace handle) = memory ∧
      memory.perform (.detrace handle) = memory) := by
  have hs := sound_of_touched hCalls
  constructor
  · intro hLive
    obtain ⟨reach, traced, hReached, hTrace, hRetraced, hTraced, hTraces⟩ :=
      supertrace_spec hs hLive
    have hReached' := hReached.of_contents hRetraced.contents
    have hContains := Arena.contains_of_contents hRetraced.contents
    have hLive' := (hContains handle).trans hLive
    have hAll : ∀ other ∈ reach, other ∈ traced.collector.current.traced := by
      intro other hMem
      have hOther : other ∈ traced.liveTraces := by
        have hReach := (hReached.mem other).1 hMem
        rw [hTraces, liveTraces, List.mem_append, List.mem_filter, List.mem_filter]
        by_cases hOld : other ∈ memory.collector.current.traced
        · exact Or.inl ⟨Array.mem_toList_iff.2 hOld, hReach.live⟩
        · exact Or.inr ⟨hMem, by simpa using hOld⟩
      exact Array.mem_toList_iff.1 (List.mem_of_mem_filter hOther)
    obtain ⟨left, hLeft, hLeftRetraced, hKept⟩ := detrace_spec hs hReached hLive
    obtain ⟨left', hLeft', hLeftRetraced', hKept'⟩ := detrace_spec hTraced hReached' hLive'
    simp only [Array.mem_toList_iff]
    refine ⟨reach, hReached, ⟨traced, hTrace, hRetraced, ?_, hTraces,
      supertrace_of_traced hTraced hReached' hLive' hAll, _, left', hLeft', hLeftRetraced', ?_⟩,
      left, hLeft, hLeftRetraced, hKept⟩
    · exact hTraced.traced _ (by simp [Collector.stack_eq])
    · -- The traces that were added are all reached, so that none of them is left.
      have hSame := Arena.contains_of_contents hLeftRetraced'.contents
      have hAdded :
          (reach.filter (· ∉ memory.collector.current.traced)).filter (· ∉ reach) = [] := by
        simp only [List.filter_filter, List.filter_eq_nil_iff]
        intro other hMem
        simp [hMem]
      calc left'.liveTraces
          = (traced.collector.current.traced.toList.filter (· ∉ reach)).filter
              traced.heap.contains := by rw [liveTraces, hKept', funext hSame]
        _ = traced.liveTraces.filter (· ∉ reach) := List.filter_comm _ _ _
        _ = memory.liveTraces.filter (· ∉ reach) := by
            rw [hTraces, List.filter_append, hAdded, List.append_nil]
  · intro hStale
    have hSuper : memory.supertrace handle = .error .internal := by simp [supertrace, hStale]
    have hDrop : memory.detrace handle = .error .internal := by simp [detrace, hStale]
    refine ⟨hSuper, hDrop, ?_, ?_⟩
    · simp [perform, apply, hSuper, Except.map]
    · simp [perform, apply, hDrop, Except.map]

/-- Two arrays that hold each other, of which the second is traced. -/
def tracedPair : Memory where
  heap := (Arena.runCalls ([], { limit := 4, poolLimit := 2 })
    [.allocate 1 .always, .allocate 1 .always, .store ⟨0, 0⟩ 0 (.handle ⟨1, 0⟩),
      .store ⟨1, 0⟩ 0 (.handle ⟨0, 0⟩)]).2
  collector := { root := { owned := #[⟨0, 0⟩, ⟨1, 0⟩], traced := #[⟨1, 0⟩] }, frameLimit := 4 }

theorem touched_tracedPair : Relation.ReflTransGen Touches (make 4 2 4) tracedPair := by
  have hHeap := touched_runCalls (make 4 2 4) []
    [.allocate 1 .always, .allocate 1 .always, .store ⟨0, 0⟩ 0 (.handle ⟨1, 0⟩),
      .store ⟨1, 0⟩ 0 (.handle ⟨0, 0⟩)]
  have hOwned := (hHeap.tail (.register ⟨0, 0⟩)).tail (.register ⟨1, 0⟩)
  exact hOwned.tail (@Touches.trace _ ⟨1, 0⟩ _ (by decide +kernel))

/-- Tracing the first of the two arrays adds a trace of it alone, behind the one of the second;
dropping the traces again leaves none. -/
theorem a_traced_pair_is_traced_once :
    Relation.ReflTransGen Touches (make 4 2 4) tracedPair ∧
      ∃ traced again dropped left, tracedPair.supertrace ⟨0, 0⟩ = .ok (1, traced) ∧
        traced.liveTraces = [⟨1, 0⟩, ⟨0, 0⟩] ∧ traced.supertrace ⟨0, 0⟩ = .ok (0, again) ∧
        traced.detrace ⟨0, 0⟩ = .ok (dropped, left) ∧ left.liveTraces = [] ∧
        tracedPair.supertrace ⟨0, 1⟩ = .error .internal := by
  have hFirst : tracedPair.heap.get? ⟨0, 0⟩ =
      some ((Allocation.fresh 1 1 .always).write 0 (.handle ⟨1, 0⟩)) := by decide +kernel
  have hSecond : tracedPair.heap.get? ⟨1, 0⟩ =
      some ((Allocation.fresh 1 1 .always).write 0 (.handle ⟨0, 0⟩)) := by decide +kernel
  have hReach₀ : tracedPair.heap.Reaches [⟨0, 0⟩] ⟨0, 0⟩ := .root (by simp) (by decide +kernel)
  have hReach₁ : tracedPair.heap.Reaches [⟨0, 0⟩] ⟨1, 0⟩ :=
    .step hReach₀ hFirst (Allocation.mem_children.1 (by decide)) (by decide +kernel)
  have hOnly : ∀ handle, tracedPair.heap.Reaches [⟨0, 0⟩] handle →
      handle = ⟨0, 0⟩ ∨ handle = ⟨1, 0⟩ := by
    intro handle hReach
    induction hReach with
    | root hMem _ => exact Or.inl (List.mem_singleton.1 hMem)
    | step _ hGet hLeads _ ih =>
      have hChild := Allocation.mem_children.2 hLeads
      rcases ih with rfl | rfl
      · rw [hFirst, Option.some.injEq] at hGet
        subst hGet
        exact Or.inr (List.mem_singleton.1 hChild)
      · rw [hSecond, Option.some.injEq] at hGet
        subst hGet
        exact Or.inl (List.mem_singleton.1 hChild)
  obtain ⟨reach, hReached, ⟨traced, hTrace, -, -, hTraces, ⟨again, hAgain, -⟩, dropped, left, hLeft,
      -, hRest⟩, -⟩ :=
    (traces_go_by_what_is_reachable 4 2 4 tracedPair touched_tracedPair ⟨0, 0⟩).1
      (by decide +kernel)
  have hAdded : reach.filter (· ∉ tracedPair.collector.current.traced.toList) = [⟨0, 0⟩] := by
    rw [← List.perm_singleton, List.perm_ext_iff_of_nodup (hReached.nodup.filter _)
      (List.nodup_singleton _)]
    intro other
    rw [List.mem_filter, hReached.mem, List.mem_singleton]
    constructor
    · rintro ⟨hReach, hNew⟩
      rcases hOnly other hReach with rfl | rfl
      · rfl
      · simp [tracedPair, Collector.current] at hNew
    · rintro rfl
      exact ⟨hReach₀, by decide +kernel⟩
  rw [hAdded] at hTrace hTraces
  have hOld : tracedPair.liveTraces = [⟨1, 0⟩] := by decide +kernel
  rw [hOld] at hTraces hRest
  refine ⟨touched_tracedPair, traced, again, dropped, left, hTrace, hTraces, hAgain, hLeft, ?_, ?_⟩
  · simpa [(hReached.mem ⟨1, 0⟩).2 hReach₁] using hRest
  · exact ((traces_go_by_what_is_reachable 4 2 4 tracedPair touched_tracedPair ⟨0, 1⟩).2
      (by decide +kernel)).1

end Memory

end RegisterMachine

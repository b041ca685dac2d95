-- What can happen to a memory in one step. Each operation is put into one of a few
-- kinds by what it can do to the slots and to the frames, and what a step keeps is
-- proved once for each kind.
import Mathlib.Data.List.Chain
import Mathlib.Logic.Relation
import RegisterMachine.Proofs.Sweep

namespace RegisterMachine

/-! ## Changes of the current frame -/

/-- A change of a frame after which it owns the same live allocations, and has only
old traces and traces of live allocations. -/
structure Frame.Retraces (heap : Arena) (before after : Frame) : Prop where
  count : ∀ handle, heap.contains handle = true →
    after.owned.toList.count handle = before.owned.toList.count handle
  owned : ∀ handle ∈ after.owned.toList, handle ∈ before.owned.toList
  traced : ∀ handle ∈ after.traced.toList,
    handle ∈ before.traced.toList ∨ heap.contains handle = true
  nodup : before.traced.toList.Nodup → after.traced.toList.Nodup

namespace Frame

theorem retraces_refl (heap : Arena) (frame : Frame) : Retraces heap frame frame :=
  ⟨fun _ _ => rfl, fun _ h => h, fun _ h => Or.inl h, id⟩

theorem Retraces.trans {heap : Arena} {first second third : Frame}
    (h : Retraces heap first second) (h' : Retraces heap second third) :
    Retraces heap first third where
  count handle hLive := (h'.count handle hLive).trans (h.count handle hLive)
  owned handle hMem := h.owned handle (h'.owned handle hMem)
  traced handle hMem := by
    rcases h'.traced handle hMem with hOld | hLive
    · exact h.traced handle hOld
    · exact Or.inr hLive
  nodup hNodup := h'.nodup (h.nodup hNodup)

theorem Extends.retraces {heap : Arena} {traced : List Handle} {before after : Frame}
    (h : Extends heap [] traced before after)
    (hLive : ∀ handle ∈ traced, heap.contains handle = true)
    (hNodup : traced.Nodup) (hApart : ∀ handle ∈ traced, handle ∉ before.traced) :
    Retraces heap before after := by
  refine ⟨?_, ?_, ?_, fun hOld => nodup_traced_of_extends h hOld hNodup hApart⟩
  · intro handle hHandle
    simp [h.count_owned hHandle]
  · intro handle hMem
    simpa using h.mem_owned hMem
  · intro handle hMem
    exact (h.mem_traced hMem).imp_right (hLive handle)

theorem retraces_pushTrace {heap : Arena} {frame : Frame} {handle : Handle}
    (hLive : heap.contains handle = true) (hNew : handle ∉ frame.traced) :
    Retraces heap frame (frame.pushTrace heap handle) := by
  apply (extends_pushTrace heap frame handle).retraces
  · simpa using hLive
  · exact List.nodup_singleton handle
  · simpa using hNew

theorem retraces_trace {heap : Arena} {handle : Handle} (hLive : heap.contains handle = true)
    (frame : Frame) : Retraces heap frame (frame.trace heap handle) := by
  unfold trace
  split
  · exact retraces_refl heap frame
  · rename_i hNot
    exact retraces_pushTrace hLive fun hMem => hNot (isTracing_iff_mem.2 hMem)

theorem retraces_filter (heap : Arena) (frame : Frame) (keep : Handle → Bool) :
    Retraces heap frame { frame with traced := frame.traced.filter keep } := by
  refine ⟨fun _ _ => rfl, fun _ h => h, ?_, ?_⟩
  · intro handle h
    rw [Array.toList_filter] at h
    exact Or.inl (List.mem_filter.1 h).1
  · intro hNodup
    rw [Array.toList_filter]
    exact hNodup.filter keep

theorem retraces_forget (heap : Arena) (frame : Frame) (handle : Handle) :
    Retraces (heap.erase handle) frame (frame.forget handle) := by
  have hFilter := retraces_filter (heap.erase handle) frame (· ≠ handle)
  refine ⟨?_, ?_, hFilter.traced, hFilter.nodup⟩
  · intro other hLive
    exact count_removeLast ((Arena.contains_erase heap handle other).1 hLive).1
  · intro other hMem
    exact mem_of_mem_removeLast hMem

end Frame

/-- A change of the current frame alone, after which it owns the same live allocations. -/
structure Collector.Retraces (heap : Arena) (before after : Collector) : Prop where
  frameLimit : after.frameLimit = before.frameLimit
  outer : after.outer = before.outer
  current : Frame.Retraces heap before.current after.current

namespace Collector

theorem retraces_refl (heap : Arena) (collector : Collector) :
    Retraces heap collector collector :=
  ⟨rfl, rfl, Frame.retraces_refl heap collector.current⟩

theorem Retraces.trans {heap : Arena} {first second third : Collector}
    (h : Retraces heap first second) (h' : Retraces heap second third) :
    Retraces heap first third :=
  ⟨h'.frameLimit.trans h.frameLimit, h'.outer.trans h.outer, h.current.trans h'.current⟩

theorem retraces_modifyCurrent {heap : Arena} {collector : Collector} {change : Frame → Frame}
    (h : Frame.Retraces heap collector.current (change collector.current)) :
    Retraces heap collector (collector.modifyCurrent change) :=
  ⟨frameLimit_modifyCurrent collector change, outer_modifyCurrent collector change,
    current_modifyCurrent collector change ▸ h⟩

theorem retraces_traceCounted {heap : Arena} {handle : Handle}
    (hLive : heap.contains handle = true) (state : Nat × Collector) :
    Retraces heap state.2 (Memory.traceCounted heap state handle).2 := by
  unfold Memory.traceCounted
  split
  · exact retraces_refl heap state.2
  · rename_i hNot
    apply retraces_modifyCurrent
    exact Frame.retraces_pushTrace hLive fun hMem => hNot (Frame.isTracing_iff_mem.2 hMem)

theorem retraces_foldl_traceCounted {heap : Arena} {handles : List Handle}
    (hLive : ∀ handle ∈ handles, heap.contains handle = true) (state : Nat × Collector) :
    Retraces heap state.2 (handles.foldl (Memory.traceCounted heap) state).2 := by
  induction handles generalizing state with
  | nil => exact retraces_refl heap state.2
  | cons handle handles ih =>
    have hFirst := retraces_traceCounted (hLive handle (List.mem_cons_self ..)) state
    exact hFirst.trans (ih (fun h hMem => hLive h (List.mem_cons_of_mem _ hMem)) _)

end Collector

/-! ## The kinds of operations -/

/-- What the host can do to the heap without the collector. -/
inductive Arena.Edited (heap : Arena) : Arena → Prop
  | store {handle : Handle} {index : Int64} {value : Value} {after : Arena}
      (h : heap.store handle index value = .ok after) : Edited heap after
  | storeUnchecked {handle : Handle} {index : Nat} {value : Value} {after : Arena}
      (h : heap.storeUnchecked handle index value = .ok after) : Edited heap after
  | setFlag {handle : Handle} {index : Int64} {flagged : Bool} {after : Arena}
      (h : heap.setFlag handle index flagged = .ok after) : Edited heap after
  | setMode {handle : Handle} {mode : TraceMode} {after : Arena}
      (h : heap.setMode handle mode = .ok after) : Edited heap after
  | release {handle : Handle} {after : Arena}
      (h : heap.release handle = .ok after) : Edited heap after
  | clear : Edited heap heap.clear.2

namespace Memory

theorem closeFrame_of_root {memory : Memory} (h : memory.collector.frames.back? = none) :
    memory.closeFrame.2 = memory := by
  unfold closeFrame
  rw [h]

/-- A new allocation goes behind the entries of the current frame. -/
theorem stack_insert (memory : Memory) (size : UInt16) (mode : TraceMode) :
    ∃ top, (memory.insert size mode).2.collector.stack = memory.collector.outer ++ [top] ∧
      Frame.Extends (memory.heap.insert size mode).2 [(memory.heap.insert size mode).1] []
        memory.collector.current top :=
  ⟨_, Collector.stack_modifyCurrent _ _, Frame.extends_own _ _ _⟩

def withHeap (memory : Memory) (heap : Arena) : Memory := { memory with heap }

def withCollector (memory : Memory) (collector : Collector) : Memory := { memory with collector }

/-- All that one operation can do to a memory. No handle but the `dropped` ones is
released without closing a frame. -/
inductive Turns (dropped : Handle → Prop) (before : Memory) : Memory → Prop
  /-- No slot is filled, and the frames own what they owned. -/
  | keep {after : Memory} (sound : after.heap.Sound)
      (sheds : Arena.Sheds before.heap after.heap)
      (retraces : Collector.Retraces after.heap before.collector after.collector)
      (drops : ∀ handle, before.heap.contains handle = true →
        after.heap.contains handle = true ∨ dropped handle) : Turns dropped before after
  | allocate {size : UInt16} {mode : TraceMode} (full : before.heap.isFull = false) :
      Turns dropped before (before.insert size mode).2
  | openFrame : Turns dropped before { before with collector := before.collector.push }
  | closeFrame {closed : Frame} (closes : before.collector.frames.back? = some closed) :
      Turns dropped before before.closeFrame.2
  | unwind : Turns dropped before before.unwind.2
  | reset : Turns dropped before before.reset

theorem Turns.weaken {dropped more : Handle → Prop} {before after : Memory}
    (h : Turns dropped before after) (hMore : ∀ handle, dropped handle → more handle) :
    Turns more before after := by
  cases h with
  | keep hSound hSheds hRetraces hDrops =>
    apply Turns.keep hSound hSheds hRetraces
    exact fun handle hLive => (hDrops handle hLive).imp_right (hMore handle)
  | allocate hFull => exact .allocate hFull
  | openFrame => exact .openFrame
  | closeFrame hBack => exact .closeFrame hBack
  | unwind => exact .unwind
  | reset => exact .reset

section Turns

variable {memory : Memory} (hs : memory.heap.Sound) {dropped : Handle → Prop}

include hs

/-- An operation that changes no more than the traces of the current frame. -/
theorem turns_retrace {collector : Collector}
    (hRetraces : Collector.Retraces memory.heap memory.collector collector) :
    Turns dropped memory (memory.withCollector collector) :=
  .keep hs (Arena.sheds_of_stateAt fun _ => rfl) hRetraces fun _ h => Or.inl h

theorem turns_same : Turns dropped memory memory :=
  turns_retrace hs (Collector.retraces_refl memory.heap memory.collector)

omit hs in
/-- An operation that changes one allocation. -/
theorem turns_modify {handle : Handle} {change : Allocation → Allocation}
    (hSound : (memory.heap.modify handle change).Sound) :
    Turns dropped memory (memory.withHeap (memory.heap.modify handle change)) := by
  refine .keep hSound (Arena.sheds_of_stateAt (Arena.stateAt_modify _ _ _))
    (Collector.retraces_refl _ _) fun other h => Or.inl ?_
  rw [withHeap, Arena.contains_modify, h]

/-- A release, of which the collector may have been told. -/
theorem turns_erase {handle : Handle} {collector : Collector}
    (hRetraces : Collector.Retraces (memory.heap.erase handle) memory.collector collector)
    (hDrops : dropped handle) :
    Turns dropped memory { heap := memory.heap.erase handle, collector } := by
  refine .keep (Arena.sound_erase hs handle) (Arena.sheds_erase _ _) hRetraces ?_
  intro other h
  by_cases hOther : other = handle
  · exact Or.inr (hOther ▸ hDrops)
  · exact Or.inl ((Arena.contains_erase _ _ _).2 ⟨hOther, h⟩)

omit hs in
theorem turns_allocate {size : UInt16} {mode : TraceMode} {handle : Handle} {after : Memory}
    (h : memory.allocate size mode = .ok (handle, after)) : Turns dropped memory after := by
  unfold allocate at h
  split at h
  · cases h
  · rename_i hFull
    have hAfter : memory.insert size mode = (handle, after) := Except.ok.inj h
    have hTurns : Turns dropped memory (memory.insert size mode).2 :=
      .allocate (by simpa using hFull)
    rw [hAfter] at hTurns
    exact hTurns

theorem turns_free {handle : Handle} (hDrops : dropped handle) :
    Turns dropped memory (memory.free handle) := by
  apply turns_erase hs _ hDrops
  apply Collector.retraces_modifyCurrent
  exact Frame.retraces_forget _ _ _

/-- What is done to the heap without the collector may drop anything. -/
theorem turns_edited {heap : Arena} (h : memory.heap.Edited heap) :
    Turns (fun _ => True) memory (memory.withHeap heap) := by
  cases h with
  | store hStore =>
    obtain ⟨_, _, _, rfl⟩ := Arena.store_eq_ok hStore
    exact turns_modify (Arena.sound_write hs _ _ _)
  | storeUnchecked hStore =>
    obtain ⟨_, _, _, rfl⟩ := Arena.storeUnchecked_eq_ok hStore
    exact turns_modify (Arena.sound_write hs _ _ _)
  | setFlag hFlag =>
    obtain rfl := Arena.setFlag_eq_ok hFlag
    exact turns_modify (Arena.sound_setFlag hs _ _ _)
  | setMode hMode =>
    obtain rfl := Arena.setMode_eq_ok hMode
    exact turns_modify (Arena.sound_setMode hs _ _)
  | release hRelease =>
    obtain ⟨_, rfl⟩ := Arena.release_eq_ok hRelease
    exact turns_erase hs (Collector.retraces_refl _ _) trivial
  | clear =>
    apply Turns.keep (Arena.sound_clear hs) (Arena.sheds_clear memory.heap)
    · exact Collector.retraces_refl _ _
    · exact fun _ _ => Or.inr trivial

theorem turns_addTrace {handle : Handle} (hLive : memory.heap.contains handle = true) :
    Turns dropped memory
      (memory.withCollector (memory.collector.addTrace memory.heap handle)) := by
  apply turns_retrace hs
  apply Collector.retraces_modifyCurrent
  exact Frame.retraces_trace hLive _

/-- A marking pass, after which traces are added to the current frame or taken out of it. -/
theorem turns_mark (roots : List Handle) {collector : Collector}
    (hRetraces : Collector.Retraces (memory.heap.mark roots).2.2 memory.collector collector) :
    Turns dropped memory { heap := (memory.heap.mark roots).2.2, collector } := by
  have hSame := Arena.contents_mark memory.heap roots
  refine .keep (Arena.sound_mark hs roots) (Arena.sheds_of_contents hSame) hRetraces ?_
  intro handle h
  rw [Arena.contains_of_contents hSame]
  exact Or.inl h

theorem turns_supertrace {handle : Handle} {count : Nat} {after : Memory}
    (h : memory.supertrace handle = .ok (count, after)) : Turns dropped memory after := by
  unfold supertrace at h
  split at h
  · simp only [← Array.foldl_toList, Except.ok.injEq, Prod.mk.injEq] at h
    obtain ⟨-, rfl⟩ := h
    apply turns_mark hs
    refine Collector.retraces_foldl_traceCounted ?_ (0, memory.collector)
    intro reached hMem
    rw [Arena.contains_of_contents (Arena.contents_mark memory.heap [handle])]
    exact ((Arena.mem_mark hs).1 (Array.mem_toList_iff.1 hMem)).live
  · cases h

theorem turns_detrace {handle : Handle} {count : Nat} {after : Memory}
    (h : memory.detrace handle = .ok (count, after)) : Turns dropped memory after := by
  unfold detrace at h
  split at h
  · simp only [Except.ok.injEq, Prod.mk.injEq] at h
    obtain ⟨-, rfl⟩ := h
    apply turns_mark hs
    apply Collector.retraces_modifyCurrent
    exact Frame.retraces_filter _ _ _
  · cases h

end Turns

/-! ## What every operation keeps -/

/-- The arena is sound, and no frame has a trace twice. -/
structure Sound (memory : Memory) : Prop where
  heap : memory.heap.Sound
  traced : ∀ frame ∈ memory.collector.stack, frame.traced.toList.Nodup

theorem sound_make (heapLimit poolLimit frameLimit : Nat) :
    (make heapLimit poolLimit frameLimit).Sound where
  heap := Arena.sound_empty heapLimit poolLimit
  traced := by simp [make, Collector.stack]

theorem generationAt_make (heapLimit poolLimit frameLimit slot : Nat) :
    (make heapLimit poolLimit frameLimit).heap.generationAt slot = 0 := by
  simp [make, Arena.generationAt, Arena.stateAt]

/-- A change of the current frame alone keeps a memory sound. -/
theorem Sound.of_current {before after : Memory} (hs : before.Sound) (hHeap : after.heap.Sound)
    (hOuter : after.collector.outer = before.collector.outer)
    (hCurrent : before.collector.current.traced.toList.Nodup →
      after.collector.current.traced.toList.Nodup) : after.Sound := by
  have hTraced := hs.traced
  refine ⟨hHeap, ?_⟩
  simp only [Collector.stack_eq, hOuter, List.forall_mem_append, List.forall_mem_singleton]
    at hTraced ⊢
  exact ⟨hTraced.1, hCurrent hTraced.2⟩

theorem Closes.memorySound {before after : Memory} {closed : Frame}
    (h : Closes before closed after) (hs : before.Sound)
    (hBack : before.collector.frames.back? = some closed) : after.Sound := by
  obtain ⟨parent, hStack, hExtends⟩ := h.stack
  have hTraced := hs.traced
  rw [Collector.stack_of_back? hBack, Collector.stack_eq] at hTraced
  refine ⟨h.sound, ?_⟩
  rw [hStack]
  simp only [List.forall_mem_append, List.forall_mem_singleton] at hTraced ⊢
  exact ⟨hTraced.1.1,
    Frame.nodup_traced_of_extends hExtends hTraced.1.2 List.nodup_nil (by simp)⟩

theorem sound_closeFrame {memory : Memory} (hs : memory.Sound) : memory.closeFrame.2.Sound := by
  rcases hBack : memory.collector.frames.back? with _ | closed
  · rw [closeFrame_of_root hBack]
    exact hs
  · exact (closes_closeFrame hs.heap hBack).memorySound hs hBack

/-- Closing frames only releases. -/
theorem sheds_closeFrame {memory : Memory} (hs : memory.Sound) :
    Arena.Sheds memory.heap memory.closeFrame.2.heap := by
  rcases hBack : memory.collector.frames.back? with _ | closed
  · rw [closeFrame_of_root hBack]
    exact Arena.sheds_of_stateAt fun _ => rfl
  · exact (closes_closeFrame hs.heap hBack).sheds

theorem closeFrames_spec (n : Nat) (total : SweepReport) {memory : Memory} (hs : memory.Sound) :
    (closeFrames n total memory).2.Sound ∧
      Arena.Sheds memory.heap (closeFrames n total memory).2.heap := by
  induction n generalizing total memory with
  | zero => exact ⟨hs, Arena.sheds_of_stateAt fun _ => rfl⟩
  | succ n ih =>
    obtain ⟨hSound, hSheds⟩ := ih (total.add memory.closeFrame.1) (sound_closeFrame hs)
    exact ⟨hSound, (sheds_closeFrame hs).trans hSheds⟩

theorem Closes.depth {before after : Memory} {closed : Frame} (h : Closes before closed after)
    (hBack : before.collector.frames.back? = some closed) :
    before.collector.depth = after.collector.depth + 1 := by
  obtain ⟨parent, hStack, -⟩ := h.stack
  have hBefore := Collector.length_stack before.collector
  have hAfter := Collector.length_stack after.collector
  rw [Collector.stack_of_back?_pop hBack, List.length_append] at hBefore
  rw [hStack, List.length_append] at hAfter
  simp only [List.length_cons, List.length_nil] at hBefore hAfter
  omega

theorem depth_closeFrame {memory : Memory} (hs : memory.Sound) :
    memory.closeFrame.2.collector.depth = memory.collector.depth - 1 := by
  rcases hBack : memory.collector.frames.back? with _ | closed
  · rw [closeFrame_of_root hBack]
    have hRoot : memory.collector.depth = 0 := by simpa [Collector.depth] using hBack
    omega
  · have hDepth := (closes_closeFrame hs.heap hBack).depth hBack
    omega

theorem depth_closeFrames (n : Nat) (total : SweepReport) {memory : Memory}
    (hs : memory.Sound) :
    (closeFrames n total memory).2.collector.depth = memory.collector.depth - n := by
  induction n generalizing total memory with
  | zero => rfl
  | succ n ih =>
    have hRest := ih (total.add memory.closeFrame.1) (sound_closeFrame hs)
    rw [depth_closeFrame hs, Nat.sub_sub, Nat.add_comm 1 n] at hRest
    exact hRest

theorem depth_unwind {memory : Memory} (hs : memory.Sound) :
    memory.unwind.2.collector.depth = 0 := by
  unfold unwind
  rw [depth_closeFrames _ _ hs, Nat.sub_self]

theorem Turns.sound {dropped : Handle → Prop} {before after : Memory}
    (h : Turns dropped before after) (hs : before.Sound) : after.Sound := by
  cases h with
  | keep hHeap _ hRetraces _ => exact hs.of_current hHeap hRetraces.outer hRetraces.current.nodup
  | @allocate size mode hFull =>
    refine hs.of_current (Arena.sound_insert hs.heap hFull size mode)
      (Collector.outer_modifyCurrent _ _) ?_
    intro hNodup
    simp only [insert, Collector.register, Collector.current_modifyCurrent]
    exact Frame.nodup_traced_of_extends (Frame.extends_own _ _ _) hNodup List.nodup_nil (by simp)
  | openFrame =>
    refine ⟨hs.heap, ?_⟩
    simp only [Collector.stack_push, List.forall_mem_append, List.forall_mem_singleton]
    exact ⟨hs.traced, List.nodup_nil⟩
  | closeFrame hBack => exact (closes_closeFrame hs.heap hBack).memorySound hs hBack
  | unwind => exact (closeFrames_spec _ _ hs).1
  | reset =>
    refine ⟨Arena.sound_clear hs.heap, ?_⟩
    simp [Memory.reset, Collector.reset, Collector.stack]

theorem Turns.ages {dropped : Handle → Prop} {before after : Memory}
    (h : Turns dropped before after) (hs : before.Sound) :
    Arena.Ages before.heap after.heap := by
  cases h with
  | keep _ hSheds _ _ => exact hSheds.ages
  | @allocate size mode hFull =>
    exact fun slot => Or.inl (Arena.generationAt_insert hs.heap hFull size mode slot)
  | openFrame => exact fun slot => Or.inl rfl
  | closeFrame hBack => exact (closes_closeFrame hs.heap hBack).sheds.ages
  | unwind => exact (closeFrames_spec _ _ hs).2.ages
  | reset => exact (Arena.sheds_clear before.heap).ages

/-! ## Steps of a machine -/

/-- What a request of a host function can do to a memory. -/
inductive Serves (before : Memory) : Memory → Prop
  | same : Serves before before
  | modify {handle : Handle} {change : Allocation → Allocation}
      (sound : (before.heap.modify handle change).Sound) :
      Serves before (before.withHeap (before.heap.modify handle change))
  | allocate {size : UInt16} {mode : TraceMode} (full : before.heap.isFull = false) :
      Serves before (before.insert size mode).2

theorem Serves.turns {before after : Memory} (h : Serves before after) (hs : before.heap.Sound)
    (dropped : Handle → Prop) : Turns dropped before after := by
  cases h with
  | same => exact turns_same hs
  | modify hSound => exact turns_modify hSound
  | allocate hFull => exact .allocate hFull

/-- No request releases anything. -/
theorem Serves.generationAt {before after : Memory} (h : Serves before after)
    (hs : before.heap.Sound) (slot : Nat) :
    after.heap.generationAt slot = before.heap.generationAt slot := by
  cases h with
  | same => rfl
  | modify _ => exact Arena.generationAt_of_stateAt (Arena.stateAt_modify _ _ _ _)
  | @allocate size mode hFull => exact Arena.generationAt_insert hs hFull size mode slot

theorem Serves.depth {before after : Memory} (h : Serves before after) :
    after.collector.depth = before.collector.depth := by
  cases h with
  | same | modify _ => rfl
  | @allocate size mode _ =>
    obtain ⟨top, hStack, -⟩ := before.stack_insert size mode
    have hLength := Collector.length_stack (before.insert size mode).2.collector
    rw [hStack, List.length_append, Collector.length_outer, List.length_singleton] at hLength
    omega

/-- All that one step of a machine can do to its memory: requests of a host function,
if any, and then one operation. -/
def Moves (dropped : Handle → Prop) (before after : Memory) : Prop :=
  ∃ served, Relation.ReflTransGen Serves before served ∧ Turns dropped served after

theorem Turns.moves {dropped : Handle → Prop} {before after : Memory}
    (h : Turns dropped before after) : Moves dropped before after :=
  ⟨before, .refl, h⟩

theorem Moves.weaken {dropped more : Handle → Prop} {before after : Memory}
    (h : Moves dropped before after) (hMore : ∀ handle, dropped handle → more handle) :
    Moves more before after := by
  obtain ⟨served, hServed, hTurns⟩ := h
  exact ⟨served, hServed, hTurns.weaken hMore⟩

theorem sound_of_served {before served : Memory}
    (h : Relation.ReflTransGen Serves before served) (hs : before.Sound) : served.Sound := by
  induction h with
  | refl => exact hs
  | tail _ hStep ih => exact (hStep.turns ih.heap fun _ => True).sound ih

theorem generationAt_of_served {before served : Memory}
    (h : Relation.ReflTransGen Serves before served) (hs : before.Sound) (slot : Nat) :
    served.heap.generationAt slot = before.heap.generationAt slot := by
  induction h with
  | refl => rfl
  | tail hFirst hStep ih =>
    exact (hStep.generationAt (sound_of_served hFirst hs).heap slot).trans ih

theorem depth_of_served {before served : Memory}
    (h : Relation.ReflTransGen Serves before served) :
    served.collector.depth = before.collector.depth := by
  induction h with
  | refl => rfl
  | tail _ hStep ih => exact hStep.depth.trans ih

theorem Moves.sound {dropped : Handle → Prop} {before after : Memory}
    (h : Moves dropped before after) (hs : before.Sound) : after.Sound := by
  obtain ⟨served, hServed, hTurns⟩ := h
  exact hTurns.sound (sound_of_served hServed hs)

theorem Moves.ages {dropped : Handle → Prop} {before after : Memory}
    (h : Moves dropped before after) (hs : before.Sound) :
    Arena.Ages before.heap after.heap := by
  obtain ⟨served, hServed, hTurns⟩ := h
  intro slot
  rw [← generationAt_of_served hServed hs slot]
  exact hTurns.ages (sound_of_served hServed hs) slot

/-! ## Step after step -/

theorem isChain_ages {dropped : Handle → Prop} {first : Memory} {later : List Memory}
    (hs : first.Sound) (hMoves : (first :: later).IsChain (Moves dropped)) :
    ((first :: later).map Memory.heap).IsChain Arena.Ages := by
  induction later generalizing first with
  | nil => exact List.isChain_singleton _
  | cons next later ih =>
    rw [List.isChain_cons_cons] at hMoves
    rw [List.map_cons, List.map_cons, List.isChain_cons_cons]
    exact ⟨hMoves.1.ages hs, ih (hMoves.1.sound hs) hMoves.2⟩

/-- A run from an empty arena in which no slot is released `2 ^ 32` times takes no slot
back. -/
theorem isChain_steady_of_moves {dropped : Handle → Prop} {first : Memory} {later : List Memory}
    (hs : first.Sound) (hEmpty : ∀ slot, first.heap.generationAt slot = 0)
    (hMoves : (first :: later).IsChain (Moves dropped))
    (hReleases : ∀ slot, Arena.releases ((first :: later).map Memory.heap) slot < 2 ^ 32) :
    ((first :: later).map Memory.heap).IsChain Arena.Steady := by
  refine @Arena.isChain_steady (fun _ => 0) _ _ (isChain_ages hs hMoves) hEmpty ?_
  intro slot
  rw [Nat.zero_add]
  exact hReleases slot

end Memory

end RegisterMachine

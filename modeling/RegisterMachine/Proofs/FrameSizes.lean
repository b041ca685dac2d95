-- The sizes of frames. A frame takes its dead entries out when one of its lists has grown to a
-- length that was set when this was done last, from the number of entries that were live then.
-- So neither list outgrows twice the most allocations that were ever live at once, however many
-- came and went, and whichever frames they were made in.
import RegisterMachine.Proofs.MachineBounds
import RegisterMachine.Proofs.Strays
import RegisterMachine.Proofs.TracedGraphs

namespace RegisterMachine

/-! ## Live entries -/

/-- Entries that stay live, none of them twice, are no more than what is live in the end. -/
theorem Arena.length_filter_le_live {heap final : Arena} (hs : final.Sound)
    (hCounted : final.Counted) {entries : List Handle}
    (hOnce : ∀ handle, heap.contains handle = true → entries.count handle ≤ 1)
    (hStays : ∀ handle ∈ entries, heap.contains handle = true → final.contains handle = true) :
    (entries.filter heap.contains).length ≤ final.live := by
  have hLive : ∀ handle ∈ entries.filter heap.contains,
      final.stateAt handle.index.toNat = some (handle.generation, true) := by
    intro handle hMem
    obtain ⟨hEntry, hContains⟩ := List.mem_filter.1 hMem
    exact contains_iff_stateAt.1 (hStays handle hEntry hContains)
  have hNodup : (entries.filter heap.contains).Nodup := by
    rw [List.nodup_iff_count_le_one]
    intro handle
    by_cases hContains : heap.contains handle = true
    · rw [List.count_filter hContains]
      exact hOnce handle hContains
    · rw [List.count_eq_zero_of_not_mem (by simp [hContains])]
      exact Nat.zero_le _
  have hSlots : ((entries.filter heap.contains).map Handle.index).Nodup := by
    refine List.Nodup.map_on ?_ hNodup
    intro x hx y hy hxy
    have hState := hLive x hx
    rw [hxy, hLive y hy] at hState
    exact handle_eq (by rw [hxy]) (by simpa using hState.symm)
  have hOccupied : (entries.filter heap.contains).map Handle.index ⊆ final.occupied := by
    intro slot hSlot
    obtain ⟨handle, hMem, rfl⟩ := List.mem_map.1 hSlot
    exact (mem_occupied hs _).2 ⟨_, hLive handle hMem⟩
  have hLength := (List.subperm_of_subset hSlots hOccupied).length_le
  rwa [List.length_map, ← hCounted.live_eq] at hLength

/-! ## Lists in proportion -/

namespace Frame

/-- Neither list has outgrown the length at which dead entries are taken out, and that length
is in proportion to `n`. -/
structure Within (n : Nat) (frame : Frame) : Prop where
  owned_le : frame.owned.size ≤ frame.compactAt
  traced_le : frame.traced.size ≤ frame.compactAt
  compactAt_le : frame.compactAt ≤ max compactLeast (2 * n)

theorem within_empty (n : Nat) : Within n {} := by
  refine ⟨?_, ?_, ?_⟩ <;> simp

theorem Within.of_shorter {n : Nat} {frame shorter : Frame} (h : frame.Within n)
    (hOwned : shorter.owned.size ≤ frame.owned.size)
    (hTraced : shorter.traced.size ≤ frame.traced.size)
    (hAt : shorter.compactAt = frame.compactAt) : shorter.Within n := by
  obtain ⟨hOwnedLe, hTracedLe, hCompact⟩ := h
  refine ⟨?_, ?_, ?_⟩ <;> omega

theorem size_removeLast_le (entries : Array Handle) (handle : Handle) :
    (removeLast entries handle).size ≤ entries.size := by
  unfold removeLast
  split
  · unfold Arena.swapRemove
    split <;> simp
  · exact Nat.le_refl _

theorem Within.forget {n : Nat} {frame : Frame} (h : frame.Within n) (handle : Handle) :
    (frame.forget handle).Within n :=
  h.of_shorter (size_removeLast_le _ _) Array.size_filter_le rfl

/-- The live entries of a frame, and those of `pending` that are yet to come, are of different
allocations, and they stay live until the heap is `final`. -/
structure Settled (heap final : Arena) (pending : List Handle) (frame : Frame) : Prop where
  once : ∀ handle, heap.contains handle = true →
    frame.owned.toList.count handle + pending.count handle ≤ 1
  nodup : frame.traced.toList.Nodup
  stays : ∀ handle ∈ frame.entries, heap.contains handle = true → final.contains handle = true

section Settled

variable {heap final : Arena} {pending : List Handle} {frame : Frame} {n : Nat}
  (h : Settled heap final pending frame) (hs : final.Sound) (hCounted : final.Counted)
  (hLive : final.live ≤ n)

include h hs hCounted hLive

/-- After dead entries were taken out there is room in both lists. -/
theorem Settled.compact : (frame.compact heap).owned.size < (frame.compact heap).compactAt ∧
    (frame.compact heap).traced.size < (frame.compact heap).compactAt ∧
    (frame.compact heap).compactAt ≤ max compactLeast (2 * n) := by
  have hOwned := Arena.length_filter_le_live hs hCounted
    (fun handle hContains => (Nat.le_add_right _ _).trans (h.once handle hContains))
    fun handle hMem => h.stays handle (List.mem_append_left _ hMem)
  have hTraced := Arena.length_filter_le_live hs hCounted
    (fun handle _ => List.nodup_iff_count_le_one.1 h.nodup handle)
    fun handle hMem => h.stays handle (List.mem_append_right _ hMem)
  rw [← Array.toList_filter, Array.length_toList] at hOwned hTraced
  simp only [Frame.compact, compactLeast]
  omega

theorem Settled.within_own (hWithin : frame.Within n) (handle : Handle) :
    (frame.own heap handle).Within n := by
  obtain ⟨hOwned, hTraced, hAt⟩ := h.compact hs hCounted hLive
  unfold own
  split
  · refine ⟨?_, Nat.le_of_lt hTraced, hAt⟩
    rw [Array.size_push]
    exact hOwned
  · rename_i hRoom
    refine ⟨?_, hWithin.traced_le, hWithin.compactAt_le⟩
    rw [Array.size_push]
    exact Nat.lt_of_not_le hRoom

theorem Settled.within_pushTrace (hWithin : frame.Within n) (handle : Handle) :
    (frame.pushTrace heap handle).Within n := by
  obtain ⟨hOwned, hTraced, hAt⟩ := h.compact hs hCounted hLive
  unfold pushTrace
  split
  · refine ⟨Nat.le_of_lt hOwned, ?_, hAt⟩
    rw [Array.size_push]
    exact hTraced
  · rename_i hRoom
    refine ⟨hWithin.owned_le, ?_, hWithin.compactAt_le⟩
    rw [Array.size_push]
    exact Nat.lt_of_not_le hRoom

end Settled

/-- Marks change nothing. -/
theorem Settled.of_contents {heap marked : Arena} {pending : List Handle} {frame : Frame}
    (h : Settled heap heap pending frame) (hSame : marked.contents = heap.contents) :
    Settled marked marked pending frame := by
  have hContains := Arena.contains_of_contents hSame
  refine ⟨fun handle hLive => h.once handle ?_, h.nodup, fun _ _ hLive => hLive⟩
  rwa [hContains] at hLive

/-- An entry of `pending` that is released does not come. -/
theorem Settled.erase {heap final : Arena} {pending : List Handle} {frame : Frame}
    {handle : Handle} (h : Settled heap final (handle :: pending) frame) :
    Settled (heap.erase handle) final pending frame := by
  refine ⟨?_, h.nodup, ?_⟩
  · intro other hContains
    have hOnce := h.once other ((Arena.contains_erase heap handle other).1 hContains).2
    have hCons : pending.count other ≤ (handle :: pending).count other :=
      List.count_le_count_cons
    omega
  · intro other hMem hContains
    exact h.stays other hMem ((Arena.contains_erase heap handle other).1 hContains).2

/-- A frame that an entry was added to has entries that stay live, when the new one does. -/
theorem Settled.of_extends {heap final : Arena} {owned traced pending : List Handle}
    {before after : Frame} (h : Settled heap final (owned ++ pending) before)
    (hExtends : Extends heap owned traced before after) (hNodup : traced.Nodup)
    (hApart : ∀ handle ∈ traced, handle ∉ before.traced)
    (hStays : ∀ handle ∈ owned ++ traced, final.contains handle = true) :
    Settled heap final pending after := by
  refine ⟨?_, nodup_traced_of_extends hExtends h.nodup hNodup hApart, ?_⟩
  · intro handle hContains
    have hOnce := h.once handle hContains
    rw [List.count_append] at hOnce
    rw [hExtends.count_owned hContains]
    omega
  · intro handle hMem hContains
    rcases mem_entries_of_extends hExtends hMem with hOld | hNew
    · exact h.stays handle hOld hContains
    · exact hStays handle (List.mem_append.2 hNew)

end Frame

/-! ## All frames -/

namespace Collector

/-- Every frame is in proportion to `n`. -/
def Slim (n : Nat) (collector : Collector) : Prop :=
  ∀ frame ∈ collector.stack, frame.Within n

variable {n : Nat} {collector : Collector}

theorem slim_iff : collector.Slim n ↔
    (∀ frame ∈ collector.outer, frame.Within n) ∧ collector.current.Within n := by
  unfold Slim
  rw [stack_eq, List.forall_mem_append, List.forall_mem_singleton]

theorem Slim.modifyCurrent (h : collector.Slim n) {change : Frame → Frame}
    (hChange : (change collector.current).Within n) : (collector.modifyCurrent change).Slim n := by
  rw [slim_iff, outer_modifyCurrent, current_modifyCurrent]
  exact ⟨(slim_iff.1 h).1, hChange⟩

theorem Slim.push (h : collector.Slim n) : collector.push.Slim n := by
  unfold Slim
  rw [stack_push, List.forall_mem_append, List.forall_mem_singleton]
  exact ⟨h, Frame.within_empty n⟩

theorem slim_empty (n frameLimit : Nat) : Slim n { frameLimit } := by
  simp [Slim, stack, Frame.within_empty]

end Collector

namespace Memory

open RegisterMachine.Frame

variable {memory before after served : Memory} {handle : Handle} {n : Nat}

/-- What the collector relies on: a sound memory, counters that are right, and no live
allocation with two owners. -/
structure Tended (memory : Memory) : Prop where
  sound : memory.Sound
  counted : memory.heap.Counted
  placed : memory.Placed

theorem Placed.count_current_le (h : memory.Placed)
    (hLive : memory.heap.contains handle = true) :
    memory.collector.current.owned.toList.count handle ≤ 1 := by
  have hOnce := h.count_le hLive
  rw [Collector.stack_eq, ownedBy_append, ownedBy_singleton, List.count_append] at hOnce
  omega

/-- The live entries of the current frame are of different allocations. -/
theorem Tended.settled (h : memory.Tended) :
    Settled memory.heap memory.heap [] memory.collector.current where
  once handle hLive := h.placed.count_current_le hLive
  nodup := h.sound.traced _ (by simp [Collector.stack_eq])
  stays _ _ hLive := hLive

theorem Moves.tended {dropped : Handle → Prop} (hMoves : Moves dropped before after)
    (h : before.Tended)
    (hOperates : Relation.ReflTransGen Arena.Operates before.heap after.heap)
    (hSteady : Arena.Steady before.heap after.heap) : after.Tended where
  sound := hMoves.sound h.sound
  counted := (Arena.counted_of_operates hOperates h.sound.heap h.counted).2
  placed := hMoves.placed h.sound h.placed hSteady

theorem Tended.of_served (h : before.Tended)
    (hServed : Relation.ReflTransGen Serves before served) : served.Tended where
  sound := sound_of_served hServed h.sound
  counted := (Arena.counted_of_operates (operates_of_served hServed) h.sound.heap h.counted).2
  placed := placed_of_served hServed h.sound h.placed

/-! ## One operation -/

theorem slim_insert {size : UInt16} {mode : TraceMode} (h : memory.Tended)
    (hFull : memory.heap.isFull = false) (hSlim : memory.collector.Slim n)
    (hLive : (memory.insert size mode).2.heap.live ≤ n) :
    (memory.insert size mode).2.collector.Slim n := by
  have h' : (memory.insert size mode).2.Tended := h.of_served (.single (.allocate hFull))
  have hExtends := extends_own (memory.heap.insert size mode).2 memory.collector.current
    (memory.heap.insert size mode).1
  have hSettled : Settled (memory.heap.insert size mode).2 (memory.heap.insert size mode).2
      [(memory.heap.insert size mode).1] memory.collector.current := by
    refine ⟨?_, h.settled.nodup, fun _ _ hContains => hContains⟩
    intro handle hContains
    have hOnce := h'.placed.count_current_le hContains
    simp only [insert, Collector.register, Collector.current_modifyCurrent] at hOnce
    rwa [hExtends.count_owned hContains] at hOnce
  apply hSlim.modifyCurrent
  exact hSettled.within_own h'.sound.heap h'.counted hLive (Collector.slim_iff.1 hSlim).2 _

theorem slim_addTrace (h : memory.Tended) (hSlim : memory.collector.Slim n)
    (hLive : memory.heap.live ≤ n) :
    (memory.collector.addTrace memory.heap handle).Slim n := by
  have hCurrent := (Collector.slim_iff.1 hSlim).2
  apply hSlim.modifyCurrent
  unfold Frame.trace
  split
  · exact hCurrent
  · exact h.settled.within_pushTrace h.sound.heap h.counted hLive hCurrent handle

theorem within_foldl_traceCounted {heap : Arena} (hs : heap.Sound) (hCounted : heap.Counted)
    (hLive : heap.live ≤ n) {handles : List Handle}
    (hContains : ∀ handle ∈ handles, heap.contains handle = true) {state : Nat × Collector}
    (hSettled : Settled heap heap [] state.2.current) (hWithin : state.2.current.Within n) :
    (handles.foldl (traceCounted heap) state).2.current.Within n := by
  induction handles generalizing state with
  | nil => exact hWithin
  | cons handle handles ih =>
    have hFirst := hContains handle (by simp)
    rw [List.foldl_cons]
    apply ih fun other hMem => hContains other (List.mem_cons_of_mem _ hMem)
    all_goals
      unfold traceCounted
      split
    · exact hSettled
    · rename_i hNot
      simp only [Collector.current_modifyCurrent]
      refine hSettled.of_extends (extends_pushTrace heap _ handle) (List.nodup_singleton _) ?_ ?_
      · simpa using fun hMem => hNot (isTracing_iff_mem.2 hMem)
      · simpa using hFirst
    · exact hWithin
    · simp only [Collector.current_modifyCurrent]
      exact hSettled.within_pushTrace hs hCounted hLive hWithin handle

theorem slim_supertrace {count : Nat} (h : memory.Tended) (hSlim : memory.collector.Slim n)
    (hLive : memory.heap.live ≤ n) (hTrace : memory.supertrace handle = .ok (count, after)) :
    after.collector.Slim n := by
  unfold supertrace at hTrace
  split at hTrace
  · simp only [← Array.foldl_toList, Except.ok.injEq, Prod.mk.injEq] at hTrace
    obtain ⟨-, rfl⟩ := hTrace
    have hSame := Arena.contents_mark memory.heap [handle]
    have hs := Arena.sound_mark h.sound.heap [handle]
    have hContains : ∀ reached ∈ (memory.heap.mark [handle]).2.1.toList,
        (memory.heap.mark [handle]).2.2.contains reached = true := by
      intro reached hMem
      rw [Arena.contains_of_contents hSame]
      exact ((Arena.mem_mark h.sound.heap).1 (Array.mem_toList_iff.1 hMem)).live
    have hRetraces := Collector.retraces_foldl_traceCounted hContains (0, memory.collector)
    rw [Collector.slim_iff, hRetraces.outer]
    refine ⟨(Collector.slim_iff.1 hSlim).1, ?_⟩
    refine within_foldl_traceCounted hs (h.counted.of_contents h.sound.heap hs hSame) ?_ hContains
      ?_ (Collector.slim_iff.1 hSlim).2
    · exact (congrArg Arena.live hSame).trans_le hLive
    · exact h.settled.of_contents hSame
  · cases hTrace

theorem slim_detrace {count : Nat} (hSlim : memory.collector.Slim n)
    (hTrace : memory.detrace handle = .ok (count, after)) : after.collector.Slim n := by
  unfold detrace at hTrace
  split at hTrace
  · simp only [Except.ok.injEq, Prod.mk.injEq] at hTrace
    obtain ⟨-, rfl⟩ := hTrace
    apply hSlim.modifyCurrent
    exact (Collector.slim_iff.1 hSlim).2.of_shorter (Nat.le_refl _) Array.size_filter_le rfl
  · cases hTrace

/-! ## Closing frames -/

/-- What is marked is not released. -/
theorem Swept.contains_of_isMarked {epoch : UInt32} {entries : List Handle}
    (h : Swept epoch entries before after) (hMarked : before.heap.isMarked handle epoch = true) :
    after.heap.contains handle = true := by
  obtain ⟨alloc, hAlloc, -⟩ := Arena.isMarked_iff.1 hMarked
  exact Arena.contains_eq_true.2 ⟨alloc, by simp [h.get?, hMarked, hAlloc]⟩

/-- What the frame below takes over from a closed frame stays live, so that this frame does not
grow beyond what is live in the end. -/
theorem within_foldl_sweepOne {epoch : UInt32} {entries : List Handle} {final : Arena}
    (hs : final.Sound) (hCounted : final.Counted) (hLive : final.live ≤ n)
    {state : SweepReport × Memory} (hFinal : (entries.foldl (sweepOne epoch) state).2.heap = final)
    (hSettled : Settled state.2.heap final entries state.2.collector.current)
    (hWithin : state.2.collector.current.Within n) :
    (entries.foldl (sweepOne epoch) state).2.collector.current.Within n := by
  induction entries generalizing state with
  | nil => exact hWithin
  | cons handle entries ih =>
    have hSwept := swept_foldl epoch (handle :: entries) state
    rw [List.foldl_cons] at hFinal hSwept ⊢
    -- A marked entry moves from those that are to come into the frame; any other is released.
    apply ih hFinal
    all_goals rcases sweepOne_cases epoch state handle with ⟨hMarked, hNext⟩ | ⟨-, hNext⟩
    all_goals rw [hNext]
    · have hStays : final.contains handle = true := hFinal ▸ hSwept.contains_of_isMarked hMarked
      simp only [Collector.register, Collector.current_modifyCurrent]
      refine Settled.of_extends hSettled (extends_own _ _ handle) List.nodup_nil (by simp) ?_
      simpa using hStays
    · exact hSettled.erase
    · simp only [Collector.register, Collector.current_modifyCurrent]
      exact hSettled.within_own hs hCounted hLive hWithin handle
    · exact hWithin

section Closed

variable {closed : Frame} (h : memory.Tended)
  (hBack : memory.collector.frames.back? = some closed)

include h hBack

/-- The live entries of the frame below stay, and what it takes over it does not have yet. -/
theorem Tended.settled_below :
    Settled (memory.heap.mark closed.traced.toList).2.2 memory.closeFrame.2.heap
      closed.owned.toList memory.collector.pop.current := by
  have hContains := Arena.contains_of_contents
    (Arena.contents_mark memory.heap closed.traced.toList)
  have hStack := Collector.stack_of_back?_pop hBack
  refine ⟨?_, h.sound.traced _ (by simp [hStack]), ?_⟩
  · intro handle hLive
    rw [hContains] at hLive
    have hOnce := h.placed.count_le hLive
    simp only [hStack, ownedBy_append, ownedBy_cons, ownedBy_nil, List.count_append,
      List.count_nil] at hOnce
    omega
  · intro handle hMem hLive
    rw [hContains] at hLive
    exact ((closes_closeFrame h.sound.heap hBack).contains handle).2
      ⟨hLive, Or.inl (h.placed.not_owned_by_closed hBack hMem hLive)⟩

theorem outer_closeFrame :
    memory.closeFrame.2.collector.outer = memory.collector.pop.outer := by
  obtain ⟨parent, hStack, -⟩ := (closes_closeFrame h.sound.heap hBack).stack
  rw [Collector.stack_eq] at hStack
  exact List.append_inj_left' hStack rfl

theorem within_closeFrame (hWithin : memory.collector.pop.current.Within n)
    (hLive : memory.closeFrame.2.heap.live ≤ n) :
    memory.closeFrame.2.collector.current.Within n := by
  have hSettled := h.settled_below hBack
  have hs := (closes_closeFrame h.sound.heap hBack).sound
  have hCounted :=
    (Arena.counted_of_operates memory.operates_closeFrame h.sound.heap h.counted).2
  have hClose : memory.closeFrame = closed.owned.toList.foldl
      (sweepOne (memory.heap.mark closed.traced.toList).1)
      ({}, { heap := (memory.heap.mark closed.traced.toList).2.2
             collector := memory.collector.pop }) := by
    unfold closeFrame
    rw [hBack]
    simp only [← Array.foldl_toList]
    rfl
  rw [hClose] at hs hCounted hLive hSettled ⊢
  exact within_foldl_sweepOne hs hCounted hLive rfl hSettled hWithin

end Closed

theorem slim_closeFrame (h : memory.Tended) (hOpen : memory.collector.frames.isEmpty = false)
    (hSlim : memory.collector.Slim n) (hLive : memory.closeFrame.2.heap.live ≤ n) :
    memory.closeFrame.2.collector.Slim n := by
  obtain ⟨closed, hBack⟩ := Collector.back?_of_isEmpty hOpen
  have hStack := Collector.stack_of_back?_pop hBack
  rw [Collector.slim_iff, outer_closeFrame h hBack]
  constructor
  · intro frame hMem
    exact hSlim frame (by simp [hStack, hMem])
  · exact within_closeFrame h hBack (hSlim _ (by simp [hStack])) hLive

/-- While frames are closed one after the other more may be live than in the end, but what the
frames take over meanwhile is lost with them: all that counts is the last one. -/
theorem slim_closeFrames (k : Nat) (total : SweepReport) (h : memory.Tended)
    (hk : k ≤ memory.collector.depth)
    (hSteady : Arena.Steady memory.heap (closeFrames k total memory).2.heap)
    (hOuter : ∀ frame ∈ memory.collector.outer, frame.Within n)
    (hCurrent : k = 0 → memory.collector.current.Within n)
    (hLive : (closeFrames k total memory).2.heap.live ≤ n) :
    (closeFrames k total memory).2.collector.Slim n := by
  induction k generalizing total memory with
  | zero => exact Collector.slim_iff.2 ⟨hOuter, hCurrent rfl⟩
  | succ k ih =>
    obtain ⟨closed, hBack⟩ :=
      Collector.back?_of_isEmpty (Collector.isEmpty_of_depth (Nat.lt_of_lt_of_le k.succ_pos hk))
    have hRest := closeFrames_spec k (total.add memory.closeFrame.1) (sound_closeFrame h.sound)
    obtain ⟨hFirst, hLast⟩ := (sheds_closeFrame h.sound).steady hRest.2 hSteady
    have hTurns : Turns (fun _ => True) memory memory.closeFrame.2 := .closeFrame hBack
    have hDepth := depth_closeFrame h.sound
    have hBelow : memory.collector.outer = memory.collector.pop.outer ++
        [memory.collector.pop.current] := by
      have hStack := Collector.stack_of_back? hBack
      rw [Collector.stack_eq, Collector.stack_eq memory.collector.pop] at hStack
      exact List.append_inj_left' hStack rfl
    rw [hBelow, List.forall_mem_append, List.forall_mem_singleton] at hOuter
    have hTended := hTurns.moves.tended h memory.operates_closeFrame hFirst
    have hRoom : k ≤ memory.closeFrame.2.collector.depth := by omega
    have hFrames : ∀ frame ∈ memory.closeFrame.2.collector.outer, frame.Within n := by
      rw [outer_closeFrame h hBack]
      exact hOuter.1
    refine ih _ hTended hRoom hLast hFrames ?_ hLive
    rintro rfl
    exact within_closeFrame h hBack hOuter.2 hLive

/-! ## Requests of a host function -/

theorem Serves.live_le (h : Serves before after) : before.heap.live ≤ after.heap.live := by
  cases h with
  | same => exact Nat.le_refl _
  | modify _ => exact Nat.le_refl _
  | @allocate size mode _ =>
    have hLive := @Arena.live_insert before.heap size mode
    exact Nat.le_of_lt (Nat.lt_of_lt_of_eq (Nat.lt_succ_self _) hLive.symm)

theorem Serves.outer (h : Serves before after) :
    after.collector.outer = before.collector.outer := by
  cases h with
  | same | modify _ => rfl
  | allocate _ => exact Collector.outer_modifyCurrent _ _

theorem serves_of_allocate {size : UInt16} {mode : TraceMode}
    (h : memory.allocate size mode = .ok (handle, after)) : Serves memory after := by
  unfold allocate at h
  split at h
  · cases h
  · rename_i hFull
    have hServes : Serves memory (memory.insert size mode).2 := .allocate (by simpa using hFull)
    rw [Except.ok.inj h] at hServes
    exact hServes

theorem outer_of_served (h : Relation.ReflTransGen Serves before served) :
    served.collector.outer = before.collector.outer := by
  induction h with
  | refl => rfl
  | tail _ hStep ih => exact hStep.outer.trans ih

theorem slim_of_served (h : before.Tended) (hServed : Relation.ReflTransGen Serves before served)
    (hSlim : before.collector.Slim n) (hLive : served.heap.live ≤ n) :
    served.collector.Slim n := by
  induction hServed with
  | refl => exact hSlim
  | tail hFirst hStep ih =>
    have hBefore := ih (hStep.live_le.trans hLive)
    cases hStep with
    | same | modify _ => exact hBefore
    | allocate hFull => exact slim_insert (h.of_served hFirst) hFull hBefore hLive

/-- A fault may come after requests that left much more live than is live in the end. -/
theorem slim_unwind_of_served (h : before.Tended)
    (hServed : Relation.ReflTransGen Serves before served)
    (hSteady : Arena.Steady before.heap served.unwind.2.heap)
    (hSlim : before.collector.Slim n) (hLive : served.unwind.2.heap.live ≤ n) :
    served.unwind.2.collector.Slim n := by
  refine slim_closeFrames _ _ (h.of_served hServed) (Nat.le_refl _)
    (steady_of_served hServed h.sound hSteady) ?_ ?_ hLive
  · rw [outer_of_served hServed]
    exact (Collector.slim_iff.1 hSlim).1
  · intro hDepth
    rw [unwind, hDepth] at hLive
    exact (Collector.slim_iff.1 (slim_of_served h hServed hSlim hLive)).2

end Memory

namespace Machine

open Memory

variable {σ : Type} {machine after : Machine σ} {n : Nat}

/-! ## One step of a machine -/

section Step

variable (h : machine.memory.Tended) (hSlim : machine.memory.collector.Slim n)
  (hBefore : machine.memory.heap.live ≤ n)

include h hSlim hBefore

theorem slim_commit {op : Operation} {effect : Effect} (hAllowed : machine.Allowed op effect)
    (hLive : (machine.commit effect).machine.memory.heap.live ≤ n) :
    (machine.commit effect).machine.memory.collector.Slim n := by
  cases effect with
  | allocate address size mode => exact slim_insert h hAllowed hSlim hLive
  | free handle => exact hSlim.modifyCurrent ((Collector.slim_iff.1 hSlim).2.forget handle)
  | openFrame => exact hSlim.push
  | trace handle => exact slim_addTrace h hSlim hBefore
  | closeFrame => exact slim_closeFrame h hAllowed.1 hSlim hLive
  | foreign id input address =>
    exact slim_of_served h (served_callForeign h.sound id input address) hSlim hLive
  | _ => exact hSlim

theorem slim_step (code : Array Instruction)
    (hLive : (machine.step code).machine.memory.heap.live ≤ n) :
    (machine.step code).machine.memory.collector.Slim n := by
  rcases machine.step_cases code with ⟨fault, hStep⟩ | ⟨ins, op, effect, _, _, _, hFor, hStep⟩
  · rw [hStep]
    exact hSlim
  · rw [hStep] at hLive ⊢
    exact slim_commit h hSlim hBefore (machine.plans_planFor ins op effect hFor) hLive

theorem slim_of_becomes (hBecomes : machine.Becomes after)
    (hSteady : Arena.Steady machine.memory.heap after.memory.heap)
    (hLive : after.memory.heap.live ≤ n) : after.memory.collector.Slim n := by
  cases hBecomes with
  | start | changeTable | signal | edit _ => exact hSlim
  | @next code _ hStep | @finish code _ hStep =>
    have hNext := slim_step h hSlim hBefore code
    rw [hStep] at hNext
    exact hNext hLive
  | fault hStep =>
    exact slim_unwind_of_served h (served_of_faulted h.sound hStep) hSteady hSlim hLive
  | allocate hAllocate =>
    obtain ⟨⟨handle, memory⟩, hMemory, hAfter⟩ := Arena.bind_eq_ok.1 hAllocate
    cases hAfter
    exact slim_of_served h (.single (serves_of_allocate hMemory)) hSlim hLive
  | supertrace hTrace =>
    obtain ⟨⟨count, memory⟩, hMemory, hAfter⟩ := Arena.bind_eq_ok.1 hTrace
    cases hAfter
    exact slim_supertrace h hSlim hBefore hMemory
  | detrace hTrace =>
    obtain ⟨⟨count, memory⟩, hMemory, hAfter⟩ := Arena.bind_eq_ok.1 hTrace
    cases hAfter
    exact slim_detrace hSlim hMemory
  | load hLoad =>
    unfold load at hLoad
    split at hLoad
    · cases hLoad
    · cases hLoad
      exact hSlim
  | setRegister hSet =>
    obtain ⟨address, _, hAfter⟩ := Arena.bind_eq_ok.1 hSet
    cases hAfter
    exact hSlim
  | reset => exact Collector.slim_empty _ _

theorem slim_of_undergoes (hUndergoes : machine.Undergoes after)
    (hSteady : Arena.Steady machine.memory.heap after.memory.heap)
    (hLive : after.memory.heap.live ≤ n) : after.memory.collector.Slim n := by
  cases hUndergoes with
  | becomes hBecomes => exact slim_of_becomes h hSlim hBefore hBecomes hSteady hLive
  | allocateUnowned _ => exact hSlim

end Step

theorem ages_of_undergoes (hs : machine.memory.Sound) (h : machine.Undergoes after) :
    Arena.Ages machine.memory.heap after.memory.heap := by
  cases h with
  | becomes hBecomes => exact (moves_of_becomes hs hBecomes).ages hs
  | allocateUnowned hAllocate =>
    obtain ⟨hFull, -, rfl⟩ := Arena.allocate_eq_ok hAllocate
    exact fun slot => Or.inl (Arena.generationAt_insert hs.heap hFull _ _ slot)

theorem tended_of_undergoes (h : machine.memory.Tended) (hUndergoes : machine.Undergoes after)
    (hSteady : Arena.Steady machine.memory.heap after.memory.heap) : after.memory.Tended := by
  have hSound := sound_of_undergoes h.sound hUndergoes
  cases hUndergoes with
  | becomes hBecomes =>
    exact (moves_of_becomes h.sound hBecomes).tended h (operates_of_becomes h.sound hBecomes)
      hSteady
  | allocateUnowned hAllocate =>
    obtain ⟨hFull, -, rfl⟩ := Arena.allocate_eq_ok hAllocate
    exact ⟨hSound, h.counted.insert h.sound.heap hFull _ _,
      h.placed.insert h.sound.heap hFull _ _⟩

/-! ## Step after step -/

theorem isChain_ages_of_undergoes {first : Machine σ} {later : List (Machine σ)}
    (hs : first.memory.Sound) (h : (first :: later).IsChain Undergoes) :
    ((first :: later).map fun machine => machine.memory.heap).IsChain Arena.Ages := by
  induction later generalizing first with
  | nil => exact List.isChain_singleton _
  | cons next later ih =>
    rw [List.isChain_cons_cons] at h
    rw [List.map_cons, List.map_cons, List.isChain_cons_cons]
    exact ⟨ages_of_undergoes hs h.1, ih (sound_of_undergoes hs h.1) h.2⟩

theorem slim_along {first : Machine σ} {later : List (Machine σ)} (h : first.memory.Tended)
    (hSlim : first.memory.collector.Slim n) (hChain : (first :: later).IsChain Undergoes)
    (hSteady :
      ((first :: later).map fun machine => machine.memory.heap).IsChain Arena.Steady)
    (hLive : ∀ machine ∈ first :: later, machine.memory.heap.live ≤ n) :
    ∀ machine ∈ first :: later, machine.memory.collector.Slim n := by
  induction later generalizing first with
  | nil =>
    rw [List.forall_mem_singleton]
    exact hSlim
  | cons next later ih =>
    rw [List.isChain_cons_cons] at hChain
    rw [List.map_cons, List.map_cons, List.isChain_cons_cons] at hSteady
    rw [List.forall_mem_cons] at hLive ⊢
    have hNext := slim_of_undergoes h hSlim hLive.1 hChain.1 hSteady.1 (hLive.2 next (by simp))
    have hTended := tended_of_undergoes h hChain.1 hSteady.1
    exact ⟨hSlim, ih hTended hNext hChain.2 hSteady.2 hLive.2⟩

/-- The most allocations that were live at once. -/
def peak (machines : List (Machine σ)) : Nat :=
  (machines.map fun machine => machine.memory.heap.live).foldr max 0

theorem live_le_peak {machines : List (Machine σ)} (h : machine ∈ machines) :
    machine.memory.heap.live ≤ peak machines := by
  induction machines with
  | nil => cases h
  | cons first later ih =>
    simp only [peak, List.map_cons, List.foldr_cons]
    rcases List.mem_cons.1 h with rfl | hLater
    · exact Nat.le_max_left _ _
    · exact (ih hLater).trans (Nat.le_max_right _ _)

/-! ## The law -/

/-- Whatever programs and the host do to a machine, as long as no slot is released `2 ^ 32`
times: neither list of any frame is longer than twice the most allocations that were live at
once so far, or than 64 entries. And no entry of a live allocation is lost when dead ones are
taken out. -/
theorem frames_stay_in_proportion_to_the_peak (config : Config) (host : σ)
    (first machine : Machine σ) (later : List (Machine σ)) (hMake : make config host = .ok first)
    (hLater : (first :: later).IsChain Undergoes)
    (hReleases : ∀ slot,
      Arena.releases ((first :: later).map fun machine => machine.memory.heap) slot < 2 ^ 32)
    (hLast : (first :: later).getLast? = some machine) :
    (∀ frame ∈ machine.memory.collector.stack,
      frame.owned.size ≤ max 64 (2 * peak (first :: later)) ∧
        frame.traced.size ≤ max 64 (2 * peak (first :: later))) ∧
    ∀ (heap : Arena) (frame : Frame),
      (frame.compact heap).owned.toList.filter heap.contains =
          frame.owned.toList.filter heap.contains ∧
        (frame.compact heap).traced.toList.filter heap.contains =
          frame.traced.toList.filter heap.contains := by
  have hMemory := memory_make hMake
  have hTended : first.memory.Tended := by
    rw [hMemory]
    exact ⟨sound_make _ _ _, Arena.counted_empty _ _, (owned_make _ _ _).placed⟩
  have hSlim : first.memory.collector.Slim (peak (first :: later)) := by
    rw [hMemory]
    exact Collector.slim_empty _ _
  have hEmpty : ∀ slot, first.memory.heap.generationAt slot = 0 :=
    hMemory ▸ generationAt_make _ _ _
  have hSteady := @Arena.isChain_steady (fun _ => 0) _ _
    (isChain_ages_of_undergoes hTended.sound hLater) hEmpty (by simpa using hReleases)
  constructor
  · intro frame hFrame
    have hWithin := slim_along hTended hSlim hLater hSteady (fun _ => live_le_peak) machine
      (List.mem_of_getLast? hLast) frame hFrame
    exact ⟨hWithin.owned_le.trans hWithin.compactAt_le,
      hWithin.traced_le.trans hWithin.compactAt_le⟩
  · intro heap frame
    simpa using (Frame.extends_compact heap frame).filter_live (by simp) (by simp)

/-- The host makes an allocation for the root frame. -/
def grown (machine : Machine Unit) : Machine Unit :=
  { machine with memory := (machine.memory.insert 1 .always).2 }

/-- The host makes an allocation, and releases it behind the back of the collector. -/
def churned (machine : Machine Unit) : Machine Unit :=
  machine.grown.withHeap (machine.grown.memory.heap.erase (machine.memory.insert 1 .always).1)

/-- The small machine with an allocation that no frame owns, after `n` allocations that came
and went. -/
def worn : Nat → Machine Unit
  | 0 => small.withHeap (small.memory.heap.insert 1 .always).2
  | n + 1 => (worn n).churned

/-- What the small machine becomes until it is `worn n`. -/
def wearing : Nat → List (Machine Unit)
  | 0 => [worn 0]
  | n + 1 => wearing n ++ [(worn n).grown, worn (n + 1)]

theorem undergoes_grown {machine : Machine Unit} (hFull : machine.memory.heap.isFull = false) :
    machine.Undergoes machine.grown := by
  have hAllocate : machine.allocate 1 .always =
      .ok ((machine.memory.insert 1 .always).1, machine.grown) := by
    unfold allocate Memory.allocate
    rw [hFull]
    rfl
  exact .becomes (.allocate hAllocate)

theorem undergoes_churned {machine : Machine Unit}
    (hLive : machine.grown.memory.heap.contains (machine.memory.insert 1 .always).1 = true) :
    machine.grown.Undergoes machine.churned :=
  .becomes (.edit (.release (if_pos hLive)))

theorem getLast?_wearing (n : Nat) : (small :: wearing n).getLast? = some (worn n) := by
  cases n with
  | zero => rfl
  | succ n =>
    rw [wearing, ← List.cons_append, List.getLast?_append]
    rfl

theorem isChain_wearing {n : Nat}
    (h : ∀ k < n, (worn k).memory.heap.isFull = false ∧
      (worn k).grown.memory.heap.contains ((worn k).memory.insert 1 .always).1 = true) :
    (small :: wearing n).IsChain Undergoes := by
  induction n with
  | zero =>
    have hAllocate : small.memory.heap.allocate 1 .always =
        .ok (_, (small.memory.heap.insert 1 .always).2) := rfl
    simpa [wearing, worn] using Undergoes.allocateUnowned hAllocate
  | succ n ih =>
    obtain ⟨hFull, hLive⟩ := h n (Nat.lt_succ_self n)
    rw [wearing, ← List.cons_append, List.isChain_append]
    refine ⟨ih fun k hk => h k (Nat.lt_succ_of_lt hk), ?_, ?_⟩
    · simpa [worn] using undergoes_churned hLive
    · simpa [getLast?_wearing] using undergoes_grown hFull

/-- When the root frame has 64 dead entries, no fewer than the bound allows, the next one takes
them out. Two allocations were the most, one of them without an owner. -/
theorem dead_entries_are_taken_out_at_the_bound :
    let machines := small :: (wearing 64 ++ [(worn 64).grown])
    machines.IsChain Undergoes ∧
      (∀ slot, Arena.releases (machines.map fun machine => machine.memory.heap) slot < 2 ^ 32) ∧
      machines.getLast? = some (worn 64).grown ∧ peak machines = 2 ∧
      (worn 64).memory.collector.root.owned.size = 64 ∧
      (worn 64).grown.memory.collector.root.owned = #[⟨1, 64⟩] ∧
      ∀ frame ∈ (worn 64).grown.memory.collector.stack,
        frame.owned.size ≤ max 64 (2 * 2) ∧ frame.traced.size ≤ max 64 (2 * 2) := by
  intro machines
  have hRoom : ∀ k < 65, (worn k).memory.heap.isFull = false ∧
      (worn k).grown.memory.heap.contains ((worn k).memory.insert 1 .always).1 = true := by
    decide +kernel
  have hLast : machines.getLast? = some (worn 64).grown := by
    simp only [machines]
    rw [← List.cons_append, List.getLast?_append]
    rfl
  have hChain : machines.IsChain Undergoes := by
    have hWearing := isChain_wearing fun k (hk : k < 64) => hRoom k (Nat.lt_succ_of_lt hk)
    have hGrown := undergoes_grown (hRoom 64 (by decide)).1
    simp only [machines]
    rw [← List.cons_append, List.isChain_append]
    exact ⟨hWearing, List.isChain_singleton _, by simpa [getLast?_wearing] using hGrown⟩
  have hReleases : ∀ slot,
      Arena.releases (machines.map fun machine => machine.memory.heap) slot < 2 ^ 32 := by
    intro slot
    refine Nat.lt_of_le_of_lt (Arena.releases_le_length _ slot) ?_
    rw [List.length_map]
    decide +kernel
  have hPeak : peak machines = 2 := by decide +kernel
  refine ⟨hChain, hReleases, hLast, hPeak, by decide +kernel, by decide +kernel, ?_⟩
  have hSizes := (frames_stay_in_proportion_to_the_peak small.config () small _ _ make_small
    hChain hReleases hLast).1
  rwa [hPeak] at hSizes

end Machine

end RegisterMachine

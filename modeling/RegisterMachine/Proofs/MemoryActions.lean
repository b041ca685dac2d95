-- Single calls of an arena and its collector, one after the other. Whatever they are, an array
-- shows what it showed before as long as nothing is stored through its handle, and a handle
-- that is live at both ends of a run was live all the way.
import RegisterMachine.Proofs.TracedGraphs

namespace RegisterMachine

/-! ## What an array shows -/

/-- The value of a slot, once it was written. -/
def Cell.shown? (cell : Cell) : Option Value := if cell.written then some cell.value else none

namespace Allocation

/-- What the slots below the limit show. -/
def shown (alloc : Allocation) : List (Option Value) :=
  (alloc.cells.toList.take alloc.limit).map Cell.shown?

theorem length_shown {alloc : Allocation} (h : alloc.limit ≤ alloc.capacity) :
    alloc.shown.length = alloc.limit := by
  rw [shown, List.length_map, List.length_take, Array.length_toList, cells, Array.size_mapIdx]
  exact Nat.min_eq_left h

theorem getElem?_shown (alloc : Allocation) {index : Nat} (h : index < alloc.limit) :
    alloc.shown[index]? = alloc.values[index]?.map fun value =>
      if alloc.written[index]?.getD false then some value else none := by
  rw [shown, List.getElem?_map, List.getElem?_take_of_lt h, Array.getElem?_toList, cells,
    Array.getElem?_mapIdx, Option.map_map]
  rfl

theorem getElem?_shown_of_le (alloc : Allocation) {index : Nat} (h : alloc.limit ≤ index) :
    alloc.shown[index]? = none := by
  rw [List.getElem?_eq_none]
  rw [shown, List.length_map, List.length_take]
  omega

@[simp] theorem shown_setMark (alloc : Allocation) (mark : UInt32) :
    (alloc.setMark mark).shown = alloc.shown := rfl

@[simp] theorem shown_setMode (alloc : Allocation) (mode : TraceMode) :
    (alloc.setMode mode).shown = alloc.shown := rfl

@[simp] theorem shown_setFlag (alloc : Allocation) (position : Nat) (flagged : Bool) :
    (alloc.setFlag position flagged).shown = alloc.shown := by
  apply List.ext_getElem?
  intro i
  by_cases hi : i < alloc.limit
  · rw [getElem?_shown alloc hi, getElem?_shown (alloc.setFlag position flagged) hi]
    rfl
  · rw [getElem?_shown_of_le alloc (Nat.not_lt.1 hi),
      getElem?_shown_of_le (alloc.setFlag position flagged) (Nat.not_lt.1 hi)]

theorem shown_write {alloc : Allocation} (h : alloc.Uniform) (position : Nat) (value : Value) :
    (alloc.write position value).shown = alloc.shown.set position (some value) := by
  apply List.ext_getElem?
  intro i
  rw [List.getElem?_set, length_shown h.limit_le]
  by_cases hi : i < alloc.limit
  · rw [getElem?_shown (alloc.write position value) hi, getElem?_shown alloc hi]
    simp only [write, Array.getElem?_setIfInBounds]
    by_cases hPosition : position = i
    · have hValues : i < alloc.values.size := Nat.lt_of_lt_of_le hi h.limit_le
      have hWritten : i < alloc.written.size := h.written.symm ▸ hValues
      simp [hPosition, hi, hValues, hWritten]
    · simp [hPosition]
  · rw [getElem?_shown_of_le alloc (Nat.not_lt.1 hi),
      getElem?_shown_of_le (alloc.write position value) (Nat.not_lt.1 hi)]
    split
    · rw [if_neg (by omega)]
    · rfl

end Allocation

namespace Arena

/-! ## One step of an arena -/

/-- Nothing is made, and what stays is the same but for marks. -/
structure Lessens (before after : Arena) : Prop where
  sheds : Sheds before after
  get? : ∀ handle alloc, after.get? handle = some alloc →
    ∃ old mark, before.get? handle = some old ∧ alloc = old.setMark mark

theorem lessens_refl (heap : Arena) : Lessens heap heap :=
  ⟨sheds_of_stateAt fun _ => rfl, fun _ alloc hGet => ⟨alloc, alloc.mark, hGet, rfl⟩⟩

theorem Lessens.trans {first second third : Arena} (h : Lessens first second)
    (h' : Lessens second third) : Lessens first third := by
  refine ⟨h.sheds.trans h'.sheds, ?_⟩
  intro handle alloc hGet
  obtain ⟨middle, mark, hMiddle, rfl⟩ := h'.get? handle alloc hGet
  obtain ⟨old, mark', hOld, rfl⟩ := h.get? handle middle hMiddle
  exact ⟨old, mark, hOld, rfl⟩

theorem lessens_of_contents {before after : Arena} (h : after.contents = before.contents) :
    Lessens before after := by
  refine ⟨sheds_of_contents h, ?_⟩
  intro handle alloc hGet
  obtain ⟨mark, hOld⟩ := get?_of_contents h.symm hGet
  exact ⟨alloc.setMark mark, alloc.mark, hOld, rfl⟩

/-- What a step does to the handles, when the handles that are `written` are those that it
stores through. -/
structure Passes (written : Handle → Prop) (before after : Arena) : Prop where
  ages : Ages before after
  /-- What is released takes its slot to another generation. -/
  stays : ∀ handle, before.contains handle = true →
    after.generationAt handle.index.toNat = handle.generation → after.contains handle = true
  /-- A limit is given once, and is the length of a new array. -/
  limit : ∀ handle alloc, after.get? handle = some alloc →
    alloc.limit < UInt16.size ∨ ∃ old, before.get? handle = some old ∧ alloc.limit = old.limit
  shown : ∀ handle old alloc, ¬ written handle → before.get? handle = some old →
    after.get? handle = some alloc → alloc.shown = old.shown

theorem Lessens.passes {before after : Arena} (h : Lessens before after)
    (written : Handle → Prop) : Passes written before after := by
  refine ⟨h.sheds.ages, ?_, ?_, ?_⟩
  · intro handle hLive hGeneration
    rw [contains_iff_stateAt] at hLive ⊢
    rcases h.sheds handle.index.toNat with hSame | ⟨g, hOld, hGone⟩
    · rw [hSame, hLive]
    · rw [hLive, Option.some.injEq, Prod.mk.injEq] at hOld
      rw [generationAt, hGone, ← hOld.1] at hGeneration
      exact absurd hGeneration (by simp)
  · intro handle alloc hGet
    obtain ⟨old, mark, hOld, rfl⟩ := h.get? handle alloc hGet
    exact Or.inr ⟨old, hOld, rfl⟩
  · intro handle old alloc _ hOld hGet
    obtain ⟨old', mark, hOld', rfl⟩ := h.get? handle alloc hGet
    rw [hOld, Option.some.injEq] at hOld'
    rw [hOld', Allocation.shown_setMark]

theorem passes_insert {heap : Arena} (hs : heap.Sound) (hFull : heap.isFull = false)
    (size : UInt16) (mode : TraceMode) (written : Handle → Prop) :
    Passes written heap (heap.insert size mode).2 := by
  refine ⟨fun slot => Or.inl (generationAt_insert hs hFull size mode slot), ?_, ?_, ?_⟩
  · intro handle hLive _
    exact (contains_insert hs hFull size mode handle).2 (Or.inr hLive)
  · intro handle alloc hGet
    rw [get?_insert hs hFull] at hGet
    split at hGet
    · rw [newAllocation_eq hs] at hGet
      cases hGet
      exact Or.inl size.toNat_lt
    · exact Or.inr ⟨alloc, hGet, rfl⟩
  · intro handle old alloc _ hOld hGet
    have hNe : handle ≠ (heap.insert size mode).1 := by
      rintro rfl
      rw [contains_eq_false.1 (not_contains_new hs hFull size mode)] at hOld
      cases hOld
    rw [get?_insert hs hFull, if_neg hNe, hOld] at hGet
    cases hGet
    rfl

theorem passes_modify (heap : Arena) (target : Handle) {change : Allocation → Allocation}
    {written : Handle → Prop} (hLimit : ∀ alloc, (change alloc).limit = alloc.limit)
    (hShown : ¬ written target → ∀ alloc, (change alloc).shown = alloc.shown) :
    Passes written heap (heap.modify target change) := by
  refine ⟨?_, ?_, ?_, ?_⟩
  · exact fun slot => Or.inl (generationAt_of_stateAt (stateAt_modify heap target change slot))
  · intro handle hLive _
    rw [contains_modify, hLive]
  · intro handle alloc hGet
    rw [get?_modify] at hGet
    split at hGet
    · rename_i hEq
      obtain ⟨old, hOld, rfl⟩ := Option.map_eq_some_iff.1 hGet
      exact Or.inr ⟨old, hEq ▸ hOld, hLimit old⟩
    · exact Or.inr ⟨alloc, hGet, rfl⟩
  · intro handle old alloc hWritten hOld hGet
    rw [get?_modify] at hGet
    split at hGet
    · rename_i hEq
      subst hEq
      rw [hOld] at hGet
      cases hGet
      exact hShown hWritten old
    · rw [hOld] at hGet
      cases hGet
      rfl

theorem generationAt_of_contains {heap : Arena} {handle : Handle}
    (h : heap.contains handle = true) :
    heap.generationAt handle.index.toNat = handle.generation := by
  rw [generationAt, contains_iff_stateAt.1 h]
  rfl

theorem generationAt_new {heap : Arena} (hs : heap.Sound) (hFull : heap.isFull = false)
    (size : UInt16) (mode : TraceMode) :
    heap.generationAt (heap.insert size mode).1.index.toNat =
      (heap.insert size mode).1.generation := by
  unfold generationAt
  rcases vacancy_insert hs hFull size mode with hVacant | ⟨hNone, hZero⟩
  · rw [hVacant]
    rfl
  · rw [hNone, hZero]
    rfl

/-- The handle that a call stores through. -/
def Call.written? : Call → Option Handle
  | .store handle _ _ | .storeUnchecked handle _ _ => some handle
  | _ => none

theorem passes_call {heap : Arena} (hs : heap.Sound) (call : Call) :
    Passes (call.written? = some ·) heap (heap.call call).2 := by
  have hDoes := does_call heap call
  generalize (heap.call call).1 = done at hDoes
  generalize (heap.call call).2 = after at hDoes ⊢
  cases hDoes with
  | nothing => exact (lessens_refl heap).passes _
  | allocate hFull => exact passes_insert hs hFull _ _ _
  | @release handle _ =>
    refine Lessens.passes ⟨sheds_erase heap handle, ?_⟩ _
    intro other alloc hGet
    rw [get?_erase] at hGet
    split at hGet
    · cases hGet
    · exact ⟨alloc, alloc.mark, hGet, rfl⟩
  | clear =>
    refine Lessens.passes ⟨sheds_clear heap, ?_⟩ _
    intro handle alloc hGet
    rw [get?_clear] at hGet
    cases hGet
  | store => exact passes_modify heap _ (fun _ => rfl) fun h => absurd rfl h
  | storeUnchecked => exact passes_modify heap _ (fun _ => rfl) fun h => absurd rfl h
  | setFlag => exact passes_modify heap _ (fun _ => rfl) fun _ _ => Allocation.shown_setFlag _ _ _
  | setMode => exact passes_modify heap _ (fun _ => rfl) fun _ _ => Allocation.shown_setMode _ _
  | mark => exact (lessens_of_contents (contents_mark heap _)).passes _

end Arena

/-! ## Actions -/

namespace Memory

/-- One call of the arena of a memory or of its collector. -/
inductive Action where
  | call (call : Arena.Call)
  | register (handle : Handle)
  | forget (handle : Handle)
  | openFrame
  | trace (handle : Handle)
  | untrace (handle : Handle)
  | supertrace (handle : Handle)
  | detrace (handle : Handle)
  | clean
  | unwind
  /-- Drops the frames alone. -/
  | dropFrames
  deriving DecidableEq, Repr

/-- The handle that an action stores through. -/
def Action.written? : Action → Option Handle
  | .call request => request.written?
  | _ => none

/-- Carries out an action. One that fails changes nothing. -/
def act (memory : Memory) : Action → Memory
  | .call call => memory.withHeap (memory.heap.call call).2
  | .register handle => memory.withCollector (memory.collector.register memory.heap handle)
  | .forget handle => memory.withCollector (memory.collector.forget handle)
  | .openFrame => memory.perform .openFrame
  | .trace handle => memory.perform (.trace handle)
  | .untrace handle => memory.withCollector (memory.collector.untrace handle).2
  | .supertrace handle => memory.perform (.supertrace handle)
  | .detrace handle => memory.perform (.detrace handle)
  | .clean => memory.perform .closeFrame
  | .unwind => memory.unwind.2
  | .dropFrames => memory.withCollector memory.collector.reset

/-- Carries out actions one after the other. -/
def after (memory : Memory) (actions : List Action) : Memory := actions.foldl act memory

/-- The arenas after each action of a run. -/
def laterArenas : Memory → List Action → List Arena
  | _, [] => []
  | memory, action :: actions =>
    (memory.act action).heap :: laterArenas (memory.act action) actions

/-- How often a slot was released in a run. -/
def releasesIn (memory : Memory) (actions : List Action) (slot : Nat) : Nat :=
  Arena.releases (memory.heap :: memory.laterArenas actions) slot

/-! ## What an action does to the heap -/

/-- The heap changes by marks and releases alone. -/
structure Quiet (before after : Memory) : Prop where
  lessens : before.heap.Lessens after.heap
  operates : Relation.ReflTransGen Arena.Operates before.heap after.heap
  limits : after.heap.limits = before.heap.limits

theorem Quiet.trans {first second third : Memory} (h : Quiet first second)
    (h' : Quiet second third) : Quiet first third :=
  ⟨h.lessens.trans h'.lessens, h.operates.trans h'.operates, h'.limits.trans h.limits⟩

section Quiet

variable {memory after : Memory}

theorem quiet_of_heap (h : after.heap = memory.heap) : Quiet memory after := by
  refine ⟨?_, ?_, congrArg Arena.limits h⟩ <;> rw [h]
  exact Arena.lessens_refl _

theorem quiet_of_mark {roots : List Handle} (h : after.heap = (memory.heap.mark roots).2.2) :
    Quiet memory after := by
  refine ⟨?_, ?_, ?_⟩ <;> rw [h]
  · exact Arena.lessens_of_contents (Arena.contents_mark _ _)
  · exact .single .mark
  · exact Arena.limits_mark _ _

theorem quiet_closeFrame (hs : memory.Sound) : Quiet memory memory.closeFrame.2 := by
  refine ⟨?_, operates_closeFrame memory, congrArg Prod.fst (limits_closeFrame memory)⟩
  rcases hBack : memory.collector.frames.back? with _ | closed
  · rw [closeFrame_of_root hBack]
    exact Arena.lessens_refl _
  · have hCloses := closes_closeFrame hs.heap hBack
    exact ⟨hCloses.sheds, hCloses.get?⟩

theorem quiet_closeFrames (n : Nat) (total : SweepReport) (hs : memory.Sound) :
    Quiet memory (closeFrames n total memory).2 := by
  induction n generalizing total memory with
  | zero => exact quiet_of_heap rfl
  | succ n ih => exact (quiet_closeFrame hs).trans (ih _ (sound_closeFrame hs))

theorem quiet_perform {op : Operation}
    (h : ∀ after, memory.apply op = .ok after → Quiet memory after) :
    Quiet memory (memory.perform op) := by
  unfold perform
  split
  · rename_i hApply
    exact h _ hApply
  · exact quiet_of_heap rfl

theorem quiet_supertrace {handle : Handle} {count : Nat}
    (h : memory.supertrace handle = .ok (count, after)) : Quiet memory after := by
  unfold supertrace at h
  split at h
  · simp only [Except.ok.injEq, Prod.mk.injEq] at h
    obtain ⟨-, rfl⟩ := h
    exact quiet_of_mark rfl
  · cases h

theorem quiet_detrace {handle : Handle} {count : Nat}
    (h : memory.detrace handle = .ok (count, after)) : Quiet memory after := by
  unfold detrace at h
  split at h
  · simp only [Except.ok.injEq, Prod.mk.injEq] at h
    obtain ⟨-, rfl⟩ := h
    exact quiet_of_mark rfl
  · cases h

/-- The collector makes no allocation and stores nothing. -/
theorem quiet_act (hs : memory.Sound) {action : Action} (h : ∀ call, action ≠ .call call) :
    Quiet memory (memory.act action) := by
  cases action with
  | call request => exact absurd rfl (h request)
  | register | forget | untrace | dropFrames => exact quiet_of_heap rfl
  | openFrame =>
    apply quiet_perform
    intro after hApply
    obtain ⟨collector, -, rfl⟩ := Arena.map_eq_ok.1 hApply
    exact quiet_of_heap rfl
  | trace handle =>
    apply quiet_perform
    intro after hApply
    obtain ⟨collector, -, rfl⟩ := Arena.map_eq_ok.1 hApply
    exact quiet_of_heap rfl
  | supertrace handle =>
    apply quiet_perform
    intro after hApply
    obtain ⟨⟨count, after⟩, hTrace, rfl⟩ := Arena.map_eq_ok.1 hApply
    exact quiet_supertrace hTrace
  | detrace handle =>
    apply quiet_perform
    intro after hApply
    obtain ⟨⟨count, after⟩, hTrace, rfl⟩ := Arena.map_eq_ok.1 hApply
    exact quiet_detrace hTrace
  | clean =>
    apply quiet_perform
    intro after hApply
    obtain ⟨⟨report, after⟩, hClean, rfl⟩ := Arena.map_eq_ok.1 hApply
    have hAfter := (clean_eq_ok hClean).2
    have hClosed := quiet_closeFrame hs
    rw [← hAfter] at hClosed
    exact hClosed
  | unwind => exact quiet_closeFrames _ _ hs

end Quiet

/-! ## What an action keeps -/

section Keeps

variable {memory : Memory}

theorem sound_act (hs : memory.Sound) (action : Action) : (memory.act action).Sound := by
  cases action with
  | call request => exact (Touches.heap request).sound hs
  | register handle => exact (Touches.register handle).sound hs
  | forget handle => exact (Touches.forget handle).sound hs
  | untrace handle => exact (Touches.untrace handle).sound hs
  | unwind => exact Touches.unwind.sound hs
  | dropFrames => exact Touches.reset.sound hs
  | openFrame | trace | supertrace | detrace | clean =>
    exact (turns_perform hs.heap _).sound hs

theorem sound_after (hs : memory.Sound) (actions : List Action) :
    (memory.after actions).Sound := by
  induction actions generalizing memory with
  | nil => exact hs
  | cons action actions ih => exact ih (sound_act hs action)

theorem passes_act (hs : memory.Sound) (action : Action) :
    Arena.Passes (action.written? = some ·) memory.heap (memory.act action).heap := by
  by_cases hCall : ∃ call, action = .call call
  · obtain ⟨call, rfl⟩ := hCall
    exact Arena.passes_call hs.heap call
  · exact (quiet_act hs (not_exists.1 hCall)).lessens.passes _

/-- What holds of every memory that actions lead to. -/
structure Regular (heapLimit : Nat) (memory : Memory) : Prop where
  sound : memory.Sound
  counted : memory.heap.Counted
  limit_eq : memory.heap.limit = heapLimit
  /-- A length has sixteen bits. -/
  limit_lt : ∀ handle alloc, memory.heap.get? handle = some alloc → alloc.limit < UInt16.size

theorem regular_make (heapLimit poolLimit frameLimit : Nat) :
    Regular heapLimit (make heapLimit poolLimit frameLimit) := by
  refine ⟨sound_make _ _ _, Arena.counted_empty _ _, rfl, ?_⟩
  intro handle alloc hGet
  simp [make, Arena.get?] at hGet

theorem Regular.act {heapLimit : Nat} (h : memory.Regular heapLimit) (action : Action) :
    (memory.act action).Regular heapLimit := by
  have hHeap : Relation.ReflTransGen Arena.Operates memory.heap (memory.act action).heap ∧
      (memory.act action).heap.limits = memory.heap.limits := by
    by_cases hCall : ∃ call, action = .call call
    · obtain ⟨call, rfl⟩ := hCall
      exact ⟨(Arena.does_call memory.heap call).operates h.sound.heap,
        Arena.limits_call memory.heap call⟩
    · have hQuiet := quiet_act h.sound (not_exists.1 hCall)
      exact ⟨hQuiet.operates, hQuiet.limits⟩
  refine ⟨sound_act h.sound action,
    (Arena.counted_of_operates hHeap.1 h.sound.heap h.counted).2,
    (congrArg Prod.fst hHeap.2).trans h.limit_eq, ?_⟩
  intro handle alloc hGet
  rcases (passes_act h.sound action).limit handle alloc hGet with hNew | ⟨old, hOld, hLimit⟩
  · exact hNew
  · rw [hLimit]
    exact h.limit_lt handle old hOld

theorem Regular.after {heapLimit : Nat} (h : memory.Regular heapLimit) (actions : List Action) :
    (memory.after actions).Regular heapLimit := by
  induction actions generalizing memory with
  | nil => exact h
  | cons action actions ih => exact ih (h.act action)

/-! ## What a run keeps -/

theorem after_append (memory : Memory) (actions more : List Action) :
    memory.after (actions ++ more) = (memory.after actions).after more :=
  List.foldl_append

theorem releasesIn_cons (memory : Memory) (action : Action) (actions : List Action)
    (slot : Nat) :
    memory.releasesIn (action :: actions) slot =
      Arena.releasesBetween memory.heap (memory.act action).heap slot +
        (memory.act action).releasesIn actions slot := rfl

/-- The generation of a slot counts its releases. -/
theorem generationAt_after (hs : memory.Sound) (actions : List Action) (slot : Nat) :
    (memory.after actions).heap.generationAt slot =
      memory.heap.generationAt slot + UInt32.ofNat (memory.releasesIn actions slot) := by
  induction actions generalizing memory with
  | nil => exact (UInt32.add_zero _).symm
  | cons action actions ih =>
    have hStep := (passes_act hs action).ages.generationAt_eq slot
    rw [releasesIn_cons, UInt32.ofNat_add, ← UInt32.add_assoc, ← hStep]
    exact ih (sound_act hs action)

/-- A slot that has its generation at both ends of a run was not released in it, unless it was
released so often that its generations started again. -/
theorem releasesIn_eq_zero (hs : memory.Sound) {actions : List Action} {slot : Nat}
    (hSame : (memory.after actions).heap.generationAt slot = memory.heap.generationAt slot)
    (hReleases : memory.releasesIn actions slot < 2 ^ 32) :
    memory.releasesIn actions slot = 0 := by
  rw [generationAt_after hs, UInt32.add_eq_left] at hSame
  have hNat := congrArg UInt32.toNat hSame
  rwa [UInt32.toNat_ofNat_of_lt' hReleases] at hNat

/-- An array whose slot is not released stays, and shows the same while nothing is stored
through its handle. -/
theorem get?_after (hs : memory.Sound) {handle : Handle} {alloc : Allocation}
    (hGet : memory.heap.get? handle = some alloc) {actions : List Action}
    (hReleases : memory.releasesIn actions handle.index.toNat = 0) :
    ∃ later, (memory.after actions).heap.get? handle = some later ∧
      ((∀ action ∈ actions, action.written? ≠ some handle) → later.shown = alloc.shown) := by
  induction actions generalizing memory alloc with
  | nil => exact ⟨alloc, hGet, fun _ => rfl⟩
  | cons action actions ih =>
    rw [releasesIn_cons, Nat.add_eq_zero_iff] at hReleases
    obtain ⟨hStep, hRest⟩ := hReleases
    have hPasses := passes_act hs action
    -- The slot keeps its generation in this step, so that its array stays.
    have hLive := Arena.contains_eq_true.2 ⟨alloc, hGet⟩
    have hGeneration : (memory.act action).heap.generationAt handle.index.toNat =
        handle.generation := by
      rw [hPasses.ages.generationAt_eq, hStep, Arena.generationAt_of_contains hLive]
      exact UInt32.add_zero _
    obtain ⟨next, hNext⟩ := Arena.contains_eq_true.1 (hPasses.stays handle hLive hGeneration)
    obtain ⟨later, hLater, hShown⟩ := ih (sound_act hs action) hNext hRest
    refine ⟨later, hLater, ?_⟩
    rw [List.forall_mem_cons]
    rintro ⟨hFirst, hOthers⟩
    rw [hShown hOthers, hPasses.shown handle alloc next hFirst hGet hNext]

/-- With its handle live at the end of a run in which nothing was stored through it, an array
shows what it showed at the start. -/
theorem shown_after (hs : memory.Sound) {handle : Handle} {alloc : Allocation}
    (hGet : memory.heap.get? handle = some alloc) {actions : List Action}
    (hWritten : ∀ action ∈ actions, action.written? ≠ some handle)
    (hReleases : memory.releasesIn actions handle.index.toNat < 2 ^ 32)
    (hLive : (memory.after actions).heap.contains handle = true) :
    ∃ later, (memory.after actions).heap.get? handle = some later ∧
      later.shown = alloc.shown := by
  have hFirst := Arena.generationAt_of_contains (Arena.contains_eq_true.2 ⟨alloc, hGet⟩)
  have hLast := Arena.generationAt_of_contains hLive
  obtain ⟨later, hLater, hShown⟩ :=
    get?_after hs hGet (releasesIn_eq_zero hs (hLast.trans hFirst.symm) hReleases)
  exact ⟨later, hLater, hShown hWritten⟩

/-- A new handle is none that was live before, unless its slot was released so often in between
that its generations started again. -/
theorem not_contains_of_new (hs : memory.Sound) {actions : List Action}
    (hFull : (memory.after actions).heap.isFull = false) (size : UInt16) (mode : TraceMode)
    (hReleases : memory.releasesIn actions
      ((memory.after actions).heap.insert size mode).1.index.toNat < 2 ^ 32) :
    memory.heap.contains ((memory.after actions).heap.insert size mode).1 = false := by
  have hs' := (sound_after hs actions).heap
  rw [← Bool.not_eq_true]
  intro hLive
  -- A handle that is live now and vacant later, in one generation, contradicts `get?_after`.
  obtain ⟨alloc, hGet⟩ := Arena.contains_eq_true.1 hLive
  have hSame := (Arena.generationAt_new hs' hFull size mode).trans
    (Arena.generationAt_of_contains hLive).symm
  obtain ⟨later, hLater, -⟩ := get?_after hs hGet (releasesIn_eq_zero hs hSame hReleases)
  rw [Arena.contains_eq_false.1 (Arena.not_contains_new hs' hFull size mode)] at hLater
  cases hLater

end Keeps

end Memory

end RegisterMachine

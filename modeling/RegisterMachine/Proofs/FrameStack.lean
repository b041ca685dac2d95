-- The collector frames as one list, the root first and the current frame last,
-- and what each change of a frame does to its two lists.
import Mathlib.Data.List.Nodup
import RegisterMachine.Collector.Frame
import RegisterMachine.Proofs.SlotStates

namespace RegisterMachine

/-! ## The stack of frames -/

namespace Collector

/-- All frames, from the root to the current one. -/
def stack (collector : Collector) : List Frame := collector.root :: collector.frames.toList

/-- The frames below the current one. -/
def outer (collector : Collector) : List Frame := collector.stack.dropLast

theorem modify_last (below : List Frame) (frame : Frame) (change : Frame → Frame) :
    (below ++ [frame]).modify below.length change = below ++ [change frame] := by
  induction below with
  | nil => rfl
  | cons first below ih => simp [ih]

theorem stack_of_push {collector : Collector} {below : Array Frame} {frame : Frame}
    (h : collector.frames = below.push frame) :
    collector.outer = collector.root :: below.toList ∧ collector.current = frame := by
  unfold outer stack current
  rw [h]
  refine ⟨?_, by simp⟩
  rw [Array.toList_push, ← List.cons_append, List.dropLast_concat]

theorem stack_of_empty {collector : Collector} (h : collector.frames = #[]) :
    collector.outer = [] ∧ collector.current = collector.root := by
  unfold outer stack current
  rw [h]
  exact ⟨rfl, rfl⟩

theorem frames_cases (collector : Collector) :
    collector.frames = #[] ∨
      ∃ (below : Array Frame) (frame : Frame), collector.frames = below.push frame := by
  by_cases h : collector.frames.size = 0
  · exact Or.inl (Array.size_eq_zero_iff.1 h)
  · exact Or.inr (Array.eq_push_of_size_ne_zero h)

theorem stack_eq (collector : Collector) :
    collector.stack = collector.outer ++ [collector.current] := by
  rcases collector.frames_cases with h | ⟨below, frame, h⟩
  · obtain ⟨hOuter, hCurrent⟩ := stack_of_empty h
    rw [hOuter, hCurrent, stack, h]
    rfl
  · obtain ⟨hOuter, hCurrent⟩ := stack_of_push h
    rw [hOuter, hCurrent, stack, h, Array.toList_push]
    rfl

theorem stack_modifyCurrent (collector : Collector) (change : Frame → Frame) :
    (collector.modifyCurrent change).stack = collector.outer ++ [change collector.current] := by
  unfold modifyCurrent
  rcases collector.frames_cases with h | ⟨below, frame, h⟩
  · obtain ⟨hOuter, hCurrent⟩ := stack_of_empty h
    rw [hOuter, hCurrent, h]
    simp [stack]
  · obtain ⟨hOuter, hCurrent⟩ := stack_of_push h
    have hModify := modify_last below.toList frame change
    rw [Array.length_toList] at hModify
    rw [hOuter, hCurrent, h]
    simp [stack, hModify]

theorem outer_modifyCurrent (collector : Collector) (change : Frame → Frame) :
    (collector.modifyCurrent change).outer = collector.outer := by
  rw [outer, stack_modifyCurrent, List.dropLast_concat]

theorem current_modifyCurrent (collector : Collector) (change : Frame → Frame) :
    (collector.modifyCurrent change).current = change collector.current := by
  have h := stack_eq (collector.modifyCurrent change)
  rw [stack_modifyCurrent, outer_modifyCurrent] at h
  simpa using h.symm

theorem frameLimit_modifyCurrent (collector : Collector) (change : Frame → Frame) :
    (collector.modifyCurrent change).frameLimit = collector.frameLimit := by
  unfold modifyCurrent
  split <;> rfl

theorem stack_push (collector : Collector) :
    collector.push.stack = collector.stack ++ [({} : Frame)] := by
  unfold push stack
  simp

theorem length_stack (collector : Collector) : collector.stack.length = collector.depth + 1 := by
  unfold stack depth
  simp

theorem length_outer (collector : Collector) : collector.outer.length = collector.depth := by
  rw [outer, List.length_dropLast, length_stack, Nat.add_sub_cancel]

/-- The collector without its innermost frame. -/
def pop (collector : Collector) : Collector :=
  { collector with frames := collector.frames.pop }

/-- The innermost frame that can be closed, above the others. -/
theorem stack_of_back? {collector : Collector} {frame : Frame}
    (h : collector.frames.back? = some frame) :
    collector.stack = collector.pop.stack ++ [frame] := by
  rcases collector.frames_cases with hEmpty | ⟨below, last, hPush⟩
  · simp [hEmpty] at h
  · have hLast : last = frame := by simpa [hPush] using h
    subst hLast
    simp [stack, pop, hPush]

theorem stack_of_back?_pop {collector : Collector} {frame : Frame}
    (h : collector.frames.back? = some frame) :
    collector.stack = collector.pop.outer ++ [collector.pop.current, frame] := by
  rw [stack_of_back? h, stack_eq, List.append_assoc]
  rfl

theorem back?_of_isEmpty {collector : Collector} (h : collector.frames.isEmpty = false) :
    ∃ frame, collector.frames.back? = some frame := by
  rcases collector.frames_cases with hEmpty | ⟨below, frame, hPush⟩
  · simp [hEmpty] at h
  · exact ⟨frame, by simp [hPush]⟩

theorem isEmpty_of_depth {collector : Collector} (h : 0 < collector.depth) :
    collector.frames.isEmpty = false := by
  rw [Array.isEmpty_eq_false_iff, ← Array.size_pos_iff]
  exact h

end Collector

/-! ## The lists of a frame -/

namespace Frame

/-- `after` is `before` without some dead entries, and with new entries behind the others. -/
def Extends (heap : Arena) (owned traced : List Handle) (before after : Frame) : Prop :=
  ∃ keep : Handle → Bool, (∀ handle, heap.contains handle = true → keep handle = true) ∧
    after.owned.toList = before.owned.toList.filter keep ++ owned ∧
    after.traced.toList = before.traced.toList.filter keep ++ traced

theorem extends_refl (heap : Arena) (frame : Frame) : Extends heap [] [] frame frame :=
  ⟨fun _ => true, fun _ _ => rfl, by simp, by simp⟩

/-- Entries that stay live are kept when more entries come behind them. -/
theorem Extends.trans {heap heap' : Arena} {owned traced owned' traced' : List Handle}
    {first second third : Frame} (h : Extends heap owned traced first second)
    (h' : Extends heap' owned' traced' second third)
    (hLive : ∀ handle, heap'.contains handle = true → heap.contains handle = true)
    (hOwned : ∀ handle ∈ owned, heap'.contains handle = true)
    (hTraced : ∀ handle ∈ traced, heap'.contains handle = true) :
    Extends heap' (owned ++ owned') (traced ++ traced') first third := by
  obtain ⟨keep, hKeep, hO, hT⟩ := h
  obtain ⟨keep', hKeep', hO', hT'⟩ := h'
  refine ⟨fun handle => keep' handle && keep handle, ?_, ?_, ?_⟩
  · intro handle h
    simp [hKeep' handle h, hKeep handle (hLive handle h)]
  · have hNew : owned.filter keep' = owned :=
      List.filter_eq_self.2 fun handle h => hKeep' handle (hOwned handle h)
    rw [hO', hO, List.filter_append, List.filter_filter, hNew, List.append_assoc]
  · have hNew : traced.filter keep' = traced :=
      List.filter_eq_self.2 fun handle h => hKeep' handle (hTraced handle h)
    rw [hT', hT, List.filter_append, List.filter_filter, hNew, List.append_assoc]

section Entries

variable {heap : Arena} {owned traced : List Handle} {before after : Frame}
  (h : Extends heap owned traced before after) {handle : Handle}

include h

theorem Extends.count_owned (hLive : heap.contains handle = true) :
    after.owned.toList.count handle = before.owned.toList.count handle + owned.count handle := by
  obtain ⟨keep, hKeep, hOwned, -⟩ := h
  rw [hOwned, List.count_append, List.count_filter (hKeep handle hLive)]

theorem Extends.mem_owned (hMem : handle ∈ after.owned.toList) :
    handle ∈ before.owned.toList ∨ handle ∈ owned := by
  obtain ⟨keep, -, hOwned, -⟩ := h
  simp only [hOwned, List.mem_append, List.mem_filter] at hMem
  exact hMem.imp_left And.left

theorem Extends.mem_traced (hMem : handle ∈ after.traced.toList) :
    handle ∈ before.traced.toList ∨ handle ∈ traced := by
  obtain ⟨keep, -, -, hTraced⟩ := h
  simp only [hTraced, List.mem_append, List.mem_filter] at hMem
  exact hMem.imp_left And.left

/-- No entry of a live allocation is lost. -/
theorem Extends.mem_of_live (hLive : heap.contains handle = true)
    (hMem : handle ∈ before.owned.toList ∨ handle ∈ owned) : handle ∈ after.owned.toList := by
  rw [← List.count_pos_iff, h.count_owned hLive]
  rcases hMem with hOld | hNew
  · have := List.count_pos_iff.2 hOld
    omega
  · have := List.count_pos_iff.2 hNew
    omega

end Entries

theorem extends_compact (heap : Arena) (frame : Frame) :
    Extends heap [] [] frame (frame.compact heap) := by
  refine ⟨heap.contains, fun _ h => h, ?_, ?_⟩ <;> simp [compact]

theorem extends_own (heap : Arena) (frame : Frame) (handle : Handle) :
    Extends heap [handle] [] frame (frame.own heap handle) := by
  unfold own
  split
  · obtain ⟨keep, hKeep, hOwned, hTraced⟩ := extends_compact heap frame
    exact ⟨keep, hKeep, by simpa using hOwned, hTraced⟩
  · obtain ⟨keep, hKeep, hOwned, hTraced⟩ := extends_refl heap frame
    exact ⟨keep, hKeep, by simpa using hOwned, hTraced⟩

theorem extends_pushTrace (heap : Arena) (frame : Frame) (handle : Handle) :
    Extends heap [] [handle] frame (frame.pushTrace heap handle) := by
  unfold pushTrace
  split
  · obtain ⟨keep, hKeep, hOwned, hTraced⟩ := extends_compact heap frame
    exact ⟨keep, hKeep, hOwned, by simpa using hTraced⟩
  · obtain ⟨keep, hKeep, hOwned, hTraced⟩ := extends_refl heap frame
    exact ⟨keep, hKeep, hOwned, by simpa using hTraced⟩

/-! ## Entries that are taken out -/

theorem getElem?_of_lastIndexBelow? {entries : Array Handle} {handle : Handle} {n i : Nat}
    (h : lastIndexBelow? entries handle n = some i) : entries[i]? = some handle := by
  induction n with
  | zero => cases h
  | succ n ih =>
    rw [lastIndexBelow?] at h
    split at h
    · rename_i entry hEntry
      split at h
      · rename_i hEq
        cases h
        rw [hEntry, hEq]
      · exact ih h
    · exact ih h

/-- A swap removal takes out the entry at its place and no other. -/
theorem count_swapRemove {entries : Array Handle} {i : Nat} {handle other : Handle}
    (h : entries[i]? = some handle) (hOther : other ≠ handle) :
    (Arena.swapRemove entries i).toList.count other = entries.toList.count other := by
  have hSize : i < entries.size := (Array.getElem?_eq_some_iff.1 h).1
  obtain ⟨below, last, rfl⟩ := Array.eq_push_of_size_ne_zero (by omega : entries.size ≠ 0)
  have hLast : (below.push last).back? = some last := by simp
  unfold Arena.swapRemove
  rw [hLast]
  simp only [Array.toList_pop, Array.toList_setIfInBounds, Array.toList_push]
  rw [Array.getElem?_push] at h
  by_cases hi : i = below.size
  · rw [if_pos hi] at h
    cases h
    subst hi
    have hNe : handle ≠ other := Ne.symm hOther
    simp [hNe]
  · rw [if_neg hi] at h
    have hlt : i < below.toList.length := by
      rw [Array.size_push] at hSize
      rw [Array.length_toList]
      omega
    have hEntry : below.toList[i] = handle := by
      rw [← Array.getElem?_toList, List.getElem?_eq_getElem hlt] at h
      exact Option.some.inj h
    rw [List.set_append, if_pos hlt, List.dropLast_concat, List.count_set hlt, hEntry,
      List.count_append]
    have hNe : (handle == other) = false := by simpa using Ne.symm hOther
    simp [hNe, List.count_singleton]

theorem mem_of_mem_swapRemove {entries : Array Handle} {i : Nat} {handle : Handle}
    (h : handle ∈ (Arena.swapRemove entries i).toList) : handle ∈ entries.toList := by
  unfold Arena.swapRemove at h
  split at h
  · rename_i last hBack
    rw [Array.toList_pop, Array.toList_setIfInBounds] at h
    rcases List.mem_or_eq_of_mem_set (List.dropLast_subset _ h) with hOld | rfl
    · exact hOld
    · exact Array.mem_toList_iff.2 (Array.mem_of_back? hBack)
  · exact h

theorem count_removeLast {entries : Array Handle} {handle other : Handle}
    (hOther : other ≠ handle) :
    (removeLast entries handle).toList.count other = entries.toList.count other := by
  unfold removeLast
  split
  · rename_i i hIndex
    exact count_swapRemove (getElem?_of_lastIndexBelow? hIndex) hOther
  · rfl

theorem mem_of_mem_removeLast {entries : Array Handle} {handle other : Handle}
    (h : other ∈ (removeLast entries handle).toList) : other ∈ entries.toList := by
  unfold removeLast at h
  split at h
  · exact mem_of_mem_swapRemove h
  · exact h

/-! ## Traces are not repeated -/

theorem nodup_traced_of_extends {heap : Arena} {owned traced : List Handle}
    {before after : Frame} (h : Extends heap owned traced before after)
    (hNodup : before.traced.toList.Nodup) (hNew : traced.Nodup)
    (hApart : ∀ handle ∈ traced, handle ∉ before.traced) : after.traced.toList.Nodup := by
  obtain ⟨keep, _, _, hTraced⟩ := h
  rw [hTraced, List.nodup_append]
  refine ⟨hNodup.filter keep, hNew, ?_⟩
  intro x hx y hy hxy
  subst hxy
  exact hApart x hy (Array.mem_toList_iff.1 (List.mem_filter.1 hx).1)

end Frame

end RegisterMachine

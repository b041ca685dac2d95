-- The arena against its history. The history lists what the calls of a run have
-- done, without slots, generations or stores; what a handle gives access to is
-- said from the history alone. The laws at the end say that the arena answers
-- as its history says.
import RegisterMachine.Proofs.Lifetimes

namespace RegisterMachine

/-! ## Calls and their history -/

/-- A call of the arena. -/
inductive Arena.Call where
  | allocate (size : UInt16) (mode : TraceMode)
  | release (handle : Handle)
  | clear
  | load (handle : Handle) (index : Int64)
  | loadUnchecked (handle : Handle) (index : Nat)
  | store (handle : Handle) (index : Int64) (value : Value)
  | storeUnchecked (handle : Handle) (index : Nat) (value : Value)
  | setFlag (handle : Handle) (index : Int64) (flagged : Bool)
  | setMode (handle : Handle) (mode : TraceMode)
  | mark (roots : List Handle)
  deriving DecidableEq, Repr

/-- The handle that a call goes through. -/
def Arena.Call.target? : Arena.Call → Option Handle
  | .release handle | .load handle _ | .loadUnchecked handle _ | .store handle _ _
  | .storeUnchecked handle _ _ | .setFlag handle _ _ | .setMode handle _ => some handle
  | .allocate .. | .clear | .mark _ => none

/-- Something that a call has done. -/
inductive Event where
  | allocated (handle : Handle) (size : UInt16)
  | released (handle : Handle)
  | cleared
  | stored (handle : Handle) (index : Nat) (value : Value)
  deriving DecidableEq, Repr

/-- What was done, the latest first. -/
abbrev History := List Event

/-- Carries out a call and gives what it has done. A call that fails has done nothing. -/
def Arena.call (heap : Arena) : Arena.Call → History × Arena
  | .allocate size mode =>
    match heap.allocate size mode with
    | .ok (handle, heap) => ([.allocated handle size], heap)
    | .error _ => ([], heap)
  | .release handle =>
    match heap.release handle with
    | .ok heap => ([.released handle], heap)
    | .error _ => ([], heap)
  | .clear => ([.cleared], heap.clear.2)
  | .load .. | .loadUnchecked .. => ([], heap)
  | .store handle index value =>
    match heap.store handle index value with
    | .ok heap => ([.stored handle index.toInt.toNat value], heap)
    | .error _ => ([], heap)
  | .storeUnchecked handle index value =>
    match heap.storeUnchecked handle index value with
    | .ok heap => ([.stored handle index value], heap)
    | .error _ => ([], heap)
  | .setFlag handle index flagged =>
    match heap.setFlag handle index flagged with
    | .ok heap => ([], heap)
    | .error _ => ([], heap)
  | .setMode handle mode =>
    match heap.setMode handle mode with
    | .ok heap => ([], heap)
    | .error _ => ([], heap)
  | .mark roots => ([], (heap.mark roots).2.2)

def Arena.callNext (state : History × Arena) (call : Arena.Call) : History × Arena :=
  let (done, heap) := state.2.call call
  (done ++ state.1, heap)

/-- Carries out calls one after the other. -/
def Arena.runCalls (state : History × Arena) (calls : List Arena.Call) : History × Arena :=
  calls.foldl Arena.callNext state

/-- All that a call can do. -/
inductive Arena.Does (heap : Arena) : Arena.Call → History → Arena → Prop
  | nothing {call : Arena.Call} : Does heap call [] heap
  | allocate {size : UInt16} {mode : TraceMode} : heap.isFull = false →
      Does heap (.allocate size mode) [.allocated (heap.insert size mode).1 size]
        (heap.insert size mode).2
  | release {handle : Handle} : heap.contains handle = true →
      Does heap (.release handle) [.released handle] (heap.erase handle)
  | clear : Does heap .clear [.cleared] heap.clear.2
  | store {handle : Handle} {index : Int64} {value : Value} :
      Does heap (.store handle index value) [.stored handle index.toInt.toNat value]
        (heap.modify handle (·.write index.toInt.toNat value))
  | storeUnchecked {handle : Handle} {index : Nat} {value : Value} :
      Does heap (.storeUnchecked handle index value) [.stored handle index value]
        (heap.modify handle (·.write index value))
  | setFlag {handle : Handle} {index : Int64} {flagged : Bool} :
      Does heap (.setFlag handle index flagged) []
        (heap.modify handle (·.setFlag index.toInt.toNat flagged))
  | setMode {handle : Handle} {mode : TraceMode} :
      Does heap (.setMode handle mode) [] (heap.modify handle (·.setMode mode))
  | mark {roots : List Handle} : Does heap (.mark roots) [] (heap.mark roots).2.2

theorem Arena.does_call (heap : Arena) (call : Arena.Call) :
    heap.Does call (heap.call call).1 (heap.call call).2 := by
  cases call with
  | allocate size mode =>
    simp only [Arena.call]
    split
    · rename_i hResult
      obtain ⟨hFull, rfl, rfl⟩ := allocate_eq_ok hResult
      exact .allocate hFull
    · exact .nothing
  | release handle =>
    simp only [Arena.call]
    split
    · rename_i hResult
      obtain ⟨hLive, rfl⟩ := release_eq_ok hResult
      exact .release hLive
    · exact .nothing
  | clear => exact .clear
  | load handle index => exact .nothing
  | loadUnchecked handle index => exact .nothing
  | store handle index value =>
    simp only [Arena.call]
    split
    · rename_i hResult
      obtain ⟨_, _, _, rfl⟩ := store_eq_ok hResult
      exact .store
    · exact .nothing
  | storeUnchecked handle index value =>
    simp only [Arena.call]
    split
    · rename_i hResult
      obtain ⟨_, _, _, rfl⟩ := storeUnchecked_eq_ok hResult
      exact .storeUnchecked
    · exact .nothing
  | setFlag handle index flagged =>
    simp only [Arena.call]
    split
    · rename_i hResult
      obtain rfl := setFlag_eq_ok hResult
      exact .setFlag
    · exact .nothing
  | setMode handle mode =>
    simp only [Arena.call]
    split
    · rename_i hResult
      obtain rfl := setMode_eq_ok hResult
      exact .setMode
    · exact .nothing
  | mark roots => exact .mark

/-! ## What a history says -/

namespace History

/-- The handles that were given out, the latest first. -/
def issued : History → List Handle
  | [] => []
  | .allocated handle _ :: past => handle :: issued past
  | _ :: past => issued past

/-- Whether a handle was given out, and neither released nor cleared since. -/
def isLive : History → Handle → Bool
  | [], _ => false
  | .allocated new _ :: past, handle => handle = new || isLive past handle
  | .released old :: past, handle => handle ≠ old && isLive past handle
  | .cleared :: _, _ => false
  | .stored .. :: past, handle => isLive past handle

/-- The size with which a handle was given out. -/
def size? : History → Handle → Option UInt16
  | [], _ => none
  | .allocated new size :: past, handle => if handle = new then some size else size? past handle
  | _ :: past, handle => size? past handle

/-- The last value that was stored through a handle at an index, since the handle
was given out. -/
def lastStored : History → Handle → Nat → Option Value
  | [], _, _ => none
  | .allocated new _ :: past, handle, index =>
    if handle = new then none else lastStored past handle index
  | .stored target position value :: past, handle, index =>
    if handle = target ∧ index = position then some value else lastStored past handle index
  | _ :: past, handle, index => lastStored past handle index

/-- How often a slot was released. Clearing releases what is live. -/
def timesReleased : History → Nat → Nat
  | [], _ => 0
  | .released handle :: past, slot =>
    timesReleased past slot + if handle.index.toNat = slot then 1 else 0
  | .cleared :: past, slot =>
    timesReleased past slot +
      if (issued past).any fun handle => handle.index.toNat = slot && isLive past handle then 1
      else 0
  | _ :: past, slot => timesReleased past slot

theorem mem_issued_of_isLive {history : History} {handle : Handle}
    (h : isLive history handle = true) : handle ∈ issued history := by
  induction history with
  | nil => cases h
  | cons event past ih =>
    cases event with
    | allocated new size =>
      simp only [isLive, Bool.or_eq_true, decide_eq_true_eq] at h
      rcases h with rfl | h
      · exact List.mem_cons_self ..
      · exact List.mem_cons_of_mem _ (ih h)
    | released old =>
      simp only [isLive, Bool.and_eq_true] at h
      exact ih h.2
    | cleared => cases h
    | stored target position value => exact ih h

end History

/-! ## The arena follows its history -/

/-- An array has the size that it was made with, and its slots hold what was last
stored in them. -/
structure History.Shows (history : History) (handle : Handle) (alloc : Allocation) : Prop where
  size : (history.size? handle).map UInt16.toNat = some alloc.limit
  values : ∀ index value, alloc.values[index]? = some value →
    value = (history.lastStored handle index).getD .zero
  written : ∀ index flag, alloc.written[index]? = some flag →
    flag = (history.lastStored handle index).isSome

namespace Arena

structure Follows (heap : Arena) (history : History) : Prop where
  sound : heap.Sound
  live : ∀ handle, heap.contains handle = history.isLive handle
  /-- The generation of a slot counts its releases. -/
  generation : ∀ slot, heap.generationAt slot = UInt32.ofNat (history.timesReleased slot)
  shows : ∀ handle alloc, heap.get? handle = some alloc → history.Shows handle alloc

theorem follows_empty (limit poolLimit : Nat) : Follows { limit, poolLimit } [] := by
  refine ⟨sound_empty limit poolLimit, ?_, ?_, ?_⟩
  · intro handle
    simp [contains, get?, History.isLive]
  · intro slot
    simp [generationAt, stateAt, History.timesReleased]
  · intro handle alloc hGet
    simp [get?] at hGet

variable {heap : Arena} {history : History}

/-- A change of one allocation that the history says. -/
theorem Follows.modify (hf : heap.Follows history) {history' : History} {handle : Handle}
    {change : Allocation → Allocation} (hs : (heap.modify handle change).Sound)
    (hLive : history'.isLive = history.isLive)
    (hTimes : history'.timesReleased = history.timesReleased)
    (hOther : ∀ other alloc, other ≠ handle → history.Shows other alloc →
      history'.Shows other alloc)
    (hChange : ∀ alloc, history.Shows handle alloc → history'.Shows handle (change alloc)) :
    (heap.modify handle change).Follows history' := by
  refine ⟨hs, ?_, ?_, ?_⟩
  · intro other
    rw [contains_modify, hf.live, hLive]
  · intro slot
    rw [generationAt_of_stateAt (stateAt_modify heap handle change slot), hf.generation, hTimes]
  · intro other alloc hGet
    rw [get?_modify] at hGet
    split at hGet
    · rename_i hEq
      subst hEq
      obtain ⟨old, hOld, rfl⟩ := Option.map_eq_some_iff.1 hGet
      exact hChange old (hf.shows other old hOld)
    · rename_i hNe
      exact hOther other alloc hNe (hf.shows other alloc hGet)

theorem Follows.write (hf : heap.Follows history) (handle : Handle) (position : Nat)
    (value : Value) :
    (heap.modify handle (·.write position value)).Follows
      (.stored handle position value :: history) := by
  refine hf.modify (sound_write hf.sound handle position value) rfl rfl ?_ ?_
  · intro other alloc hNe hShows
    refine ⟨hShows.size, ?_, ?_⟩
    · simpa [History.lastStored, hNe] using hShows.values
    · simpa [History.lastStored, hNe] using hShows.written
  · intro alloc hShows
    refine ⟨hShows.size, ?_, ?_⟩
    · intro index entry hEntry
      simp only [Allocation.write, Array.getElem?_setIfInBounds] at hEntry
      by_cases hIndex : position = index
      · rw [if_pos hIndex] at hEntry
        split at hEntry
        · cases hEntry
          simp [History.lastStored, hIndex]
        · cases hEntry
      · rw [if_neg hIndex] at hEntry
        have hNe : index ≠ position := Ne.symm hIndex
        simpa [History.lastStored, hNe] using hShows.values index entry hEntry
    · intro index flag hFlag
      simp only [Allocation.write, Array.getElem?_setIfInBounds] at hFlag
      by_cases hIndex : position = index
      · rw [if_pos hIndex] at hFlag
        split at hFlag
        · cases hFlag
          simp [History.lastStored, hIndex]
        · cases hFlag
      · rw [if_neg hIndex] at hFlag
        have hNe : index ≠ position := Ne.symm hIndex
        simpa [History.lastStored, hNe] using hShows.written index flag hFlag

theorem Follows.setFlag (hf : heap.Follows history) (handle : Handle) (position : Nat)
    (flagged : Bool) : (heap.modify handle (·.setFlag position flagged)).Follows history :=
  hf.modify (sound_setFlag hf.sound handle position flagged) rfl rfl (fun _ _ _ h => h)
    fun _ hShows => ⟨hShows.size, hShows.values, hShows.written⟩

theorem Follows.setMode (hf : heap.Follows history) (handle : Handle) (mode : TraceMode) :
    (heap.modify handle (·.setMode mode)).Follows history :=
  hf.modify (sound_setMode hf.sound handle mode) rfl rfl (fun _ _ _ h => h)
    fun _ hShows => ⟨hShows.size, hShows.values, hShows.written⟩

theorem Follows.mark (hf : heap.Follows history) (roots : List Handle) :
    (heap.mark roots).2.2.Follows history := by
  have hSame := contents_mark heap roots
  refine ⟨sound_mark hf.sound roots, ?_, ?_, ?_⟩
  · intro handle
    rw [contains_of_contents hSame, hf.live]
  · intro slot
    rw [generationAt_of_stateAt (stateAt_of_contents hSame slot), hf.generation]
  · intro handle alloc hGet
    obtain ⟨mark, hOld⟩ := get?_of_contents hSame.symm hGet
    have hShows := hf.shows handle _ hOld
    exact ⟨hShows.size, hShows.values, hShows.written⟩

theorem Follows.insert (hf : heap.Follows history) (hFull : heap.isFull = false)
    (size : UInt16) (mode : TraceMode) :
    (heap.insert size mode).2.Follows
      (.allocated (heap.insert size mode).1 size :: history) := by
  refine ⟨sound_insert hf.sound hFull size mode, ?_, ?_, ?_⟩
  · intro handle
    rw [Bool.eq_iff_iff, contains_insert hf.sound hFull, hf.live]
    simp [History.isLive]
  · intro slot
    rw [generationAt_insert hf.sound hFull, hf.generation]
    rfl
  · intro handle alloc hGet
    rw [get?_insert hf.sound hFull] at hGet
    split at hGet
    · rename_i hNew
      rw [newAllocation_eq hf.sound] at hGet
      cases hGet
      refine ⟨by simp [History.size?, hNew, Allocation.fresh], ?_, ?_⟩
      · intro index value hValue
        obtain ⟨-, rfl⟩ := Array.mem_replicate.1 (Array.mem_of_getElem? hValue)
        simp [History.lastStored, hNew]
      · intro index flag hFlag
        obtain ⟨-, rfl⟩ := Array.mem_replicate.1 (Array.mem_of_getElem? hFlag)
        simp [History.lastStored, hNew]
    · rename_i hOld
      have hShows := hf.shows handle alloc hGet
      refine ⟨by simpa [History.size?, hOld] using hShows.size, ?_, ?_⟩
      · simpa [History.lastStored, hOld] using hShows.values
      · simpa [History.lastStored, hOld] using hShows.written

theorem Follows.erase (hf : heap.Follows history) {handle : Handle}
    (hLive : heap.contains handle = true) :
    (heap.erase handle).Follows (.released handle :: history) := by
  obtain ⟨alloc, hGet⟩ := contains_eq_true.1 hLive
  refine ⟨sound_erase hf.sound handle, ?_, ?_, ?_⟩
  · intro other
    rw [Bool.eq_iff_iff, contains_erase, hf.live]
    simp [History.isLive]
  · intro slot
    have hOld := hf.generation slot
    have hState := contains_iff_stateAt.1 hLive
    unfold generationAt at hOld ⊢
    rw [stateAt_erase hGet]
    by_cases hSlot : handle.index.toNat = slot
    · subst hSlot
      rw [hState] at hOld
      simp only [Option.map_some, Option.getD_some] at hOld
      simp [History.timesReleased, UInt32.ofNat_add, ← hOld]
    · simpa [History.timesReleased, hSlot] using hOld
  · intro other alloc hOther
    rw [get?_erase] at hOther
    split at hOther
    · cases hOther
    · have hShows := hf.shows other alloc hOther
      exact ⟨hShows.size, hShows.values, hShows.written⟩

/-- A slot is occupied when a live handle of the history stands for it. -/
theorem Follows.occupied_iff (hf : heap.Follows history) (slot : Nat) :
    (∃ g, heap.stateAt slot = some (g, true)) ↔
      (history.issued.any fun handle =>
        handle.index.toNat = slot && history.isLive handle) = true := by
  simp only [List.any_eq_true, Bool.and_eq_true, decide_eq_true_eq, ← hf.live]
  constructor
  · rintro ⟨g, hState⟩
    have hlt : slot < 2 ^ 32 := by
      have hSize := stateAt_isSome.1 (Option.isSome_iff_exists.2 ⟨_, hState⟩)
      exact Nat.lt_of_lt_of_le hSize hf.sound.size_le
    have hNat : (UInt32.ofNat slot).toNat = slot := UInt32.toNat_ofNat_of_lt' hlt
    have hLive : heap.contains ⟨UInt32.ofNat slot, g⟩ = true := by
      rw [contains_iff_stateAt, hNat, hState]
    exact ⟨_, History.mem_issued_of_isLive (hf.live _ ▸ hLive), hNat, hLive⟩
  · rintro ⟨handle, _, rfl, hLive⟩
    exact ⟨handle.generation, contains_iff_stateAt.1 hLive⟩

theorem Follows.clear (hf : heap.Follows history) :
    heap.clear.2.Follows (.cleared :: history) := by
  refine ⟨sound_clear hf.sound, ?_, ?_, ?_⟩
  · intro handle
    rw [contains_eq_false.2 (get?_clear heap handle)]
    rfl
  · intro slot
    have hOld := hf.generation slot
    have hOccupied := hf.occupied_iff slot
    unfold generationAt at hOld ⊢
    rw [stateAt_clear, History.timesReleased, UInt32.ofNat_add, ← hOld]
    rcases hState : heap.stateAt slot with _ | ⟨g, _ | _⟩
    · have hNot := mt hOccupied.2 (by simp [hState])
      rw [if_neg hNot]
      rfl
    · have hNot := mt hOccupied.2 (by simp [hState])
      rw [if_neg hNot]
      simp
    · rw [if_pos (hOccupied.1 ⟨g, hState⟩)]
      rfl
  · intro handle alloc hGet
    rw [get?_clear] at hGet
    cases hGet

theorem Follows.call (hf : heap.Follows history) (call : Call) :
    (heap.call call).2.Follows ((heap.call call).1 ++ history) := by
  have hDoes := does_call heap call
  generalize (heap.call call).1 = done at hDoes ⊢
  generalize (heap.call call).2 = heap' at hDoes ⊢
  cases hDoes with
  | nothing => exact hf
  | allocate hFull => exact hf.insert hFull _ _
  | release hLive => exact hf.erase hLive
  | clear => exact hf.clear
  | store => exact hf.write _ _ _
  | storeUnchecked => exact hf.write _ _ _
  | setFlag => exact hf.setFlag _ _ _
  | setMode => exact hf.setMode _ _
  | mark => exact hf.mark _

/-! ## Handles are given out once -/

theorem timesReleased_le (done history : History) (slot : Nat) :
    History.timesReleased history slot ≤ History.timesReleased (done ++ history) slot := by
  induction done with
  | nil => exact Nat.le_refl _
  | cons event done ih =>
    rw [List.cons_append]
    cases event with
    | allocated handle size => exact ih
    | released handle => exact Nat.le_trans ih (Nat.le_add_right _ _)
    | cleared => exact Nat.le_trans ih (Nat.le_add_right _ _)
    | stored handle index value => exact ih

/-- No slot was released so often that its generations start again. -/
def Bounded (history : History) : Prop := ∀ slot, history.timesReleased slot < 2 ^ 32

theorem Bounded.of_append {done history : History} (h : Bounded (done ++ history)) :
    Bounded history :=
  fun slot => Nat.lt_of_le_of_lt (timesReleased_le done history slot) (h slot)

theorem Follows.steady {heap' : Arena} {done : History} (hf : heap.Follows history)
    (hf' : heap'.Follows (done ++ history)) (hBound : Bounded (done ++ history)) :
    Steady heap heap' := by
  intro slot
  have hSize : UInt32.size = 2 ^ 32 := rfl
  have hle := timesReleased_le done history slot
  have hlt := hBound slot
  rw [hf.generation, hf'.generation, UInt32.le_iff_toNat_le,
    UInt32.toNat_ofNat_of_lt' (by omega), UInt32.toNat_ofNat_of_lt' (by omega)]
  exact hle

theorem issued_call (hf : heap.Follows history) {call : Call}
    (hBound : Bounded ((heap.call call).1 ++ history))
    (hIssued : ∀ handle ∈ history.issued, heap.Issued handle) :
    ∀ handle ∈ History.issued ((heap.call call).1 ++ history),
      (heap.call call).2.Issued handle := by
  have hSteady := hf.steady (hf.call call) hBound
  have hDoes := does_call heap call
  generalize (heap.call call).1 = done at hDoes ⊢
  generalize (heap.call call).2 = heap' at hDoes hSteady ⊢
  -- A call that makes no allocation only releases, which keeps what was given out.
  have hKept : Sheds heap heap' → ∀ handle ∈ history.issued, heap'.Issued handle :=
    fun hSheds handle hMem => (hIssued handle hMem).of_sheds hSheds hSteady
  cases hDoes with
  | nothing => exact hIssued
  | allocate hFull =>
    intro handle hMem
    rw [issued_insert hf.sound hFull]
    rcases List.mem_cons.1 hMem with hNew | hOld
    · exact Or.inr hNew
    · exact Or.inl (hIssued handle hOld)
  | release hLive => exact hKept (sheds_erase heap _)
  | clear => exact hKept (sheds_clear heap)
  | store => exact hKept (sheds_of_stateAt (stateAt_modify heap _ _))
  | storeUnchecked => exact hKept (sheds_of_stateAt (stateAt_modify heap _ _))
  | setFlag => exact hKept (sheds_of_stateAt (stateAt_modify heap _ _))
  | setMode => exact hKept (sheds_of_stateAt (stateAt_modify heap _ _))
  | mark => exact hKept (sheds_of_contents (contents_mark heap _))

/-- What every run keeps: the arena follows the history, and the handles of the
history are given out. -/
structure Recorded (state : History × Arena) : Prop where
  follows : state.2.Follows state.1
  issued : Bounded state.1 → ∀ handle ∈ state.1.issued, state.2.Issued handle

theorem recorded_callNext {state : History × Arena} (h : Recorded state) (call : Call) :
    Recorded (callNext state call) := by
  refine ⟨h.follows.call call, ?_⟩
  intro hBound
  exact issued_call h.follows hBound (h.issued hBound.of_append)

theorem recorded_runCalls {state : History × Arena} (h : Recorded state) (calls : List Call) :
    Recorded (runCalls state calls) := by
  induction calls generalizing state with
  | nil => exact h
  | cons call calls ih => exact ih (recorded_callNext h call)

theorem recorded_run (limit poolLimit : Nat) (calls : List Call) :
    Recorded (runCalls ([], { limit, poolLimit }) calls) := by
  apply recorded_runCalls
  refine ⟨follows_empty limit poolLimit, ?_⟩
  intro _ handle hMem
  cases hMem

theorem bounded_of_runCalls {state : History × Arena} {calls : List Call}
    (h : Bounded (runCalls state calls).1) : Bounded state.1 := by
  induction calls generalizing state with
  | nil => exact h
  | cons call calls ih => exact (ih h).of_append

theorem Recorded.new {state : History × Arena} (h : Recorded state) (hBound : Bounded state.1)
    {size : UInt16} {mode : TraceMode} {handle : Handle} {heap' : Arena}
    (hNew : state.2.allocate size mode = .ok (handle, heap')) : handle ∉ state.1.issued := by
  obtain ⟨hFull, rfl, _⟩ := allocate_eq_ok hNew
  intro hMem
  exact not_issued_new h.follows.sound hFull size mode (h.issued hBound _ hMem)

/-- A handle that is dead was not given out again, so it stays dead. -/
theorem dead_callNext {state : History × Arena} (h : Recorded state) {call : Call}
    (hBound : Bounded (callNext state call).1) {handle : Handle}
    (hMem : handle ∈ state.1.issued) (hDead : state.1.isLive handle = false) :
    handle ∈ (callNext state call).1.issued ∧ (callNext state call).1.isLive handle = false := by
  have hBound' : Bounded state.1 := hBound.of_append
  have hDoes := does_call state.2 call
  change handle ∈ History.issued ((state.2.call call).1 ++ state.1) ∧
    History.isLive ((state.2.call call).1 ++ state.1) handle = false
  generalize (state.2.call call).1 = done at hDoes ⊢
  generalize (state.2.call call).2 = heap' at hDoes ⊢
  cases hDoes with
  | @allocate size mode hFull =>
    have hNe : handle ≠ (state.2.insert size mode).1 := by
      rintro rfl
      exact not_issued_new h.follows.sound hFull size mode (h.issued hBound' _ hMem)
    exact ⟨List.mem_cons_of_mem _ hMem, by simp [History.isLive, hNe, hDead]⟩
  | release => exact ⟨hMem, by simp [History.isLive, hDead]⟩
  | clear => exact ⟨hMem, rfl⟩
  | _ => exact ⟨hMem, hDead⟩

theorem dead_runCalls {state : History × Arena} (h : Recorded state) {calls : List Call}
    (hBound : Bounded (runCalls state calls).1) {handle : Handle}
    (hMem : handle ∈ state.1.issued) (hDead : state.1.isLive handle = false) :
    (runCalls state calls).1.isLive handle = false := by
  induction calls generalizing state with
  | nil => exact hDead
  | cons call calls ih =>
    have hNext : Bounded (callNext state call).1 := bounded_of_runCalls hBound
    obtain ⟨hMem', hDead'⟩ := dead_callNext h hNext hMem hDead
    exact ih (recorded_callNext h call) hBound hMem' hDead'

/-! ## What a handle gives access to -/

/-- Looking, changing and releasing through the handle all work. -/
structure Accepts (heap : Arena) (handle : Handle) : Prop where
  get : ∃ alloc, heap.get handle = .ok alloc
  setMode : ∀ mode, ∃ heap', heap.setMode handle mode = .ok heap'
  release : ∃ heap', heap.release handle = .ok heap'

/-- Every access through the handle is an internal fault. -/
structure Rejects (heap : Arena) (handle : Handle) : Prop where
  get : heap.get handle = .error .internal
  load : ∀ index, heap.load handle index = .error .internal
  loadUnchecked : ∀ index, heap.loadUnchecked handle index = .error .internal
  store : ∀ index value, heap.store handle index value = .error .internal
  storeUnchecked : ∀ index value, heap.storeUnchecked handle index value = .error .internal
  setFlag : ∀ index flagged, heap.setFlag handle index flagged = .error .internal
  setMode : ∀ mode, heap.setMode handle mode = .error .internal
  release : heap.release handle = .error .internal

theorem accepts_of_contains {handle : Handle} (h : heap.contains handle = true) :
    heap.Accepts handle := by
  obtain ⟨alloc, hGet⟩ := contains_eq_true.1 h
  refine ⟨⟨alloc, get_of_get? hGet⟩, ?_, ?_⟩
  · intro mode
    unfold setMode
    rw [if_pos h]
    exact ⟨_, rfl⟩
  · unfold release
    rw [if_pos h]
    exact ⟨_, rfl⟩

theorem rejects_of_not_contains {handle : Handle} (h : heap.contains handle = false) :
    heap.Rejects handle := by
  have hGet := get_of_stale (contains_eq_false.1 h)
  refine ⟨hGet, ?_, ?_, ?_, ?_, ?_, ?_, ?_⟩
  · intro index
    unfold load
    rw [hGet]
    rfl
  · intro index
    unfold loadUnchecked
    rw [hGet]
    rfl
  · intro index value
    unfold store position
    rw [hGet]
    rfl
  · intro index value
    unfold storeUnchecked positionUnchecked
    rw [hGet]
    rfl
  · intro index flagged
    unfold setFlag position
    rw [hGet]
    rfl
  · intro mode
    unfold setMode
    rw [h]
    rfl
  · unfold release
    rw [h]
    rfl

/-- A checked load below the limit gives what was last stored. -/
theorem load_of_shows {handle : Handle} {alloc : Allocation}
    (hGet : heap.get? handle = some alloc) (hUniform : alloc.Uniform)
    (hShows : history.Shows handle alloc) {index : Int64} (hLow : 0 ≤ index.toInt)
    (hHigh : index.toInt < alloc.limit) :
    heap.load handle index =
      match history.lastStored handle index.toInt.toNat with
      | some value => .ok value
      | none => .error .uninitializedRead := by
  have hPosition : alloc.position index = .ok index.toInt.toNat := by
    unfold Allocation.position
    rw [if_pos ⟨hLow, hHigh⟩]
  have hLimit := hUniform.limit_le
  have hValues : index.toInt.toNat < alloc.values.size := by
    unfold Allocation.capacity at hLimit
    omega
  have hWritten : index.toInt.toNat < alloc.written.size := by
    rw [hUniform.written]
    omega
  have hValue := hShows.values _ _ (Array.getElem?_eq_getElem hValues)
  have hFlag := hShows.written _ _ (Array.getElem?_eq_getElem hWritten)
  unfold load Allocation.load
  rw [get_of_get? hGet]
  simp only [bind, Except.bind, hPosition, Array.getElem?_eq_getElem hValues,
    Array.getElem?_eq_getElem hWritten]
  rw [hValue, hFlag]
  cases history.lastStored handle index.toInt.toNat <;> rfl

theorem loadUnchecked_of_shows {handle : Handle} {alloc : Allocation}
    (hGet : heap.get? handle = some alloc) (hShows : history.Shows handle alloc) {index : Nat}
    (hIndex : index < alloc.capacity) :
    heap.loadUnchecked handle index =
      .ok ((history.lastStored handle index).getD .zero) := by
  have hValue := hShows.values index _ (Array.getElem?_eq_getElem hIndex)
  unfold loadUnchecked Allocation.loadUnchecked
  rw [get_of_get? hGet]
  simp only [bind, Except.bind, Array.getElem?_eq_getElem hIndex]
  rw [hValue]

/-- A call through another handle leaves an allocation alone, but for its mark. -/
theorem get?_call_of_other (hs : heap.Sound) {handle : Handle} {alloc : Allocation}
    (hGet : heap.get? handle = some alloc) {call : Call} (hClear : call ≠ .clear)
    (hOther : call.target? ≠ some handle) :
    ∃ mark, (heap.call call).2.get? handle = some (alloc.setMark mark) := by
  have hDoes := does_call heap call
  generalize (heap.call call).1 = done at hDoes
  generalize (heap.call call).2 = heap' at hDoes ⊢
  have hNe : ∀ {target : Handle}, call.target? = some target → handle ≠ target :=
    fun hTarget h => hOther (h ▸ hTarget)
  -- Without a mark of its own, the allocation is the same.
  have hSame : heap'.get? handle = some alloc →
      ∃ mark, heap'.get? handle = some (alloc.setMark mark) := fun h => ⟨alloc.mark, h⟩
  cases hDoes with
  | nothing => exact hSame hGet
  | @allocate size mode hFull =>
    have hOld : handle ≠ (heap.insert size mode).1 := by
      rintro rfl
      have hNew := not_contains_new hs hFull size mode
      rw [contains_eq_false.1 hNew] at hGet
      cases hGet
    exact hSame (by rw [get?_insert hs hFull, if_neg hOld, hGet])
  | release => exact hSame (by rw [get?_erase, if_neg (hNe rfl), hGet])
  | clear => exact absurd rfl hClear
  | store => exact hSame (by rw [get?_modify_of_ne (hNe rfl), hGet])
  | storeUnchecked => exact hSame (by rw [get?_modify_of_ne (hNe rfl), hGet])
  | setFlag => exact hSame (by rw [get?_modify_of_ne (hNe rfl), hGet])
  | setMode => exact hSame (by rw [get?_modify_of_ne (hNe rfl), hGet])
  | mark => exact get?_of_contents (contents_mark heap _) hGet

/-- What a handle reads does not depend on marks. -/
theorem load_of_setMark {heap' : Arena} {handle : Handle} {alloc : Allocation} {mark : UInt32}
    (hGet : heap.get? handle = some alloc)
    (hGet' : heap'.get? handle = some (alloc.setMark mark)) :
    (∀ index, heap'.load handle index = heap.load handle index) ∧
      ∀ index, heap'.loadUnchecked handle index = heap.loadUnchecked handle index := by
  unfold load loadUnchecked
  rw [get_of_get? hGet, get_of_get? hGet']
  exact ⟨fun _ => rfl, fun _ => rfl⟩

/-- The array of a new allocation, which may be one that was released before. -/
theorem get_allocate (hs : heap.Sound) {size : UInt16} {mode : TraceMode} {handle : Handle}
    {heap' : Arena} (h : heap.allocate size mode = .ok (handle, heap')) :
    ∃ capacity, size.toNat ≤ capacity ∧
      heap'.get handle = .ok (.fresh capacity size.toNat mode) := by
  unfold allocate at h
  by_cases hFull : heap.isFull = true
  · rw [if_pos hFull] at h
    cases h
  · rw [if_neg hFull, Except.ok.injEq] at h
    have hGet := get?_insert hs (by simpa using hFull) size mode handle
    rw [h, if_pos rfl, newAllocation_eq hs] at hGet
    exact ⟨_, le_suppliedCapacity heap.pool size.toNat, get_of_get? hGet⟩

/-! ## The law -/

/-- The arena answers as its history says. A new handle was never given out before, and its
array is as a new one, whatever the store that it was given was used for. A handle is accepted
while the history says that it is live, and rejected otherwise; once it is dead it is rejected
for ever. What a live handle reads is what was last stored through it, and calls through other
handles do not change it. -/
theorem the_arena_answers_as_its_history_says (limit poolLimit : Nat) (calls : List Call)
    (history : History) (heap : Arena)
    (hRun : runCalls ([], { limit, poolLimit }) calls = (history, heap))
    (hReleases : ∀ slot, history.timesReleased slot < 2 ^ 32) :
    (∀ size mode handle heap', heap.allocate size mode = .ok (handle, heap') →
      handle ∉ history.issued ∧ ∃ capacity, size.toNat ≤ capacity ∧
        heap'.get handle = .ok (.fresh capacity size.toNat mode)) ∧
    (∀ handle, (history.isLive handle = true → heap.Accepts handle) ∧
      (history.isLive handle = false → heap.Rejects handle)) ∧
    (∀ handle ∈ history.issued, history.isLive handle = false → ∀ later,
      (∀ slot, (runCalls (history, heap) later).1.timesReleased slot < 2 ^ 32) →
      (runCalls (history, heap) later).2.Rejects handle) ∧
    (∀ handle, history.isLive handle = true → ∃ alloc size,
      heap.get handle = .ok alloc ∧ history.size? handle = some size ∧
      alloc.limit = size.toNat ∧ size.toNat ≤ alloc.capacity ∧
      (∀ index : Int64, 0 ≤ index.toInt → index.toInt < size.toNat →
        heap.load handle index =
          match history.lastStored handle index.toInt.toNat with
          | some value => .ok value
          | none => .error .uninitializedRead) ∧
      (∀ index < alloc.capacity, heap.loadUnchecked handle index =
        .ok ((history.lastStored handle index).getD .zero))) ∧
    (∀ handle call, history.isLive handle = true → call ≠ .clear →
      call.target? ≠ some handle →
      (∀ index, (heap.call call).2.load handle index = heap.load handle index) ∧
      ∀ index, (heap.call call).2.loadUnchecked handle index =
        heap.loadUnchecked handle index) := by
  have hRecorded : Recorded (history, heap) := hRun ▸ recorded_run limit poolLimit calls
  have hf : heap.Follows history := hRecorded.follows
  have hGet : ∀ {handle}, history.isLive handle = true → ∃ alloc, heap.get? handle = some alloc :=
    fun hLive => contains_eq_true.1 ((hf.live _).trans hLive)
  refine ⟨?_, ?_, ?_, ?_, ?_⟩
  · intro size mode handle heap' hNew
    exact ⟨hRecorded.new hReleases hNew, get_allocate hf.sound hNew⟩
  · intro handle
    exact ⟨fun hLive => accepts_of_contains ((hf.live handle).trans hLive),
      fun hDead => rejects_of_not_contains ((hf.live handle).trans hDead)⟩
  · intro handle hMem hDead later hLater
    have hLaterDead := dead_runCalls hRecorded hLater hMem hDead
    have hLaterFollows := (recorded_runCalls hRecorded later).follows
    exact rejects_of_not_contains ((hLaterFollows.live handle).trans hLaterDead)
  · intro handle hLive
    obtain ⟨alloc, hAlloc⟩ := hGet hLive
    have hShows := hf.shows handle alloc hAlloc
    have hUniform := hf.sound.uniform handle alloc hAlloc
    obtain ⟨size, hSize, hEq⟩ := Option.map_eq_some_iff.1 hShows.size
    refine ⟨alloc, size, get_of_get? hAlloc, hSize, hEq.symm, hEq ▸ hUniform.limit_le, ?_, ?_⟩
    · intro index hLow hHigh
      exact load_of_shows hAlloc hUniform hShows hLow (hEq ▸ hHigh)
    · intro index hIndex
      exact loadUnchecked_of_shows hAlloc hShows hIndex
  · intro handle call hLive hClear hOther
    obtain ⟨alloc, hAlloc⟩ := hGet hLive
    obtain ⟨mark, hMark⟩ := get?_call_of_other hf.sound hAlloc hClear hOther
    exact load_of_setMark hAlloc hMark

/-- A slot and its store are used a second time: the old handle is rejected, and the new
one sees nothing of the old values. -/
theorem a_reused_slot_shows_nothing_old :
    let calls : List Call :=
      [.allocate 2 .always, .store ⟨0, 0⟩ 0 (.long 5), .storeUnchecked ⟨0, 0⟩ 1 (.long 6),
       .release ⟨0, 0⟩, .allocate 1 .never]
    let state := runCalls ([], { limit := 4, poolLimit := 2 }) calls
    (∀ slot, state.1.timesReleased slot < 2 ^ 32) ∧ state.1.isLive ⟨0, 1⟩ = true ∧
      state.2.Rejects ⟨0, 0⟩ ∧
      state.2.load ⟨0, 1⟩ 0 = .error .uninitializedRead ∧
      state.2.loadUnchecked ⟨0, 1⟩ 1 = .ok .zero := by
  intro calls state
  have hHistory : state.1 =
      [.allocated ⟨0, 1⟩ 1, .released ⟨0, 0⟩, .stored ⟨0, 0⟩ 1 (.long 6),
       .stored ⟨0, 0⟩ 0 (.long 5), .allocated ⟨0, 0⟩ 2] := by decide +kernel
  have hBound : ∀ slot, state.1.timesReleased slot < 2 ^ 32 := by
    intro slot
    rw [hHistory]
    simp only [History.timesReleased]
    split <;> omega
  have hLive : state.1.isLive ⟨0, 1⟩ = true := by
    rw [hHistory]
    decide
  obtain ⟨_, hAccess, _, hReads, _⟩ :=
    the_arena_answers_as_its_history_says 4 2 calls state.1 state.2 rfl hBound
  obtain ⟨alloc, size, hGet, hSize, _, _, hLoad, hUnchecked⟩ := hReads ⟨0, 1⟩ hLive
  have hAlloc : state.2.get ⟨0, 1⟩ = .ok (.fresh 2 1 .never) := by decide +kernel
  refine ⟨hBound, hLive, (hAccess ⟨0, 0⟩).2 (by rw [hHistory]; decide), ?_, ?_⟩
  · have hSize' : size = 1 := by
      rw [hHistory] at hSize
      exact (Option.some.inj hSize).symm
    rw [hLoad 0 (by decide) (by rw [hSize']; decide), hHistory]
    rfl
  · rw [hGet, Except.ok.injEq] at hAlloc
    rw [hUnchecked 1 (by rw [hAlloc]; decide), hHistory]
    rfl

end Arena

end RegisterMachine

-- Machines in use. A program and the host change a machine step after step; all along,
-- every live allocation has one owner among the collector frames.
import RegisterMachine.Proofs.MachineSteps
import RegisterMachine.Proofs.Ownership

namespace RegisterMachine

/-! ## What can happen to a machine -/

namespace Machine

variable {σ : Type}

/-- One thing that can happen to a machine: an instruction of some stream, the end of a
run, or a call of the host that goes well. -/
inductive Becomes (machine : Machine σ) : Machine σ → Prop
  /-- A run of a stream begins. -/
  | start : Becomes machine machine.start
  | next {code : Array Instruction} {after : Machine σ}
      (h : machine.step code = .next after) : Becomes machine after
  | finish {code : Array Instruction} {last : Machine σ}
      (h : machine.step code = .finished last) :
      Becomes machine (conclude (.finished last)).machine
  | fault {code : Array Instruction} {fault : Fault} {warning : Option String}
      {last : Machine σ} (h : machine.step code = .faulted fault warning last) :
      Becomes machine (conclude (.faulted fault warning last)).machine
  | allocate {size : UInt16} {mode : TraceMode} {handle : Handle} {after : Machine σ}
      (h : machine.allocate size mode = .ok (handle, after)) : Becomes machine after
  | supertrace {handle : Handle} {count : Nat} {after : Machine σ}
      (h : machine.supertrace handle = .ok (count, after)) : Becomes machine after
  | detrace {handle : Handle} {count : Nat} {after : Machine σ}
      (h : machine.detrace handle = .ok (count, after)) : Becomes machine after
  | load {program : Program} {after : Machine σ}
      (h : machine.load program = .ok after) : Becomes machine after
  | setRegister {mode : Addressing} {index : UInt16} {value : Value} {after : Machine σ}
      (h : machine.setRegister mode index value = .ok after) : Becomes machine after
  | reset : Becomes machine machine.reset
  | edit {heap : Arena} (h : machine.memory.heap.Edited heap) :
      Becomes machine (machine.withHeap heap)
  | changeTable {α : Type} {change : ForeignTable σ → α × ForeignTable σ} :
      Becomes machine (machine.changeTable change).2
  /-- The host changes its own state, or asks the machine to stop, or takes this back. -/
  | signal {host : σ} {haltRequested : Bool} :
      Becomes machine { machine with host, haltRequested }

/-- One thing that can happen to a machine whose host may also fill the heap behind the back
of the collector. -/
inductive Undergoes (machine : Machine σ) : Machine σ → Prop
  | becomes {after : Machine σ} (h : machine.Becomes after) : Undergoes machine after
  | allocateUnowned {size : UInt16} {mode : TraceMode} {handle : Handle} {heap : Arena}
      (h : machine.memory.heap.allocate size mode = .ok (handle, heap)) :
      Undergoes machine (machine.withHeap heap)

/-! ## What it does to the memory -/

open Memory

variable {machine : Machine σ}

/-- Before a fault the memory has changed by requests of a host function only. -/
theorem served_of_faulted (hs : machine.memory.Sound) {code : Array Instruction} {fault : Fault}
    {warning : Option String} {last : Machine σ}
    (h : machine.step code = .faulted fault warning last) :
    Relation.ReflTransGen Serves machine.memory last.memory := by
  rcases machine.step_cases code with ⟨_, hStep⟩ | ⟨_, _, effect, _, _, _, _, hStep⟩
  · rw [hStep] at h
    cases h
    exact .refl
  · rw [hStep] at h
    cases effect with
    | foreign id input address =>
      have hServed := served_callForeign hs id input address
      rw [show machine.callForeign id input address = .faulted fault warning last from h] at hServed
      exact hServed
    | _ => cases h

theorem moves_of_becomes (hs : machine.memory.Sound) {after : Machine σ}
    (h : machine.Becomes after) : Moves (fun _ => True) machine.memory after.memory := by
  have hSame : Moves (fun _ => True) machine.memory machine.memory := (turns_same hs.heap).moves
  cases h with
  | start | changeTable | signal => exact hSame
  | @next code _ hStep =>
    have hMoves := (moves_step hs code).weaken fun _ _ => trivial
    rw [hStep] at hMoves
    exact hMoves
  | @finish code _ hStep =>
    have hMoves := (moves_step hs code).weaken fun _ _ => trivial
    rw [hStep] at hMoves
    exact hMoves
  | fault hStep => exact ⟨_, served_of_faulted hs hStep, .unwind⟩
  | allocate hAllocate =>
    obtain ⟨⟨handle, memory⟩, hMemory, hAfter⟩ := Arena.bind_eq_ok.1 hAllocate
    cases hAfter
    exact (turns_allocate hMemory).moves
  | supertrace hTrace =>
    obtain ⟨⟨count, memory⟩, hMemory, hAfter⟩ := Arena.bind_eq_ok.1 hTrace
    cases hAfter
    exact (turns_supertrace hs.heap hMemory).moves
  | detrace hTrace =>
    obtain ⟨⟨count, memory⟩, hMemory, hAfter⟩ := Arena.bind_eq_ok.1 hTrace
    cases hAfter
    exact (turns_detrace hs.heap hMemory).moves
  | load hLoad =>
    unfold load at hLoad
    split at hLoad
    · cases hLoad
    · cases hLoad
      exact hSame
  | setRegister hSet =>
    obtain ⟨address, _, hAfter⟩ := Arena.bind_eq_ok.1 hSet
    cases hAfter
    exact hSame
  | reset => exact Turns.reset.moves
  | edit hEdited => exact (turns_edited hs.heap hEdited).moves

theorem sound_of_undergoes (hs : machine.memory.Sound) {after : Machine σ}
    (h : machine.Undergoes after) : after.memory.Sound := by
  cases h with
  | becomes hBecomes => exact (moves_of_becomes hs hBecomes).sound hs
  | allocateUnowned hAllocate =>
    obtain ⟨hFull, -, rfl⟩ := Arena.allocate_eq_ok hAllocate
    exact ⟨Arena.sound_insert hs.heap hFull _ _, hs.traced⟩

theorem sound_of_reached {first machine : Machine σ} (hs : first.memory.Sound)
    (h : Relation.ReflTransGen Undergoes first machine) : machine.memory.Sound := by
  induction h with
  | refl => exact hs
  | tail _ hStep ih => exact sound_of_undergoes ih hStep

/-- What `make` makes. -/
def fresh (config : Config) (host : σ) : Machine σ where
  config := config
  ip := 0
  registers :=
    { cells := Array.replicate config.stackSize .zero
      globals := config.globalCount
      base := config.globalCount }
  calls := #[]
  memory := .make config.heapLimit config.poolLimit config.frameLimit
  foreign := {}
  host := host
  haltRequested := false
  lastHalt := none

theorem make_eq_ok {config : Config} {host : σ} {first : Machine σ} :
    make config host = .ok first ↔
      (config.defect? = none ∧ config.globalCount ≤ config.stackSize ∧
        config.stackSize ≤ Registers.maxSize) ∧ first = fresh config host := by
  unfold make Registers.make
  rcases config.defect? with _ | defect
  · by_cases hGlobals : config.stackSize < config.globalCount
    · simp [hGlobals, bind, Except.bind]
    · by_cases hSize : Registers.maxSize < config.stackSize
      · simp [hGlobals, hSize, bind, Except.bind]
      · have hFits : config.globalCount ≤ config.stackSize ∧
            config.stackSize ≤ Registers.maxSize := by omega
        simp [hGlobals, hSize, hFits, bind, Except.bind, pure, Except.pure, fresh, eq_comm]
  · simp [throw, throwThe, MonadExceptOf.throw, bind, Except.bind]

theorem memory_make {config : Config} {host : σ} {first : Machine σ}
    (h : make config host = .ok first) :
    first.memory = .make config.heapLimit config.poolLimit config.frameLimit := by
  rw [(make_eq_ok.1 h).2]
  rfl

/-! ## The law -/

theorem isChain_memory {first : Machine σ} {later : List (Machine σ)} (hs : first.memory.Sound)
    (h : (first :: later).IsChain Becomes) :
    (first.memory :: later.map Machine.memory).IsChain (Moves fun _ => True) := by
  induction later generalizing first with
  | nil => exact List.isChain_singleton _
  | cons next later ih =>
    rw [List.isChain_cons_cons] at h
    have hMoves := moves_of_becomes hs h.1
    rw [List.map_cons, List.isChain_cons_cons]
    exact ⟨hMoves, ih (hMoves.sound hs) h.2⟩

/-- Whatever happens to a machine, as long as no slot is released `2 ^ 32` times: every live
allocation stands in the list of one frame, once, and no frame has a trace twice. -/
theorem every_live_allocation_has_one_owner (config : Config) (host : σ) (first : Machine σ)
    (later : List (Machine σ)) (hMake : make config host = .ok first)
    (hLater : (first :: later).IsChain Becomes)
    (hReleases : ∀ slot,
      Arena.releases ((first :: later).map fun machine => machine.memory.heap) slot < 2 ^ 32) :
    ∀ machine ∈ first :: later,
      (∀ handle, machine.memory.heap.contains handle = true →
        ∃ below frame above, machine.memory.collector.stack = below ++ frame :: above ∧
          frame.owned.toList.count handle = 1 ∧
          ∀ other ∈ below ++ above, handle ∉ other.owned) ∧
      ∀ frame ∈ machine.memory.collector.stack, frame.traced.toList.Nodup := by
  have hMemory := memory_make hMake
  have hs : first.memory.Sound := hMemory ▸ sound_make _ _ _
  have hOwned : first.memory.Owned := hMemory ▸ owned_make _ _ _
  have hEmpty : ∀ slot, first.memory.heap.generationAt slot = 0 :=
    hMemory ▸ generationAt_make _ _ _
  have hHeaps : (first.memory :: later.map Machine.memory).map Memory.heap =
      (first :: later).map fun machine => machine.memory.heap := by simp
  have hAlong := sound_and_owned_along hs hOwned hEmpty (isChain_memory hs hLater)
    (hHeaps ▸ hReleases)
  intro machine hMachine
  obtain ⟨hSound, hOne⟩ := hAlong machine.memory (List.mem_map_of_mem hMachine)
  exact ⟨fun handle hLive => Frame.one_owner (hOne.once handle hLive), hSound.traced⟩

/-- A machine of two registers, to look at. -/
def small : Machine Unit where
  config := { stackSize := 2, globalCount := 1, frameLimit := 2, heapLimit := 4, poolLimit := 1 }
  ip := 0
  registers := { cells := #[.zero, .zero], globals := 1, base := 1 }
  calls := #[]
  memory := .make 4 1 2
  foreign := {}
  host := ()
  haltRequested := false
  lastHalt := none

theorem make_small : make small.config () = .ok small := rfl

/-- The host makes an allocation, a program opens a frame, the host makes another one, and
the program runs past its end. Before the fault, the second allocation has one owner. -/
theorem two_frames_own_one_allocation_each :
    ∃ later : List (Machine Unit), (small :: later).IsChain Becomes ∧
      (∀ slot, Arena.releases ((small :: later).map fun machine => machine.memory.heap) slot
        < 2 ^ 32) ∧
      ∃ machine ∈ later, machine.memory.heap.contains ⟨1, 0⟩ = true ∧
        ∃ below frame above, machine.memory.collector.stack = below ++ frame :: above ∧
          frame.owned.toList.count ⟨1, 0⟩ = 1 ∧
          ∀ other ∈ below ++ above, ⟨1, 0⟩ ∉ other.owned := by
  let code : Array Instruction := #[⟨.make .gcNewFrame 0, 0, 0, 0⟩]
  let started : Machine Unit := { small with memory := (small.memory.insert 1 .always).2 }
  let opened := (started.changeCollector fun _ collector => collector.push).advance
  let filled : Machine Unit := { opened with memory := (opened.memory.insert 1 .always).2 }
  let stopped := (conclude (.faulted .internal none filled)).machine
  have hFirst : small.allocate 1 .always = .ok (_, started) := rfl
  have hPlan : started.plan ⟨.make .gcNewFrame 0, 0, 0, 0⟩ = .ok .openFrame := by decide +kernel
  have hOpen : started.step code = .next opened := step_of_plan rfl rfl hPlan
  have hSecond : opened.allocate 1 .always = .ok (_, filled) := rfl
  have hFault : filled.step code = .faulted .internal none filled := rfl
  have hChain : [small, started, opened, filled, stopped].IsChain Becomes := by
    simp only [List.isChain_cons_cons, List.isChain_singleton, and_true]
    exact ⟨.allocate hFirst, .next hOpen, .allocate hSecond, .fault hFault⟩
  have hReleases : ∀ slot, Arena.releases ([small, started, opened, filled, stopped].map
      fun machine => machine.memory.heap) slot < 2 ^ 32 := by
    intro slot
    refine Nat.lt_of_le_of_lt (Arena.releases_le_length _ slot) ?_
    rw [List.length_map]
    decide
  have hLive : filled.memory.heap.contains ⟨1, 0⟩ = true := by decide +kernel
  have hOne := every_live_allocation_has_one_owner _ () small _ make_small hChain hReleases filled
    (by simp)
  exact ⟨_, hChain, hReleases, filled, by simp, hLive, hOne.1 ⟨1, 0⟩ hLive⟩

end Machine

end RegisterMachine

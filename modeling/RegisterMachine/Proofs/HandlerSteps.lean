-- The handlers do what the plans say. A handler acts before it knows that it will come to its
-- end, so it could leave an instruction half done. It does not: its operands have been located,
-- so that they can be written, and in a machine that is within its bounds each action comes to
-- its end or changes nothing. So a round of the loop is a step.
import RegisterMachine.Machine.Handlers
import RegisterMachine.Proofs.ArenaCapacity
import RegisterMachine.Proofs.FrameAttempts
import RegisterMachine.Proofs.MachineBounds
import RegisterMachine.Proofs.Opcodes

namespace RegisterMachine

variable {σ : Type}

/-! ## Allocating and releasing -/

/-- As long as there are numbers for the slots, an allocation that fails has not touched
the pool. -/
theorem Arena.tryAllocate_eq {heap : Arena} (hs : heap.Sound) (hCounted : heap.Counted)
    (hLimit : heap.limit ≤ 2 ^ 32) (size : UInt16) (mode : TraceMode) :
    tryAllocate size mode heap =
      if heap.isFull then .error .memory heap
      else .ok (heap.insert size mode).1 (heap.insert size mode).2 := by
  have hRoom := isFull_eq_false_iff hs hCounted hLimit
  by_cases hFull : heap.isFull = true
  · have hLive : heap.limit ≤ heap.live := by
      rw [hFull] at hRoom
      exact Nat.le_of_not_lt fun hlt => Bool.noConfusion (hRoom.2 hlt)
    rw [if_pos hFull]
    simp only [tryAllocate, bind, EStateM.bind, Attempt.getThe_eq, hLive,
      if_true]
    rfl
  · have hEmpty : heap.isFull = false := by simpa using hFull
    have hLive := hRoom.1 hEmpty
    have hSlots : ¬ (heap.vacant.isEmpty = true ∧ UInt32.size ≤ heap.slots.size) := by
      rintro ⟨hVacant, hSize⟩
      simp [isFull, hVacant, hSize] at hEmpty
    rw [if_neg hFull]
    simp only [tryAllocate, bind, EStateM.bind, Attempt.getThe_eq,
      Nat.not_le.2 hLive, if_false, hSlots]
    rfl

namespace Memory

variable {memory : Memory}

theorem tryAllocate_eq (hs : memory.Sound) (hCounted : memory.heap.Counted)
    (hLimit : memory.heap.limit ≤ 2 ^ 32) (size : UInt16) (mode : TraceMode) :
    tryAllocate size mode memory =
      if memory.heap.isFull then .error .memory memory
      else .ok (memory.insert size mode).1 (memory.insert size mode).2 := by
  have hHeap := Arena.tryAllocate_eq hs.heap hCounted hLimit size mode
  simp only [tryAllocate, onHeap, Attempt.within, bind, EStateM.bind, hHeap]
  by_cases hFull : memory.heap.isFull = true
  · simp only [hFull, if_true]
  · simp only [hFull]
    rfl

theorem tryFree_of_dead {handle : Handle} (h : memory.heap.contains handle = false) :
    tryFree handle memory = .error .internal memory := by
  have hRelease : memory.heap.release handle = .error .internal := if_neg (by simp [h])
  simp only [tryFree, onHeap, Attempt.within, Arena.tryRelease, Attempt.alter, bind, EStateM.bind,
    hRelease]

theorem tryClean_of_root (h : memory.collector.frames.isEmpty = true) :
    memory.tryClean = .error .internal memory := by
  have hBack : memory.collector.frames.back? = none := by simpa using h
  simp only [tryClean, bind, EStateM.bind, Attempt.getThe_eq, hBack]
  rfl

end Memory

/-! ## Handlers that follow a plan -/

/-- What is left of a turn when its handler has returned: after a fault, the machine still
stands behind the instruction. -/
def Turn.outcome (records : List Log.Record) :
    Turn σ → EStateM.Result Fault (Engine σ) Unit
  | .next machine => .ok () { machine, records }
  | .finished machine => .ok () { machine, halted := true, records }
  | .faulted fault none machine => .error fault { machine := machine.advance, records }
  | .faulted fault (some warning) machine =>
    .error fault { machine := machine.advance, records := records ++ [Log.warn warning] }

/-- Carries out a plan that may have a fault. -/
def Machine.carryOut (machine : Machine σ) : Except Fault Effect → Turn σ
  | .ok effect => machine.commit effect
  | .error fault => .faulted fault none machine

namespace Handler

/-- Called when `machine` has moved on to the next instruction, the handler does what the
plan says, and nothing else. -/
def Follows (machine : Machine σ) (handler : Handler σ Unit) (plan : Except Fault Effect) :
    Prop :=
  ∀ records, handler { machine := machine.advance, records } =
    (machine.carryOut plan).outcome records

variable {machine : Machine σ}

theorem follows_throw (fault : Fault) : Follows machine (throw fault) (.error fault) :=
  fun _ => rfl

theorem follows_skip : Follows machine (pure ()) (.ok .skip) := fun _ => rfl

theorem follows_goTo (target : Nat) : Follows machine (goTo target) (.ok (.jump target)) :=
  fun _ => rfl

/-- What both find in the machine, they both go on with. -/
theorem follows_look {α : Type} {read : Machine σ → Except Fault α} {next : α → Handler σ Unit}
    {plan : α → Except Fault Effect}
    (h : ∀ value, read machine.advance = .ok value → Follows machine (next value) (plan value)) :
    Follows machine (look read >>= next) (read machine.advance >>= plan) := by
  intro records
  simp only [look, Attempt.look, bind, EStateM.bind, Except.bind]
  rcases hRead : read machine.advance with fault | value
  · rfl
  · exact h value hRead records

/-- A register operand that is always relative is also relative for the plan. -/
theorem follows_loc {ins : Instruction} {slot : Nat} {next : Nat → Handler σ Unit}
    {plan : Nat → Except Fault Effect} (hMode : ins.opcode.mode slot = .relative)
    (h : ∀ address, address < machine.registers.size →
      Follows machine (next address) (plan address)) :
    Follows machine (loc ins slot >>= next) (machine.locate ins slot >>= plan) := by
  have hLocate : machine.locate ins slot =
      machine.advance.registers.locate .relative (ins.operand slot) := by
    rw [← hMode]
    rfl
  rw [hLocate]
  exact follows_look fun address hAddress => h address (Registers.locate_lt hAddress)

/-- A register operand is located, and then it names a register. -/
theorem follows_reg {ins : Instruction} {slot : Nat} {next : Nat → Handler σ Unit}
    {plan : Nat → Except Fault Effect}
    (h : ∀ address, address < machine.registers.size →
      Follows machine (next address) (plan address)) :
    Follows machine (reg ins slot >>= next) (machine.locate ins slot >>= plan) :=
  follows_look fun address hAddress => h address (Machine.locate_lt hAddress)

/-- The turn of a change that is made in one piece or not at all. -/
def changed (machine : Machine σ) : Except Fault (Machine σ) → Turn σ
  | .ok after => .next after
  | .error fault => .faulted fault none machine

theorem follows_alter {change : Machine σ → Except Fault (Machine σ)}
    {plan : Except Fault Effect}
    (h : machine.carryOut plan = changed machine (change machine.advance)) :
    Follows machine (alter change) plan := by
  intro records
  rw [h]
  simp only [alter, Attempt.alter, bind, Except.bind, pure, Except.pure]
  rcases change machine.advance with fault | after <;> rfl

/-- A located register can be written. -/
theorem follows_put {address : Nat} (h : address < machine.registers.size) (value : Value) :
    Follows machine (put address value) (.ok (.write address value)) := by
  have hSet : machine.advance.registers.set address value =
      .ok (machine.registers.write address value) := Registers.set_of_lt h value
  unfold put alterRegisters
  refine follows_alter ?_
  change _ = changed machine (machine.advance.registers.set address value >>= _)
  rw [hSet]
  rfl

/-- The heap is changed when something has been found, and then the change cannot fail. -/
theorem follows_alterHeap {α : Type} {change : Arena → Except Fault Arena}
    {found : Except Fault α} {write : α → Arena} {effect : α → Effect}
    (hChange : change machine.memory.heap = found >>= fun x => .ok (write x))
    (hEffect : ∀ x, machine.commit (effect x) =
      .next (machine.changeHeap fun _ => write x).advance) :
    Follows machine (alterHeap change) (found >>= fun x => .ok (effect x)) := by
  refine follows_alter ?_
  change _ = changed machine (change machine.memory.heap >>= _)
  rw [hChange]
  rcases found with fault | x
  · rfl
  · exact hEffect x

section Pieces

variable (handle : Handle)

theorem follows_store (index : Int64) (value : Value) :
    Follows machine (alterHeap (·.store handle index value))
      (machine.memory.heap.position handle index >>= fun position =>
        .ok (.store handle position value)) :=
  follows_alterHeap rfl fun _ => rfl

theorem follows_storeUnchecked (index : Nat) (value : Value) :
    Follows machine (alterHeap (·.storeUnchecked handle index value))
      (machine.memory.heap.positionUnchecked handle index >>= fun position =>
        .ok (.store handle position value)) :=
  follows_alterHeap rfl fun _ => rfl

theorem follows_setFlag (index : Int64) (flagged : Bool) :
    Follows machine (alterHeap (·.setFlag handle index flagged))
      (machine.memory.heap.position handle index >>= fun position =>
        .ok (.setFlag handle position flagged)) :=
  follows_alterHeap rfl fun _ => rfl

theorem follows_setMode (mode : TraceMode) :
    Follows machine (alterHeap (·.setMode handle mode))
      (Machine.require (machine.memory.heap.contains handle) .internal >>= fun _ =>
        .ok (.setMode handle mode)) := by
  refine follows_alterHeap ?_ fun _ => rfl
  unfold Arena.setMode
  cases machine.memory.heap.contains handle <;> rfl

theorem follows_trace (array : Nat) :
    Follows machine (trace array) (machine.planTrace array) := by
  refine follows_look fun handle _ => follows_alter ?_
  change _ = changed machine (machine.memory.collector.trace machine.memory.heap handle >>= _)
  unfold Collector.trace
  cases machine.memory.heap.contains handle <;> rfl

end Pieces

theorem follows_openFrame :
    Follows machine (alterCollector fun _ collector => collector.openFrame)
      (Machine.require machine.memory.collector.canOpen .stackOverflow >>= fun _ =>
        .ok .openFrame) := by
  refine follows_alter ?_
  change _ = changed machine (machine.memory.collector.openFrame >>= _)
  unfold Collector.openFrame
  cases machine.memory.collector.canOpen <;> rfl

theorem follows_offset (amount : UInt16) :
    Follows machine (alterRegisters (·.offset amount))
      (machine.registers.baseAbove amount >>= fun base => .ok (.setBase base)) := by
  refine follows_alter ?_
  change _ = changed machine ((machine.registers.baseAbove amount).map _ >>= _)
  rcases machine.registers.baseAbove amount with fault | base <;> rfl

theorem follows_deoffset (amount : UInt16) :
    Follows machine (alterRegisters (·.deoffset amount))
      (machine.registers.baseBelow amount >>= fun base => .ok (.setBase base)) := by
  refine follows_alter ?_
  change _ = changed machine ((machine.registers.baseBelow amount).map _ >>= _)
  rcases machine.registers.baseBelow amount with fault | base <;> rfl

/-! ## Handlers that act before they have come to their end -/

theorem follows_abort (code : UInt16) :
    Follows machine (abort code) (Machine.planAbort code) := by
  unfold abort Machine.planAbort
  rcases Status.ofCode? code with _ | ⟨_ | fault⟩
  · exact follows_throw _
  · exact fun _ => rfl
  · exact follows_throw _

theorem follows_call (callee : Nat) :
    Follows machine (call callee) (machine.registers.address callee >>= fun target =>
      Machine.require (machine.calls.size < machine.config.frameLimit) .stackOverflow >>=
        fun _ => .ok (.call target)) :=
  follows_look fun _ _ => follows_look fun _ _ _ => rfl

theorem follows_ret :
    Follows machine ret (Machine.require (!machine.calls.isEmpty) .internal >>= fun _ =>
      .ok .ret) := by
  intro records
  rcases hBack : machine.calls.back? with _ | target
  · have hEmpty : machine.calls.isEmpty = true := by simpa using hBack
    have hRead : Machine.orFault (.internal) machine.advance.calls.back? = .error .internal := by
      rw [show machine.advance.calls.back? = none from hBack]
      rfl
    simp only [ret, look, Attempt.look, bind, EStateM.bind, hRead, hEmpty]
    rfl
  · have hSome : machine.calls.isEmpty = false := by
      rw [Array.isEmpty_eq_false_iff]
      rintro h
      simp [h] at hBack
    have hRead : Machine.orFault (.internal) machine.advance.calls.back? = .ok target := by
      rw [show machine.advance.calls.back? = some target from hBack]
      rfl
    simp only [ret, look, Attempt.look, bind, EStateM.bind, hRead, hSome]
    simp only [Machine.carryOut, Machine.require, Except.bind, Machine.commit, hBack]
    rfl

theorem invoke_eq (machine : Machine σ) (id : Int64) (input : Value) (records : List Log.Record) :
    invoke id input { machine := machine.advance, records } =
      match (machine.foreign.invoke machine.world id input).1 with
      | .ok value => .ok value
          { machine := (machine.withWorld
              (machine.foreign.invoke machine.world id input).2).advance, records }
      | .error warning => .error .foreign
          { machine := (machine.withWorld
              (machine.foreign.invoke machine.world id input).2).advance
            records := records ++ [Log.warn warning] } := rfl

/-- The result of a host function is written into a register that was located before the
call; so once the function has returned, nothing fails any more. -/
theorem follows_callHost {output : Nat} (h : output < machine.registers.size) (id input : Nat) :
    Follows machine (callHost id input output) (machine.registers.long id >>= fun id =>
      machine.registers.get input >>= fun input => .ok (.foreign id input output)) := by
  refine follows_look fun id _ => follows_look fun input _ => ?_
  intro records
  have hCall := machine.callForeign_eq id input output
  change EStateM.bind (invoke id input) (put output) _ =
    (machine.callForeign id input output).outcome records
  rw [hCall, EStateM.bind, invoke_eq]
  rcases machine.foreign.invoke machine.world id input with ⟨warning | value, world⟩
  · rfl
  · exact follows_put (show output < (machine.withWorld world).registers.size from h) value records

/-- An allocation is made before its handle is written; the register was located before. -/
theorem follows_allocate (hs : machine.memory.Sound) (hCounted : machine.memory.heap.Counted)
    (hLimit : machine.memory.heap.limit ≤ 2 ^ 32) {target : Nat}
    (h : target < machine.registers.size) (size mode : UInt16) :
    Follows machine (allocate target size mode) (machine.planAllocate target size mode) := by
  refine follows_look fun mode _ => ?_
  intro records
  have hAllocate := Memory.tryAllocate_eq hs hCounted hLimit size mode
  change EStateM.bind (onMemory (Memory.tryAllocate size mode)) (fun handle =>
    put target (.handle handle)) _ = _
  have hMemory : machine.advance.memory = machine.memory := rfl
  simp only [EStateM.bind, onMemory, Attempt.within, hMemory, hAllocate]
  cases hFull : machine.memory.heap.isFull with
  | true => rfl
  | false =>
    let made : Machine σ := { machine with memory := (machine.memory.insert size mode).2 }
    exact follows_put (show target < made.registers.size from h) (.handle _) records

theorem follows_free (array : Nat) : Follows machine (free array) (machine.planFree array) := by
  refine follows_look fun handle _ => ?_
  intro records
  have hMemory : machine.advance.memory = machine.memory := rfl
  cases hLive : machine.memory.heap.contains handle with
  | true =>
    have hFree := Memory.tryFree_eq hLive
    simp only [onMemory, Attempt.within, hMemory, hFree]
    rfl
  | false =>
    have hFree := Memory.tryFree_of_dead hLive
    simp only [onMemory, Attempt.within, hMemory, hFree]
    rfl

/-- A frame is taken off the stack before its allocations are released; each of them can
be released. -/
theorem follows_clean : Follows machine (discard (onMemory Memory.tryClean))
    (Machine.require (!machine.memory.collector.frames.isEmpty) .internal >>= fun _ =>
      .ok .closeFrame) := by
  intro records
  have hMemory : machine.advance.memory = machine.memory := rfl
  change EStateM.map _ (onMemory Memory.tryClean) _ = _
  cases hRoot : machine.memory.collector.frames.isEmpty with
  | true =>
    have hClean := Memory.tryClean_of_root hRoot
    simp only [EStateM.map, onMemory, Attempt.within, hMemory, hClean]
    rfl
  | false =>
    have hClean := Memory.tryClean_eq hRoot
    simp only [EStateM.map, onMemory, Attempt.within, hMemory, hClean]
    rfl

/-! ## Every handler -/

theorem follows_compute (ins : Instruction) (op : Operation) :
    Follows machine (compute ins op) (machine.planCompute ins op) := by
  unfold compute Machine.planCompute
  rcases op.binary? with _ | f
  · rcases op.unary? with _ | f
    · exact follows_throw _
    · refine follows_reg fun source _ => follows_reg fun target h => ?_
      exact follows_look fun x _ => follows_look fun value _ => follows_put h value
  · refine follows_reg fun left _ => follows_reg fun right _ => follows_reg fun target h => ?_
    exact follows_look fun x _ => follows_look fun y _ => follows_look fun value _ =>
      follows_put h value

theorem follows_serve (hs : machine.memory.Sound) (hCounted : machine.memory.heap.Counted)
    (hLimit : machine.memory.heap.limit ≤ 2 ^ 32) {ins : Instruction} {op : Operation}
    (hDecode : ins.opcode.decode? = some op) :
    Follows machine (serve ins op) (machine.planFor ins op) := by
  have hLoc : ∀ slot, op.operands[slot]? = some .loc → ins.opcode.mode slot = .relative :=
    fun _ => Opcode.mode_eq_relative hDecode
  unfold serve Machine.planFor
  cases op with
  | abort => exact follows_abort ins.a
  | foreign =>
    exact follows_reg fun id _ => follows_reg fun input _ => follows_reg fun output h =>
      follows_callHost h id input
  | move =>
    exact follows_reg fun target h => follows_reg fun source _ => follows_look fun value _ =>
      follows_put h value
  | set =>
    exact follows_loc (hLoc 0 rfl) fun target h => follows_look fun value _ =>
      follows_put h value
  | jump => exact follows_goTo _
  | jumpCheck =>
    refine follows_reg fun condition _ => follows_look fun taken _ => ?_
    cases taken with
    | true => exact follows_skip
    | false => exact follows_goTo _
  | call => exact follows_reg fun callee _ => follows_call callee
  | ret => exact follows_ret
  | label => exact follows_reg fun target h => follows_put h _
  | loadAlloc =>
    refine follows_reg fun array _ => follows_reg fun index _ => follows_reg fun target h => ?_
    exact follows_look fun handle _ => follows_look fun index _ => follows_look fun value _ =>
      follows_put h value
  | loadAllocI | loadAllocIBound =>
    exact follows_reg fun array _ => follows_reg fun target h => follows_look fun handle _ =>
      follows_look fun value _ => follows_put h value
  | storeAlloc =>
    refine follows_reg fun array _ => follows_reg fun index _ => follows_reg fun source _ => ?_
    exact follows_look fun handle _ => follows_look fun index _ => follows_look fun value _ =>
      follows_store handle index value
  | storeAllocI =>
    exact follows_reg fun array _ => follows_reg fun source _ => follows_look fun handle _ =>
      follows_look fun value _ => follows_storeUnchecked handle _ value
  | storeAllocIBound =>
    exact follows_reg fun array _ => follows_reg fun source _ => follows_look fun handle _ =>
      follows_look fun value _ => follows_store handle _ value
  | confTrace =>
    exact follows_reg fun array _ => follows_look fun handle _ => follows_setFlag handle _ _
  | dynamicConf =>
    refine follows_loc (hLoc 0 rfl) fun array _ => ?_
    refine follows_loc (hLoc 1 rfl) fun flag _ => ?_
    exact follows_look fun handle _ => follows_look fun flagged _ =>
      follows_setFlag handle _ flagged
  | dynamicConfAll =>
    refine follows_loc (hLoc 0 rfl) fun array _ => ?_
    refine follows_loc (hLoc 1 rfl) fun flag _ => ?_
    exact follows_look fun handle _ => follows_look fun followed _ => follows_setMode handle _
  | stackOffset => exact follows_offset _
  | stackDeoffset => exact follows_deoffset _
  | alloc =>
    exact follows_reg fun target h => follows_reg fun size _ => follows_look fun size _ =>
      follows_look fun _ _ => follows_allocate hs hCounted hLimit h _ _
  | allocI => exact follows_reg fun target h => follows_allocate hs hCounted hLimit h _ _
  | free => exact follows_reg fun array _ => follows_free array
  | dynamicFree =>
    refine follows_loc (hLoc 0 rfl) fun array _ => ?_
    refine follows_loc (hLoc 1 rfl) fun flag _ => follows_look fun taken _ => ?_
    cases taken with
    | true => exact follows_free array
    | false => exact follows_skip
  | gcNewFrame => exact follows_openFrame
  | gcTrace => exact follows_reg fun array _ => follows_trace array
  | dynamicTrace =>
    refine follows_loc (hLoc 0 rfl) fun array _ => ?_
    refine follows_loc (hLoc 1 rfl) fun flag _ => follows_look fun taken _ => ?_
    cases taken with
    | true => exact follows_trace array
    | false => exact follows_skip
  | gcClean => exact follows_clean
  | length =>
    exact follows_reg fun array _ => follows_reg fun target h => follows_look fun handle _ =>
      follows_look fun alloc _ => follows_put h _
  | _ => exact follows_compute ins _

theorem follows_perform (hs : machine.memory.Sound) (hCounted : machine.memory.heap.Counted)
    (hLimit : machine.memory.heap.limit ≤ 2 ^ 32) (ins : Instruction) :
    Follows machine (perform ins) (machine.plan ins) := by
  unfold perform Machine.plan
  rcases hDecode : ins.opcode.decode? with _ | op
  · exact follows_throw _
  · exact follows_serve hs hCounted hLimit hDecode

end Handler

end RegisterMachine

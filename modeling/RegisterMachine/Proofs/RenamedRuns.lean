-- Machines whose heaps differ in the names of their handles run in step: an instruction has
-- the same plan up to names, its effect keeps the machines in step, and so does whatever ends
-- a run. Only a call into the host could tell the two apart.
import RegisterMachine.Proofs.MachineSizes
import RegisterMachine.Proofs.RenamedHeaps

namespace RegisterMachine

/-! ## Memories -/

namespace Memory

/-- `other` is `memory` with other names. -/
structure Renamed (ρ : Renaming) (start : Nat) (memory other : Memory) : Prop where
  heap : Arena.Renamed ρ start memory.heap other.heap
  collector : other.collector = ρ.collector memory.collector

/-- Two sweeps that have come equally far, and agree on what is marked. -/
structure Sweeping (ρ : Renaming) (start : Nat) (epoch epoch' : UInt32)
    (state other : SweepReport × Memory) : Prop where
  report : other.1 = state.1
  memory : Renamed ρ start state.2 other.2
  marks : ∀ x, other.2.heap.isMarked (ρ.handle x) epoch' = state.2.heap.isMarked x epoch

section Sweep

variable {ρ : Renaming} {start : Nat} {epoch epoch' : UInt32} {state other : SweepReport × Memory}

theorem Sweeping.one (h : Sweeping ρ start epoch epoch' state other) (x : Handle) :
    Sweeping ρ start epoch epoch' (sweepOne epoch state x)
      (sweepOne epoch' other (ρ.handle x)) := by
  obtain ⟨hReport, ⟨hHeap, hCollector⟩, hMarks⟩ := h
  unfold sweepOne
  simp only [hHeap.contains, hMarks]
  split
  · split
    · refine ⟨by simp only [hReport], ⟨hHeap, ?_⟩, hMarks⟩
      simp only [hCollector, ρ.register_collector hHeap.contains]
    · refine ⟨by simp only [hReport], ⟨hHeap.erase x, hCollector⟩, ?_⟩
      intro y
      simp only [isMarked_erase, hMarks]
      simp
  · exact ⟨hReport, ⟨hHeap, hCollector⟩, hMarks⟩

theorem Sweeping.foldl (h : Sweeping ρ start epoch epoch' state other) (entries : List Handle) :
    Sweeping ρ start epoch epoch' (entries.foldl (sweepOne epoch) state)
      ((entries.map ρ.handle).foldl (sweepOne epoch') other) := by
  induction entries generalizing state other with
  | nil => exact h
  | cons x entries ih => exact ih (h.one x)

end Sweep

namespace Renamed

variable {ρ : Renaming} {start : Nat} {memory other : Memory} (h : Renamed ρ start memory other)

include h

theorem insert (hFull : memory.heap.isFull = false) (size : UInt16) (mode : TraceMode) :
    (other.insert size mode).1 = ρ.handle (memory.insert size mode).1 ∧
      Renamed ρ start (memory.insert size mode).2 (other.insert size mode).2 := by
  have hHandle := h.heap.handle_insert size mode hFull
  have hHeap := h.heap.insert size mode hFull
  refine ⟨hHandle, hHeap, ?_⟩
  unfold Memory.insert
  simp only [h.collector, hHandle, ρ.register_collector hHeap.contains]

theorem free (x : Handle) : Renamed ρ start (memory.free x) (other.free (ρ.handle x)) := by
  refine ⟨h.heap.erase x, ?_⟩
  unfold Memory.free
  simp only [h.collector, ρ.forget_collector]

/-- The innermost frames are closed with the same report. -/
theorem closeFrame : other.closeFrame.1 = memory.closeFrame.1 ∧
    Renamed ρ start memory.closeFrame.2 other.closeFrame.2 := by
  have hBack : other.collector.frames.back? = memory.collector.frames.back?.map ρ.frame := by
    rw [h.collector]
    exact Array.back?_map
  unfold Memory.closeFrame
  rw [hBack]
  rcases memory.collector.frames.back? with _ | frame
  · exact ⟨rfl, h⟩
  · have hRoots : (ρ.frame frame).traced.toList = frame.traced.toList.map ρ.handle := by
      simp [Renaming.frame]
    have hOwned : (ρ.frame frame).owned.toList = frame.owned.toList.map ρ.handle := by
      simp [Renaming.frame]
    have hPop : { other.collector with frames := other.collector.frames.pop }
        = ρ.collector { memory.collector with frames := memory.collector.frames.pop } := by
      rw [h.collector]
      exact ρ.pop_collector memory.collector
    simp only [Option.map_some, ← Array.foldl_toList, hRoots, hOwned, hPop]
    have hHeap := h.heap.mark frame.traced.toList
    have hMarks := h.heap.isMarked_mark frame.traced.toList
    generalize memory.heap.mark frame.traced.toList = pass at hHeap hMarks ⊢
    generalize other.heap.mark (frame.traced.toList.map ρ.handle) = pass' at hHeap hMarks ⊢
    obtain ⟨epoch, visited, heap⟩ := pass
    obtain ⟨epoch', visited', heap'⟩ := pass'
    have hFirst : Sweeping ρ start epoch epoch' ({}, ⟨heap, memory.collector.pop⟩)
        ({}, ⟨heap', ρ.collector memory.collector.pop⟩) := ⟨rfl, ⟨hHeap, rfl⟩, hMarks⟩
    have hSwept := hFirst.foldl frame.owned.toList
    exact ⟨hSwept.report, hSwept.memory⟩

theorem closeFrames (n : Nat) (total : SweepReport) :
    (closeFrames n total other).1 = (closeFrames n total memory).1 ∧
      Renamed ρ start (closeFrames n total memory).2 (closeFrames n total other).2 := by
  induction n generalizing total memory other with
  | zero => exact ⟨rfl, h⟩
  | succ n ih =>
    obtain ⟨hReport, hNext⟩ := h.closeFrame
    have hRest := ih hNext (total.add memory.closeFrame.1)
    rw [Memory.closeFrames, Memory.closeFrames]
    simp only [hReport]
    exact hRest

theorem unwind : other.unwind.1 = memory.unwind.1 ∧
    Renamed ρ start memory.unwind.2 other.unwind.2 := by
  have hDepth : other.collector.depth = memory.collector.depth := by
    rw [h.collector, ρ.depth_collector]
  unfold Memory.unwind
  rw [hDepth]
  exact h.closeFrames _ _

end Renamed

end Memory

/-! ## Machines -/

namespace Machine

variable {σ : Type}

/-- `other` is `machine` with other names for the handles. The hosts may differ. -/
structure Renamed (ρ : Renaming) (start : Nat) (machine other : Machine σ) : Prop where
  config : other.config = machine.config
  ip : other.ip = machine.ip
  registers : other.registers = ρ.registers machine.registers
  calls : other.calls = machine.calls
  memory : Memory.Renamed ρ start machine.memory other.memory
  haltRequested : other.haltRequested = machine.haltRequested
  lastHalt : other.lastHalt = machine.lastHalt

end Machine

/-- The effect is a call into the host. -/
def Effect.CallsHost : Effect → Prop
  | .foreign .. => True
  | _ => False

theorem Machine.planFor_of_plan {σ : Type} {machine : Machine σ} {ins : Instruction}
    {effect : Effect} (h : machine.plan ins = .ok effect) :
    ∃ op, ins.opcode.decode? = some op ∧ machine.planFor ins op = .ok effect := by
  unfold plan at h
  split at h
  · rename_i op hDecode
    exact ⟨op, hDecode, h⟩
  · cases h

/-- Only one operation calls into the host. -/
theorem Machine.noCall_planFor {σ : Type} (machine : Machine σ) (ins : Instruction)
    {op : Operation} (hOp : op ≠ .foreign) :
    Gives (¬ ·.CallsHost) (machine.planFor ins op) := by
  unfold planFor
  cases op with
  | foreign => exact absurd rfl hOp
  | abort =>
    simp only [planAbort]
    split
    · exact gives_ok id
    · exact gives_error _
    · exact gives_error _
  | move | set | jump | call | ret | label | loadAlloc | loadAllocI | loadAllocIBound
  | storeAlloc | storeAllocI | storeAllocIBound | confTrace | dynamicConf | dynamicConfAll
  | stackOffset | stackDeoffset | alloc | allocI | free | gcNewFrame | gcTrace | gcClean
  | length =>
    repeat refine gives_bind fun _ _ => ?_
    exact gives_ok id
  | jumpCheck =>
    refine gives_bind fun _ _ => gives_bind fun taken _ => gives_ok ?_
    cases taken <;> exact id
  | dynamicFree | dynamicTrace =>
    refine gives_bind fun _ _ => gives_bind fun _ _ => gives_bind fun taken _ => ?_
    cases taken
    · exact gives_ok id
    · exact gives_bind fun _ _ => gives_bind fun _ _ => gives_ok id
  | _ =>
    simp only [planCompute]
    split
    · refine gives_bind fun _ _ => gives_bind fun _ _ => gives_bind fun _ _ => ?_
      exact gives_bind fun _ _ => gives_bind fun _ _ => gives_bind fun _ _ => gives_ok id
    · refine gives_bind fun _ _ => gives_bind fun _ _ => ?_
      exact gives_bind fun _ _ => gives_bind fun _ _ => gives_ok id
    · exact gives_error _

/-- Turns of machines in step. -/
inductive Turn.Renamed {σ : Type} (ρ : Renaming) (start : Nat) : Turn σ → Turn σ → Prop
  | next {machine other : Machine σ} (h : machine.Renamed ρ start other) :
      Renamed ρ start (.next machine) (.next other)
  | finished {machine other : Machine σ} (h : machine.Renamed ρ start other) :
      Renamed ρ start (.finished machine) (.finished other)
  | faulted {machine other : Machine σ} {fault : Fault} {warning : Option String}
      (h : machine.Renamed ρ start other) :
      Renamed ρ start (.faulted fault warning machine) (.faulted fault warning other)

namespace Machine.Renamed

variable {σ : Type} {ρ : Renaming} {start : Nat} {machine other : Machine σ}
  (h : machine.Renamed ρ start other)

include h

/-! ## The plan -/

theorem locate (ins : Instruction) (slot : Nat) :
    other.locate ins slot = machine.locate ins slot := by
  unfold Machine.locate
  rw [h.registers, ρ.locate_registers]

theorem get (address : Nat) :
    other.registers.get address = (machine.registers.get address).map ρ.value := by
  rw [h.registers, ρ.get_registers]

theorem long (address : Nat) : other.registers.long address = machine.registers.long address := by
  rw [h.registers, ρ.long_registers]

theorem bool (address : Nat) : other.registers.bool address = machine.registers.bool address := by
  rw [h.registers, ρ.bool_registers]

theorem address (address : Nat) :
    other.registers.address address = machine.registers.address address := by
  rw [h.registers, ρ.address_registers]

theorem handle (address : Nat) :
    other.registers.handle address = (machine.registers.handle address).map ρ.handle := by
  rw [h.registers, ρ.handle_registers]

theorem requireLive (x : Handle) :
    require (other.memory.heap.contains (ρ.handle x)) .internal
      = require (machine.memory.heap.contains x) .internal := by
  rw [h.memory.heap.contains]

open Renaming (bind_map bind_same)

theorem planAllocate (address : Nat) (size mode : UInt16) :
    other.planAllocate address size mode
      = (machine.planAllocate address size mode).map ρ.effect := by
  have hRoom : require (!other.memory.heap.isFull) .memory
      = require (!machine.memory.heap.isFull) .memory := by rw [h.memory.heap.isFull]
  exact bind_same rfl fun _ => bind_same hRoom fun _ => rfl

theorem planFree (address : Nat) :
    other.planFree address = (machine.planFree address).map ρ.effect :=
  bind_map (h.handle address) fun x => bind_same (h.requireLive x) fun _ => rfl

theorem planTrace (address : Nat) :
    other.planTrace address = (machine.planTrace address).map ρ.effect :=
  bind_map (h.handle address) fun x => bind_same (h.requireLive x) fun _ => rfl

theorem planCompute (ins : Instruction) (op : Operation) :
    other.planCompute ins op = (machine.planCompute ins op).map ρ.effect := by
  unfold Machine.planCompute
  split
  · rename_i hOp
    refine bind_same (h.locate ins 0) fun _ => bind_same (h.locate ins 1) fun _ => ?_
    refine bind_same (h.locate ins 2) fun _ => bind_map (h.get _) fun x => ?_
    exact bind_map (h.get _) fun y => bind_map (ρ.binary?_value hOp x y) fun _ => rfl
  · rename_i hOp
    refine bind_same (h.locate ins 0) fun _ => bind_same (h.locate ins 1) fun _ => ?_
    exact bind_map (h.get _) fun x => bind_map (ρ.unary?_value hOp x) fun _ => rfl
  · rfl

omit h in
theorem immediate (word kind : UInt16) :
    Machine.immediate word kind = (Machine.immediate word kind).map ρ.value := by
  refine bind_same rfl fun imm => ?_
  cases imm with
  | long | float | bool => rfl
  | char =>
    simp only
    split <;> rfl

/-- An instruction has the same plan, up to names. -/
theorem planFor (ins : Instruction) (op : Operation) :
    other.planFor ins op = (machine.planFor ins op).map ρ.effect := by
  have hHeap := h.memory.heap
  unfold Machine.planFor
  -- Read by read, the two plans find the same, or the same under another name.
  cases op with
  | abort =>
    simp only [Machine.planAbort]
    split <;> rfl
  | foreign =>
    refine bind_same (h.locate ins 0) fun _ => bind_same (h.locate ins 1) fun _ => ?_
    refine bind_same (h.locate ins 2) fun _ => bind_same (h.long _) fun _ => ?_
    exact bind_map (h.get _) fun _ => rfl
  | move =>
    refine bind_same (h.locate ins 0) fun _ => bind_same (h.locate ins 1) fun _ => ?_
    exact bind_map (h.get _) fun _ => rfl
  | set => exact bind_same (h.locate ins 0) fun _ => bind_map (immediate _ _) fun _ => rfl
  | jump => rfl
  | jumpCheck =>
    refine bind_same (h.locate ins 0) fun _ => bind_same (h.bool _) fun taken => ?_
    cases taken <;> rfl
  | call =>
    refine bind_same (h.locate ins 0) fun _ => bind_same (h.address _) fun _ => ?_
    exact bind_same (by rw [h.calls, h.config]) fun _ => rfl
  | ret => exact bind_same (by rw [h.calls]) fun _ => rfl
  | label => exact bind_same (h.locate ins 0) fun _ => rfl
  | loadAlloc =>
    refine bind_same (h.locate ins 0) fun _ => bind_same (h.locate ins 1) fun _ => ?_
    refine bind_same (h.locate ins 2) fun _ => bind_map (h.handle _) fun x => ?_
    exact bind_same (h.long _) fun _ => bind_map (hHeap.load x _) fun _ => rfl
  | loadAllocI =>
    refine bind_same (h.locate ins 0) fun _ => bind_same (h.locate ins 1) fun _ => ?_
    exact bind_map (h.handle _) fun x => bind_map (hHeap.loadUnchecked x _) fun _ => rfl
  | loadAllocIBound =>
    refine bind_same (h.locate ins 0) fun _ => bind_same (h.locate ins 1) fun _ => ?_
    exact bind_map (h.handle _) fun x => bind_map (hHeap.load x _) fun _ => rfl
  | storeAlloc =>
    refine bind_same (h.locate ins 0) fun _ => bind_same (h.locate ins 1) fun _ => ?_
    refine bind_same (h.locate ins 2) fun _ => bind_map (h.handle _) fun x => ?_
    refine bind_same (h.long _) fun _ => bind_map (h.get _) fun _ => ?_
    exact bind_map (hHeap.position x _) fun _ => rfl
  | storeAllocI =>
    refine bind_same (h.locate ins 0) fun _ => bind_same (h.locate ins 1) fun _ => ?_
    refine bind_map (h.handle _) fun x => bind_map (h.get _) fun _ => ?_
    exact bind_map (hHeap.positionUnchecked x _) fun _ => rfl
  | storeAllocIBound =>
    refine bind_same (h.locate ins 0) fun _ => bind_same (h.locate ins 1) fun _ => ?_
    refine bind_map (h.handle _) fun x => bind_map (h.get _) fun _ => ?_
    exact bind_map (hHeap.position x _) fun _ => rfl
  | confTrace =>
    refine bind_same (h.locate ins 0) fun _ => bind_map (h.handle _) fun x => ?_
    exact bind_map (hHeap.position x _) fun _ => rfl
  | dynamicConf =>
    refine bind_same (h.locate ins 0) fun _ => bind_same (h.locate ins 1) fun _ => ?_
    refine bind_map (h.handle _) fun x => bind_same (h.bool _) fun _ => ?_
    exact bind_map (hHeap.position x _) fun _ => rfl
  | dynamicConfAll =>
    refine bind_same (h.locate ins 0) fun _ => bind_same (h.locate ins 1) fun _ => ?_
    refine bind_map (h.handle _) fun x => bind_same (h.bool _) fun _ => ?_
    exact bind_same (h.requireLive x) fun _ => rfl
  | stackOffset =>
    exact bind_same (by rw [h.registers, ρ.baseAbove_registers]) fun _ => rfl
  | stackDeoffset => exact bind_same (by rw [h.registers]; rfl) fun _ => rfl
  | alloc =>
    refine bind_same (h.locate ins 0) fun _ => bind_same (h.locate ins 1) fun _ => ?_
    exact bind_same (h.long _) fun _ => bind_same rfl fun _ => h.planAllocate _ _ _
  | allocI => exact bind_same (h.locate ins 0) fun _ => h.planAllocate _ _ _
  | free => exact bind_same (h.locate ins 0) fun _ => h.planFree _
  | dynamicFree =>
    refine bind_same (h.locate ins 0) fun _ => bind_same (h.locate ins 1) fun _ => ?_
    refine bind_same (h.bool _) fun freed => ?_
    cases freed
    · rfl
    · exact h.planFree _
  | gcNewFrame =>
    exact bind_same (by rw [h.memory.collector, ρ.canOpen_collector]) fun _ => rfl
  | gcTrace => exact bind_same (h.locate ins 0) fun _ => h.planTrace _
  | dynamicTrace =>
    refine bind_same (h.locate ins 0) fun _ => bind_same (h.locate ins 1) fun _ => ?_
    refine bind_same (h.bool _) fun traced => ?_
    cases traced
    · rfl
    · exact h.planTrace _
  | gcClean =>
    exact bind_same (by rw [h.memory.collector, ρ.isEmpty_collector]) fun _ => rfl
  | length =>
    refine bind_same (h.locate ins 0) fun _ => bind_same (h.locate ins 1) fun _ => ?_
    exact bind_map (h.handle _) fun x => hHeap.get_bind (fun _ _ => rfl) x
  | _ => exact h.planCompute ins _

theorem plan (ins : Instruction) : other.plan ins = (machine.plan ins).map ρ.effect := by
  unfold Machine.plan
  split
  · exact h.planFor ins _
  · rfl

/-! ## The effect -/

theorem goTo (ip : Nat) : { machine with ip }.Renamed ρ start { other with ip } :=
  ⟨h.config, rfl, h.registers, h.calls, h.memory, h.haltRequested, h.lastHalt⟩

theorem advance : machine.advance.Renamed ρ start other.advance := by
  unfold Machine.advance
  rw [h.ip]
  exact h.goTo _

theorem writeRegister (address : Nat) (v : Value) :
    (machine.writeRegister address v).Renamed ρ start
      (other.writeRegister address (ρ.value v)) := by
  refine ⟨h.config, h.ip, ?_, h.calls, h.memory, h.haltRequested, h.lastHalt⟩
  unfold Machine.writeRegister
  rw [h.registers, ρ.write_registers]

theorem changeMemory {change change' : Memory → Memory}
    (hMemory : (change machine.memory).Renamed ρ start (change' other.memory)) :
    (machine.changeMemory change).Renamed ρ start (other.changeMemory change') :=
  ⟨h.config, h.ip, h.registers, h.calls, hMemory, h.haltRequested, h.lastHalt⟩

/-- An effect and its renamed form keep the machines in step, unless it calls the host. -/
theorem commit {op : Operation} {effect : Effect} (hAllowed : machine.Allowed op effect)
    (hHost : ¬ effect.CallsHost) :
    (machine.commit effect).Renamed ρ start (other.commit (ρ.effect effect)) := by
  have hMemory := h.memory
  have hHeap := h.memory.heap
  cases effect with
  | finish => exact .finished h.advance
  | skip => exact .next h.advance
  | jump target => exact .next (h.goTo target)
  | call target =>
    refine .next ⟨h.config, rfl, h.registers, ?_, h.memory, h.haltRequested, h.lastHalt⟩
    simp only [h.calls, h.ip]
  | ret =>
    refine .next ⟨h.config, ?_, h.registers, ?_, h.memory, h.haltRequested, h.lastHalt⟩
    all_goals simp only [h.calls]
  | write address v => exact .next (h.writeRegister address v).advance
  | store x position v =>
    exact .next (h.changeMemory ⟨hHeap.write x position v, hMemory.collector⟩).advance
  | setFlag x position flagged =>
    exact .next (h.changeMemory ⟨hHeap.setFlag x position flagged, hMemory.collector⟩).advance
  | setMode x mode =>
    exact .next (h.changeMemory ⟨hHeap.setMode x mode, hMemory.collector⟩).advance
  | setBase base =>
    refine .next (advance ⟨h.config, h.ip, ?_, h.calls, hMemory, h.haltRequested, h.lastHalt⟩)
    simp only [h.registers]
    rfl
  | allocate address size mode =>
    obtain ⟨hHandle, hInserted⟩ := hMemory.insert hAllowed size mode
    refine .next (advance ⟨h.config, h.ip, ?_, h.calls, hInserted, h.haltRequested, h.lastHalt⟩)
    simp only [Machine.allocateInto, h.registers, hHandle]
    exact ρ.write_registers _ _ (.handle _)
  | free x => exact .next (h.changeMemory (hMemory.free x)).advance
  | openFrame =>
    refine .next (h.changeMemory ⟨hHeap, ?_⟩).advance
    simp only [hMemory.collector, ρ.push_collector]
  | trace x =>
    refine .next (h.changeMemory ⟨hHeap, ?_⟩).advance
    simp only [hMemory.collector, ρ.addTrace_collector hHeap.contains]
  | closeFrame => exact .next (h.changeMemory hMemory.closeFrame.2).advance
  | foreign id input address => exact absurd trivial hHost

/-! ## Runs -/

/-- An instruction that is no call into the host keeps the machines in step. -/
theorem step {code : Array Instruction} (hFetched : machine.fetched? code ≠ some .foreign) :
    (machine.step code).Renamed ρ start (other.step code) := by
  unfold Machine.step
  rw [h.haltRequested, h.ip]
  split
  · exact .faulted h
  · rcases hFetch : code[machine.ip]? with _ | ins
    · exact .faulted h
    · simp only [Machine.exec, h.plan]
      rcases hPlan : machine.plan ins with fault | effect
      · exact .faulted h
      · obtain ⟨op, hDecode, hFor⟩ := planFor_of_plan hPlan
        have hOp : op ≠ .foreign := by
          rintro rfl
          exact hFetched (by simp [Machine.fetched?, hFetch, hDecode])
        exact h.commit (machine.plans_planFor ins op effect hFor)
          (machine.noCall_planFor ins hOp effect hFor)

theorem steps {code : Array Instruction}
    (hCalls : ∀ n before, after code n machine = some before →
      before.fetched? code ≠ some .foreign) (fuel : Nat) :
    Option.Rel (Turn.Renamed ρ start) (machine.steps code fuel) (other.steps code fuel) := by
  induction fuel generalizing machine other with
  | zero => exact .none
  | succ fuel ih =>
    have hTurn := h.step (hCalls 0 machine rfl)
    rw [Machine.steps, Machine.steps]
    generalize other.step code = turn at hTurn
    rcases hStep : machine.step code with next | last | ⟨fault, warning, last⟩
    · rw [hStep] at hTurn
      cases hTurn with
      | next hNext =>
        refine ih hNext fun n before hAfter => ?_
        exact hCalls (n + 1) before (after_succ.2 ⟨next, hStep, hAfter⟩)
    · rw [hStep] at hTurn
      cases hTurn with
      | finished hLast => exact .some (.finished hLast)
    · rw [hStep] at hTurn
      cases hTurn with
      | faulted hLast => exact .some (.faulted hLast)

theorem unwind : other.unwind.1 = machine.unwind.1 ∧
    machine.unwind.2.Renamed ρ start other.unwind.2 := by
  obtain ⟨hReport, hMemory⟩ := h.memory.unwind
  refine ⟨hReport, h.config, h.ip, ?_, rfl, hMemory, h.haltRequested, h.lastHalt⟩
  unfold Machine.unwind
  simp only [h.registers]
  rfl

end Machine.Renamed

/-- Runs of machines in step that have come to their ends. -/
structure Execution.Renamed {σ : Type} (ρ : Renaming) (start : Nat)
    (execution other : Execution σ) : Prop where
  machine : execution.machine.Renamed ρ start other.machine
  halt : other.halt = execution.halt
  records : other.records = execution.records

namespace Machine

variable {σ : Type} {ρ : Renaming} {start : Nat}

theorem Renamed.stop {machine other : Machine σ} (h : machine.Renamed ρ start other)
    (fault : Fault) (warning : Option String) :
    (machine.stop fault warning).Renamed ρ start (other.stop fault warning) := by
  have hHalted : { machine with lastHalt := some ⟨fault, machine.ip⟩ }.Renamed ρ start
      { other with lastHalt := some ⟨fault, other.ip⟩ } :=
    ⟨h.config, h.ip, h.registers, h.calls, h.memory, h.haltRequested, by simp only [h.ip]⟩
  obtain ⟨hReport, hMachine⟩ := hHalted.unwind
  refine ⟨hMachine, ?_, ?_⟩
  · simp only [Machine.stop, h.ip]
  · simp only [Machine.stop, hReport]
    rw [h.ip]

theorem conclude_renamed {turn other : Turn σ} (h : turn.Renamed ρ start other) :
    (conclude turn).Renamed ρ start (conclude other) := by
  cases h with
  | next h => exact ⟨h, rfl, rfl⟩
  | finished h =>
    exact ⟨⟨h.config, h.ip, h.registers, h.calls, h.memory, h.haltRequested, rfl⟩, rfl, rfl⟩
  | faulted h => exact h.stop _ _

/-- Runs without calls into the host come to the same end, up to names, or to none. -/
theorem Renamed.execute {machine other : Machine σ} (h : machine.Renamed ρ start other)
    {code : Array Instruction}
    (hCalls : ∀ n before, after code n machine.start = some before →
      before.fetched? code ≠ some .foreign) (fuel : Nat) :
    Option.Rel (Execution.Renamed ρ start) (machine.execute fuel code)
      (other.execute fuel code) := by
  have hStart : machine.start.Renamed ρ start other.start :=
    ⟨h.config, rfl, h.registers, rfl, h.memory, h.haltRequested, h.lastHalt⟩
  have hSteps := hStart.steps hCalls fuel
  unfold Machine.execute
  generalize machine.start.steps code fuel = last at hSteps ⊢
  generalize other.start.steps code fuel = last' at hSteps ⊢
  cases hSteps with
  | none => exact .none
  | some hTurn => exact .some (conclude_renamed hTurn)

end Machine

end RegisterMachine

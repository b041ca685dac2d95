-- One instruction. First it is planned: its operands are located and read, and
-- whatever can go wrong goes wrong here, before anything has changed. Then the
-- planned effect is carried out, which cannot fail. Only a call to the host can
-- fail later, when the function has already run.
import RegisterMachine.Isa.Instruction
import RegisterMachine.Machine.Arithmetic
import RegisterMachine.Machine.Basic

namespace RegisterMachine

/-- What an instruction does. Unless it says otherwise, the next instruction
comes next. -/
inductive Effect where
  /-- The normal end of the program. -/
  | finish
  | skip
  | jump (target : Nat)
  | call (target : Nat)
  | ret
  | write (address : Nat) (value : Value)
  | store (handle : Handle) (position : Nat) (value : Value)
  | setFlag (handle : Handle) (position : Nat) (flagged : Bool)
  | setMode (handle : Handle) (mode : TraceMode)
  | setBase (base : Nat)
  | allocate (address : Nat) (size : UInt16) (mode : TraceMode)
  | free (handle : Handle)
  | openFrame
  | trace (handle : Handle)
  | closeFrame
  | foreign (id : Int64) (input : Value) (address : Nat)
  deriving DecidableEq, Repr, Inhabited

/-- How an instruction ends. -/
inductive Turn (σ : Type) where
  | next (machine : Machine σ)
  | finished (machine : Machine σ)
  /-- A fault, and a warning for the log when a call to the host has failed. -/
  | faulted (fault : Fault) (warning : Option String) (machine : Machine σ)

namespace Machine

variable {σ : Type}

/-! ## The plan -/

/-- A condition without which an instruction faults. -/
def require (condition : Bool) (fault : Fault) : Except Fault Unit :=
  if condition then .ok () else .error fault

/-- What a fault stands for when nothing is found. -/
def orFault {α : Type} (fault : Fault) : Option α → Except Fault α
  | some value => .ok value
  | none => .error fault

/-- The value that `SET` makes of its number. -/
def immediate (word kind : UInt16) : Except Fault Value := do
  match ← orFault .internal (ImmediateKind.ofCode? kind) with
  | .long => pure (.long (Int64.ofInt word.toInt16.toInt))
  | .float => pure (.float (Binary64.ofInt word.toInt16.toInt))
  | .char =>
    if h : word.toUInt32.isValidChar then pure (.char ⟨word.toUInt32, h⟩) else throw .internal
  | .bool => pure (.bool (word != 0))

/-- The plan of `ABORT`. -/
def planAbort (code : UInt16) : Except Fault Effect :=
  match Status.ofCode? code with
  | some .clean => .ok .finish
  | some (.stopped fault) => .error fault
  | none => .error .internal

/-- The plan of `ALLOC` and `ALLOC_I`, once the size is known. -/
def planAllocate (machine : Machine σ) (address : Nat) (size mode : UInt16) :
    Except Fault Effect := do
  let mode ← orFault .internal (TraceMode.ofCode? mode)
  require (!machine.memory.heap.isFull) .memory
  pure (.allocate address size mode)

/-- The plan of `FREE`. -/
def planFree (machine : Machine σ) (address : Nat) : Except Fault Effect := do
  let handle ← machine.registers.handle address
  require (machine.memory.heap.contains handle) .internal
  pure (.free handle)

/-- The plan of `GC_TRACE`. -/
def planTrace (machine : Machine σ) (address : Nat) : Except Fault Effect := do
  let handle ← machine.registers.handle address
  require (machine.memory.heap.contains handle) .internal
  pure (.trace handle)

/-- The address of the register operand in `slot`. -/
@[inline]
def locate (machine : Machine σ) (ins : Instruction) (slot : Nat) : Except Fault Nat :=
  machine.registers.locate (ins.opcode.mode slot) (ins.operand slot)

/-- The plan of an operation that makes a value from one source. -/
@[inline]
def planUnary (machine : Machine σ) (ins : Instruction) (f : Value → Except Fault Value) :
    Except Fault Effect := do
  let source ← machine.locate ins 0
  let target ← machine.locate ins 1
  return .write target (← f (← machine.registers.get source))

/-- The plan of an operation that makes a value from two sources. -/
@[inline]
def planBinary (machine : Machine σ) (ins : Instruction)
    (f : Value → Value → Except Fault Value) : Except Fault Effect := do
  let left ← machine.locate ins 0
  let right ← machine.locate ins 1
  let target ← machine.locate ins 2
  return .write target (← f (← machine.registers.get left) (← machine.registers.get right))

/-- The plan of an operation that only computes. -/
def planCompute (machine : Machine σ) (ins : Instruction) (op : Operation) :
    Except Fault Effect :=
  match op.binary?, op.unary? with
  | some f, _ => machine.planBinary ins f
  | none, some f => machine.planUnary ins f
  | none, none => .error .internal

/-- What a legal instruction does, or the fault that it raises. The register
operands are located in slot order before any of them is read. -/
def planFor (machine : Machine σ) (ins : Instruction) (op : Operation) :
    Except Fault Effect := do
  let registers := machine.registers
  let heap := machine.memory.heap
  match op with
  | .abort => planAbort ins.a
  | .foreign =>
    let id ← machine.locate ins 0
    let input ← machine.locate ins 1
    let output ← machine.locate ins 2
    return .foreign (← registers.long id) (← registers.get input) output
  | .move =>
    let target ← machine.locate ins 0
    let source ← machine.locate ins 1
    return .write target (← registers.get source)
  | .set =>
    let target ← machine.locate ins 0
    return .write target (← immediate ins.b ins.c)
  | .jump => return .jump ins.a.toNat
  | .jumpCheck =>
    let condition ← machine.locate ins 0
    return if ← registers.bool condition then .skip else .jump ins.b.toNat
  | .call =>
    let callee ← machine.locate ins 0
    let target ← registers.address callee
    require (machine.calls.size < machine.config.frameLimit) .stackOverflow
    return .call target
  | .ret =>
    require (!machine.calls.isEmpty) .internal
    return .ret
  | .label =>
    let target ← machine.locate ins 0
    return .write target (.address ins.b.toNat)
  | .loadAlloc =>
    let array ← machine.locate ins 0
    let index ← machine.locate ins 1
    let target ← machine.locate ins 2
    let handle ← registers.handle array
    return .write target (← heap.load handle (← registers.long index))
  | .loadAllocI =>
    let array ← machine.locate ins 0
    let target ← machine.locate ins 1
    let handle ← registers.handle array
    return .write target (← heap.loadUnchecked handle ins.c.toNat)
  | .loadAllocIBound =>
    let array ← machine.locate ins 0
    let target ← machine.locate ins 1
    let handle ← registers.handle array
    return .write target (← heap.load handle (Int64.ofNat ins.c.toNat))
  | .storeAlloc =>
    let array ← machine.locate ins 0
    let index ← machine.locate ins 1
    let source ← machine.locate ins 2
    let handle ← registers.handle array
    let index ← registers.long index
    let value ← registers.get source
    return .store handle (← heap.position handle index) value
  | .storeAllocI =>
    let array ← machine.locate ins 0
    let source ← machine.locate ins 1
    let handle ← registers.handle array
    let value ← registers.get source
    return .store handle (← heap.positionUnchecked handle ins.c.toNat) value
  | .storeAllocIBound =>
    let array ← machine.locate ins 0
    let source ← machine.locate ins 1
    let handle ← registers.handle array
    let value ← registers.get source
    return .store handle (← heap.position handle (Int64.ofNat ins.c.toNat)) value
  | .confTrace =>
    let array ← machine.locate ins 0
    let handle ← registers.handle array
    return .setFlag handle (← heap.position handle (Int64.ofNat ins.b.toNat)) (ins.c != 0)
  | .dynamicConf =>
    let array ← machine.locate ins 0
    let flag ← machine.locate ins 1
    let handle ← registers.handle array
    let flagged ← registers.bool flag
    return .setFlag handle (← heap.position handle (Int64.ofNat ins.c.toNat)) flagged
  | .dynamicConfAll =>
    let array ← machine.locate ins 0
    let flag ← machine.locate ins 1
    let handle ← registers.handle array
    let followed ← registers.bool flag
    require (heap.contains handle) .internal
    return .setMode handle (if followed then .always else .never)
  | .stackOffset => return .setBase (← registers.baseAbove ins.a)
  | .stackDeoffset => return .setBase (← registers.baseBelow ins.a)
  | .alloc =>
    let target ← machine.locate ins 0
    let size ← machine.locate ins 1
    let size := (← registers.long size).toInt
    require (0 ≤ size ∧ size < UInt16.size) .memory
    machine.planAllocate target (UInt16.ofNat size.toNat) ins.c
  | .allocI =>
    let target ← machine.locate ins 0
    machine.planAllocate target ins.b ins.c
  | .free =>
    let array ← machine.locate ins 0
    machine.planFree array
  | .dynamicFree =>
    let array ← machine.locate ins 0
    let flag ← machine.locate ins 1
    if ← registers.bool flag then machine.planFree array else return .skip
  | .gcNewFrame =>
    require machine.memory.collector.canOpen .stackOverflow
    return .openFrame
  | .gcTrace =>
    let array ← machine.locate ins 0
    machine.planTrace array
  | .dynamicTrace =>
    let array ← machine.locate ins 0
    let flag ← machine.locate ins 1
    if ← registers.bool flag then machine.planTrace array else return .skip
  | .gcClean =>
    require (!machine.memory.collector.frames.isEmpty) .internal
    return .closeFrame
  | .length =>
    let array ← machine.locate ins 0
    let target ← machine.locate ins 1
    let alloc ← heap.get (← registers.handle array)
    return .write target (.long (Int64.ofNat alloc.limit))
  | op => machine.planCompute ins op

/-- What an instruction does, or the fault that it raises. -/
def plan (machine : Machine σ) (ins : Instruction) : Except Fault Effect :=
  match ins.opcode.decode? with
  | some op => machine.planFor ins op
  | none => .error .internal

/-! ## The effect -/

/-- Goes on with the next instruction. -/
@[inline]
def advance (machine : Machine σ) : Machine σ := { machine with ip := machine.ip + 1 }

def changeMemory (machine : Machine σ) (change : Memory → Memory) : Machine σ :=
  { machine with memory := change machine.memory }

def changeHeap (machine : Machine σ) (change : Arena → Arena) : Machine σ :=
  machine.changeMemory fun memory => { memory with heap := change memory.heap }

def changeCollector (machine : Machine σ) (change : Arena → Collector → Collector) :
    Machine σ :=
  machine.changeMemory fun memory =>
    { memory with collector := change memory.heap memory.collector }

@[inline]
def writeRegister (machine : Machine σ) (address : Nat) (value : Value) : Machine σ :=
  { machine with registers := machine.registers.write address value }

/-- Makes an allocation and puts its handle into a register. -/
def allocateInto (machine : Machine σ) (address : Nat) (size : UInt16) (mode : TraceMode) :
    Machine σ :=
  let { config, ip, registers, calls, memory, foreign, host, haltRequested, lastHalt } := machine
  let (handle, memory) := memory.insert size mode
  { config, ip, calls, memory, foreign, host, haltRequested, lastHalt
    registers := registers.write address (.handle handle) }

/-- Calls a function of the host and puts its result into a register. What the
function changed stays changed when it fails. -/
def callForeign (machine : Machine σ) (id : Int64) (input : Value) (address : Nat) : Turn σ :=
  let { config, ip, registers, calls, memory, foreign, host, haltRequested, lastHalt } := machine
  let (result, world) := foreign.invoke { memory, haltRequested, host } id input
  let { memory, haltRequested, host } := world
  let machine : Machine σ :=
    { config, ip, registers, calls, memory, foreign, host, haltRequested, lastHalt }
  match result with
  | .ok value => .next (machine.writeRegister address value).advance
  | .error warning => .faulted .foreign (some warning) machine

/-- Carries a planned effect out. -/
def commit (machine : Machine σ) : Effect → Turn σ
  | .finish => .finished machine.advance
  | .skip => .next machine.advance
  | .jump target => .next { machine with ip := target }
  | .call target =>
    .next { machine with calls := machine.calls.push (machine.ip + 1), ip := target }
  | .ret =>
    let target := machine.calls.back?.getD 0
    .next { machine with calls := machine.calls.pop, ip := target }
  | .write address value => .next (machine.writeRegister address value).advance
  | .store handle position value =>
    .next (machine.changeHeap (·.write handle position value)).advance
  | .setFlag handle position flagged =>
    .next (machine.changeHeap (·.modify handle (·.setFlag position flagged))).advance
  | .setMode handle mode =>
    .next (machine.changeHeap (·.modify handle (·.setMode mode))).advance
  | .setBase base => .next { machine with registers := machine.registers.setBase base }.advance
  | .allocate address size mode => .next (machine.allocateInto address size mode).advance
  | .free handle => .next (machine.changeMemory (·.free handle)).advance
  | .openFrame => .next (machine.changeCollector fun _ collector => collector.push).advance
  | .trace handle =>
    .next (machine.changeCollector fun heap collector => collector.addTrace heap handle).advance
  | .closeFrame => .next (machine.changeMemory fun memory => memory.closeFrame.2).advance
  | .foreign id input address => machine.callForeign id input address

/-- Executes one instruction. -/
def exec (machine : Machine σ) (ins : Instruction) : Turn σ :=
  match machine.plan ins with
  | .ok effect => machine.commit effect
  | .error fault => .faulted fault none machine

/-- Fetches and executes the next instruction, unless the host asked to stop. -/
def step (code : Array Instruction) (machine : Machine σ) : Turn σ :=
  if machine.haltRequested then .faulted .cancelled none machine
  else
    match code[machine.ip]? with
    | some ins => machine.exec ins
    | none => .faulted .internal none machine

end Machine

end RegisterMachine

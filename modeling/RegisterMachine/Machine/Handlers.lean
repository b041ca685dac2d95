-- The handlers of the instructions, and the loop that calls them. A handler
-- locates its register operands in slot order, and then reads, acts and writes its
-- result one after the other; each of these may fail when others have been done.
-- `Step` plans an instruction before it does anything, and does the same.
import RegisterMachine.Collector.Attempts
import RegisterMachine.Machine.Run

namespace RegisterMachine

/-- A machine in the middle of a run. -/
structure Engine (σ : Type) where
  machine : Machine σ
  /-- Whether the program has come to its normal end. -/
  halted : Bool := false
  /-- What the run has written to the log. -/
  records : List Log.Record := []

/-- What is done for an instruction, or a part of it. -/
abbrev Handler (σ α : Type) := Attempt (Engine σ) α

namespace Handler

variable {σ α : Type}

/-! ## Parts of handlers -/

/-- Looks at the machine. -/
def look (read : Machine σ → Except Fault α) : Handler σ α :=
  Attempt.look fun engine => read engine.machine

/-- Changes the machine in one piece, or leaves it as it is. -/
def alter (change : Machine σ → Except Fault (Machine σ)) : Handler σ Unit :=
  Attempt.alter fun engine => do
    let machine ← change engine.machine
    return { engine with machine }

def alterRegisters (change : Registers → Except Fault Registers) : Handler σ Unit :=
  alter fun machine => do
    let registers ← change machine.registers
    return { machine with registers }

def alterCollector (change : Arena → Collector → Except Fault Collector) : Handler σ Unit :=
  alter fun machine => do
    let collector ← change machine.memory.heap machine.memory.collector
    return { machine with memory := { machine.memory with collector } }

def alterHeap (change : Arena → Except Fault Arena) : Handler σ Unit :=
  alter fun machine => do
    let heap ← change machine.memory.heap
    return { machine with memory := { machine.memory with heap } }

def onMemory (attempt : Attempt Memory α) : Handler σ α :=
  attempt.within (·.machine.memory) fun memory engine =>
    { engine with machine := { engine.machine with memory } }

/-- Goes on with the instruction at `target`. -/
def goTo (target : Nat) : Handler σ Unit :=
  alter fun machine => .ok { machine with ip := target }

/-- The address of the register operand in `slot`, by the addressing of the opcode. -/
def reg (ins : Instruction) (slot : Nat) : Handler σ Nat := look (·.locate ins slot)

/-- The address of the register operand in `slot`, relative to the frame. -/
def loc (ins : Instruction) (slot : Nat) : Handler σ Nat :=
  look (·.registers.locate .relative (ins.operand slot))

def value (address : Nat) : Handler σ Value := look (·.registers.get address)

def long (address : Nat) : Handler σ Int64 := look (·.registers.long address)

def bool (address : Nat) : Handler σ Bool := look (·.registers.bool address)

def handle (address : Nat) : Handler σ Handle := look (·.registers.handle address)

/-- Puts a value into a register. -/
def put (address : Nat) (value : Value) : Handler σ Unit := alterRegisters (·.set address value)

/-! ## Handlers -/

/-- `ABORT`. -/
def abort (code : UInt16) : Handler σ Unit :=
  match Status.ofCode? code with
  | some .clean => modify fun engine => { engine with halted := true }
  | some (.stopped fault) => throw fault
  | none => throw .internal

/-- Calls a function of the host. What the function changed stays changed when it fails. -/
def invoke (id : Int64) (input : Value) : Handler σ Value := fun engine =>
  let { machine, halted, records } := engine
  let { config, ip, registers, calls, memory, foreign, host, haltRequested, lastHalt } := machine
  let (result, world) := foreign.invoke { memory, haltRequested, host } id input
  let { memory, haltRequested, host } := world
  let machine : Machine σ :=
    { config, ip, registers, calls, memory, foreign, host, haltRequested, lastHalt }
  match result with
  | .ok value => .ok value { machine, halted, records }
  | .error warning => .error .foreign { machine, halted, records := records ++ [Log.warn warning] }

/-- `FOREIGN`. -/
def callHost (id input output : Nat) : Handler σ Unit := do
  let id ← long id
  let input ← value input
  put output (← invoke id input)

/-- `CALL`. The address that is kept is that of the next instruction, to which the
machine has moved on already. -/
def call (callee : Nat) : Handler σ Unit := do
  let target ← look (·.registers.address callee)
  look fun machine =>
    Machine.require (machine.calls.size < machine.config.frameLimit) .stackOverflow
  alter fun machine => .ok { machine with calls := machine.calls.push machine.ip }
  goTo target

/-- `RETURN`. -/
def ret : Handler σ Unit := do
  let target ← look fun machine => Machine.orFault .internal machine.calls.back?
  alter fun machine => .ok { machine with calls := machine.calls.pop }
  goTo target

/-- `ALLOC_I`, and `ALLOC` once the size is known. -/
def allocate (target : Nat) (size mode : UInt16) : Handler σ Unit := do
  let mode ← look fun _ => Machine.orFault .internal (TraceMode.ofCode? mode)
  let handle ← onMemory (Memory.tryAllocate size mode)
  put target (.handle handle)

/-- `FREE`. -/
def free (array : Nat) : Handler σ Unit := do
  onMemory (Memory.tryFree (← handle array))

/-- `GC_TRACE`. -/
def trace (array : Nat) : Handler σ Unit := do
  let handle ← handle array
  alterCollector fun heap collector => collector.trace heap handle

/-- An operation that makes a value from one source. -/
def unary (f : Value → Except Fault Value) (source target : Nat) : Handler σ Unit := do
  let x ← value source
  put target (← look fun _ => f x)

/-- An operation that makes a value from two sources. -/
def binary (f : Value → Value → Except Fault Value) (left right target : Nat) :
    Handler σ Unit := do
  let x ← value left
  let y ← value right
  put target (← look fun _ => f x y)

/-- An operation that only computes. -/
def compute (ins : Instruction) (op : Operation) : Handler σ Unit := do
  match op.binary?, op.unary? with
  | some f, _ => binary f (← reg ins 0) (← reg ins 1) (← reg ins 2)
  | none, some f => unary f (← reg ins 0) (← reg ins 1)
  | none, none => throw .internal

/-- Locates the register operands of a legal instruction and calls its handler. -/
def serve (ins : Instruction) (op : Operation) : Handler σ Unit := do
  match op with
  | .abort => abort ins.a
  | .foreign => callHost (← reg ins 0) (← reg ins 1) (← reg ins 2)
  | .move =>
    let target ← reg ins 0
    let source ← reg ins 1
    put target (← value source)
  | .set =>
    let target ← loc ins 0
    put target (← look fun _ => Machine.immediate ins.b ins.c)
  | .jump => goTo ins.a.toNat
  | .jumpCheck =>
    let condition ← reg ins 0
    unless ← bool condition do goTo ins.b.toNat
  | .call => call (← reg ins 0)
  | .ret => ret
  | .label => put (← reg ins 0) (.address ins.b.toNat)
  | .loadAlloc =>
    let array ← reg ins 0
    let index ← reg ins 1
    let target ← reg ins 2
    let handle ← handle array
    let index ← long index
    put target (← look (·.memory.heap.load handle index))
  | .loadAllocI =>
    let array ← reg ins 0
    let target ← reg ins 1
    let handle ← handle array
    put target (← look (·.memory.heap.loadUnchecked handle ins.c.toNat))
  | .loadAllocIBound =>
    let array ← reg ins 0
    let target ← reg ins 1
    let handle ← handle array
    put target (← look (·.memory.heap.load handle (Int64.ofNat ins.c.toNat)))
  | .storeAlloc =>
    let array ← reg ins 0
    let index ← reg ins 1
    let source ← reg ins 2
    let handle ← handle array
    let index ← long index
    let value ← value source
    alterHeap (·.store handle index value)
  | .storeAllocI =>
    let array ← reg ins 0
    let source ← reg ins 1
    let handle ← handle array
    let value ← value source
    alterHeap (·.storeUnchecked handle ins.c.toNat value)
  | .storeAllocIBound =>
    let array ← reg ins 0
    let source ← reg ins 1
    let handle ← handle array
    let value ← value source
    alterHeap (·.store handle (Int64.ofNat ins.c.toNat) value)
  | .confTrace =>
    let array ← reg ins 0
    let handle ← handle array
    alterHeap (·.setFlag handle (Int64.ofNat ins.b.toNat) (ins.c != 0))
  | .dynamicConf =>
    let array ← loc ins 0
    let flag ← loc ins 1
    let handle ← handle array
    let flagged ← bool flag
    alterHeap (·.setFlag handle (Int64.ofNat ins.c.toNat) flagged)
  | .dynamicConfAll =>
    let array ← loc ins 0
    let flag ← loc ins 1
    let handle ← handle array
    let followed ← bool flag
    alterHeap (·.setMode handle (if followed then .always else .never))
  | .stackOffset => alterRegisters (·.offset ins.a)
  | .stackDeoffset => alterRegisters (·.deoffset ins.a)
  | .alloc =>
    let target ← reg ins 0
    let size ← reg ins 1
    let size := (← long size).toInt
    look fun _ => Machine.require (0 ≤ size ∧ size < UInt16.size) .memory
    allocate target (UInt16.ofNat size.toNat) ins.c
  | .allocI => allocate (← reg ins 0) ins.b ins.c
  | .free => free (← reg ins 0)
  | .dynamicFree =>
    let array ← loc ins 0
    let flag ← loc ins 1
    if ← bool flag then free array
  | .gcNewFrame => alterCollector fun _ collector => collector.openFrame
  | .gcTrace => trace (← reg ins 0)
  | .dynamicTrace =>
    let array ← loc ins 0
    let flag ← loc ins 1
    if ← bool flag then trace array
  | .gcClean => discard (onMemory Memory.tryClean)
  | .length =>
    let array ← reg ins 0
    let target ← reg ins 1
    let handle ← handle array
    let alloc ← look (·.memory.heap.get handle)
    put target (.long (Int64.ofNat alloc.limit))
  | op => compute ins op

/-- Executes one instruction. -/
def perform (ins : Instruction) : Handler σ Unit :=
  match ins.opcode.decode? with
  | some op => serve ins op
  | none => throw .internal

end Handler

namespace Machine

variable {σ : Type}

/-! ## The loop -/

/-- Moves the machine to the instruction at `ip`. -/
def moveTo (engine : Engine σ) (ip : Nat) : Engine σ :=
  { engine with machine := { engine.machine with ip } }

/-- One round of the loop: fetches the next instruction, unless the host asked to
stop, and executes it. A fault puts the machine back on the instruction. -/
def round (code : Array Instruction) : EStateM Halt (Engine σ) Unit := fun engine =>
  let ip := engine.machine.ip
  if engine.machine.haltRequested then .error ⟨.cancelled, ip⟩ engine
  else
    match code[ip]? with
    | none => .error ⟨.internal, ip⟩ engine
    | some ins =>
      match Handler.perform ins (moveTo engine (ip + 1)) with
      | .ok () engine => .ok () engine
      | .error fault engine => .error ⟨fault, ip⟩ (moveTo engine ip)

/-- What another thread can do between two instructions: it asks the machine to
stop, or takes this back, or does neither. -/
abbrev Signal := Option Bool

def receive (machine : Machine σ) (signal : Signal) : Machine σ :=
  { machine with haltRequested := signal.getD machine.haltRequested }

/-- Rounds until the program ends or a fault stops it, each of them after its
signal. Gives nothing when the run has not come to its end. -/
def rounds (code : Array Instruction) :
    List Signal → Engine σ → Option (EStateM.Result Halt (Engine σ) Unit)
  | [], _ => none
  | signal :: signals, engine =>
    match round code { engine with machine := engine.machine.receive signal } with
    | .ok () engine => if engine.halted then some (.ok () engine) else rounds code signals engine
    | ended => some ended

/-- Closes what a stopped run has left open, and says to the log what came of it. -/
def tryUnwind (machine : Machine σ) : List Log.Record × Machine σ :=
  let registers := machine.registers.resetBase
  match machine.memory.tryUnwind with
  | .ok report memory =>
    (unwoundRecords report, { machine with memory, registers, calls := #[] })
  | .error fault memory =>
    ([Log.warn s!"collector unwind failed: {fault.message}"],
      { machine with memory, registers, calls := #[] })

/-- The end of a run, after its last round. -/
def settle : EStateM.Result Halt (Engine σ) Unit → Execution σ
  | .ok () engine =>
    { machine := { engine.machine with lastHalt := none }, halt := none, records := engine.records }
  | .error halt engine =>
    let unwound := { engine.machine with lastHalt := some halt }.tryUnwind
    { machine := unwound.2, halt := some halt
      records := engine.records ++ Log.warn s!"machine halted: {halt.message}" :: unwound.1 }

/-- Runs instructions from index 0, one for each signal at most. -/
def executeUnder (signals : List Signal) (code : Array Instruction) (machine : Machine σ) :
    Option (Execution σ) :=
  (rounds code signals { machine := machine.start }).map settle

end Machine

end RegisterMachine

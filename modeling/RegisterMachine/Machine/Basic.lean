-- The machine: registers, memory, open calls and the functions of the host.
-- Its state stays in place between runs, until it is reset.
import RegisterMachine.Foreign.Table
import RegisterMachine.Log
import RegisterMachine.Program.Basic
import RegisterMachine.Registers

namespace RegisterMachine

/-- A machine, whose host functions work on a state of type `σ`. -/
structure Machine (σ : Type) where
  config : Config
  /-- The index of the next instruction, or of the one that raised a fault. -/
  ip : Nat
  registers : Registers
  /-- The return addresses of the open calls; the last one is used first. -/
  calls : Array Nat
  memory : Memory
  foreign : ForeignTable σ
  host : σ
  /-- Whether the host asked the machine to stop. -/
  haltRequested : Bool
  /-- Why the last run stopped, when it stopped with a fault. -/
  lastHalt : Option Halt

namespace Machine

variable {σ : Type}

/-- A fresh machine. -/
def make (config : Config) (host : σ) : Except Error (Machine σ) := do
  if let some defect := config.defect? then throw (.invalidConfig defect)
  let registers ← Registers.make config.stackSize config.globalCount
  pure
    { config, registers, host
      ip := 0
      calls := #[]
      memory := .make config.heapLimit config.poolLimit config.frameLimit
      foreign := {}
      haltRequested := false
      lastHalt := none }

/-- Copies constants into the registers from `address` on. -/
def copyConstants (registers : Registers) : Nat → List Constant → Registers
  | _, [] => registers
  | address, constant :: rest =>
    copyConstants (registers.write address (.ofConstant constant)) (address + 1) rest

/-- Copies the constants of a program into the first global registers. -/
def load (machine : Machine σ) (program : Program) : Except Error (Machine σ) :=
  if machine.config.globalCount < program.constants.size then
    .error (.invalidConfig .constantsPastGlobals)
  else
    .ok { machine with registers := copyConstants machine.registers 0 program.constants.toList }

/-- A machine of the sizes that a program asks for, with its constants loaded. -/
def ofProgram (program : Program) (host : σ) : Except Error (Machine σ) := do
  (← make program.header.config host).load program

/-- Back to a fresh machine. The sizes, the host and its functions stay, and so
does a request to stop. -/
def reset (machine : Machine σ) : Machine σ :=
  { machine with
    ip := 0
    registers := machine.registers.reset
    calls := #[]
    memory := machine.memory.reset
    lastHalt := none }

/-! ## What the host can do -/

/-- Reads a register as an operand would. -/
def register (machine : Machine σ) (mode : Addressing) (index : UInt16) : Except Fault Value := do
  machine.registers.get (← machine.registers.locate mode index)

def setRegister (machine : Machine σ) (mode : Addressing) (index : UInt16) (value : Value) :
    Except Fault (Machine σ) := do
  let address ← machine.registers.locate mode index
  pure { machine with registers := machine.registers.write address value }

/-- Makes an allocation for the current collector frame. -/
def allocate (machine : Machine σ) (size : UInt16) (mode : TraceMode) :
    Except Fault (Handle × Machine σ) := do
  let (handle, memory) ← machine.memory.allocate size mode
  pure (handle, { machine with memory })

def supertrace (machine : Machine σ) (handle : Handle) : Except Fault (Nat × Machine σ) := do
  let (count, memory) ← machine.memory.supertrace handle
  pure (count, { machine with memory })

def detrace (machine : Machine σ) (handle : Handle) : Except Fault (Nat × Machine σ) := do
  let (count, memory) ← machine.memory.detrace handle
  pure (count, { machine with memory })

/-- Changes the heap behind the back of the collector. -/
def withHeap (machine : Machine σ) (heap : Arena) : Machine σ :=
  { machine with memory := { machine.memory with heap } }

/-- Changes the table of host functions and gives the result of the change. -/
def changeTable {α : Type} (machine : Machine σ)
    (change : ForeignTable σ → α × ForeignTable σ) : α × Machine σ :=
  let { config, ip, registers, calls, memory, foreign, host, haltRequested, lastHalt } := machine
  let (result, foreign) := change foreign
  (result, { config, ip, registers, calls, memory, foreign, host, haltRequested, lastHalt })

/-- Registers a host function and gives its id. -/
def addFunction (machine : Machine σ) (function : HostFunction σ) :
    Except Error UInt16 × Machine σ :=
  machine.changeTable (·.add function)

/-- Imports a symbol of a library and gives its id. -/
def importSymbol (machine : Machine σ) (resolve : String → String → Option (HostFunction σ))
    (library symbol : String) : Except Error UInt16 × Machine σ :=
  machine.changeTable (·.importSymbol resolve library symbol)

/-- Ends the machine; gives the number of allocations that were still live. -/
def release (machine : Machine σ) : Nat := machine.memory.heap.clear.1

/-! ## Log records -/

/-- The record of a program that was loaded. -/
def loadedRecord (program : Program) : Log.Record :=
  let instructions := program.instructions.size
  Log.info s!"loaded program: instructions={instructions} constants={program.constants.size}"

/-- The record of a machine that ended with so many live allocations. -/
def releasedRecord (released : Nat) : Log.Record :=
  Log.info s!"machine released: allocations={released}"

end Machine

end RegisterMachine

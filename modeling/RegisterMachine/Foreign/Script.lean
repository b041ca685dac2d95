-- Host functions as scripts: what a function asks of the machine, one request
-- after the other, until it has its result. A function reaches the heap by
-- these requests only; it cannot release an allocation or open a frame.
import RegisterMachine.Collector.Memory

namespace RegisterMachine

/-- One request of a host function. `σ` is the state of the host. -/
inductive Request (σ : Type) where
  /-- A new array for the current collector frame. -/
  | allocate (size : UInt16) (mode : TraceMode)
  /-- A live allocation, to look at. -/
  | inspect (handle : Handle)
  | limit (handle : Handle)
  | load (handle : Handle) (index : Int64)
  | store (handle : Handle) (index : Int64) (value : Value)
  | storeUnchecked (handle : Handle) (index : Nat) (value : Value)
  | setFlag (handle : Handle) (index : Int64) (flagged : Bool)
  | setMode (handle : Handle) (mode : TraceMode)
  /-- Asks the machine to stop before its next instruction, or takes this back. -/
  | setHalt (requested : Bool)
  | getState
  | setState (state : σ)

/-- What a request is answered with. -/
def Request.Reply {σ : Type} : Request σ → Type
  | .allocate .. => Except Fault Handle
  | .inspect _ => Except Fault Allocation
  | .limit _ => Except Fault Nat
  | .load .. => Except Fault Value
  | .store .. | .storeUnchecked .. | .setFlag .. | .setMode .. => Except Fault Unit
  | .setHalt _ | .setState _ => Unit
  | .getState => σ

/-- Requests until a result, or until the function fails for a reason. -/
inductive Script (σ α : Type) where
  | done (result : α)
  | fail (reason : String)
  | ask (request : Request σ) (next : request.Reply → Script σ α)

/-- What a host function can see and change. -/
structure World (σ : Type) where
  memory : Memory
  haltRequested : Bool
  host : σ

namespace World

variable {σ : Type}

/-- Changes the heap, or leaves it as it is when the change has a fault. -/
def changeHeap (world : World σ) (change : Except Fault (Arena → Arena)) :
    Except Fault Unit × World σ :=
  match change with
  | .ok change =>
    let { memory, haltRequested, host } := world
    (.ok (), { memory := { memory with heap := change memory.heap }, haltRequested, host })
  | .error fault => (.error fault, world)

/-- Answers a request. -/
def answer (world : World σ) : (request : Request σ) → request.Reply × World σ
  | .allocate size mode =>
    if world.memory.heap.isFull then (.error .memory, world)
    else
      let { memory, haltRequested, host } := world
      let (handle, memory) := memory.insert size mode
      (.ok handle, { memory, haltRequested, host })
  | .inspect handle => (world.memory.heap.get handle, world)
  | .limit handle => ((world.memory.heap.get handle).map Allocation.limit, world)
  | .load handle index => (world.memory.heap.load handle index, world)
  | .store handle index value =>
    world.changeHeap ((world.memory.heap.position handle index).map fun position heap =>
      heap.write handle position value)
  | .storeUnchecked handle index value =>
    world.changeHeap ((world.memory.heap.positionUnchecked handle index).map fun position heap =>
      heap.write handle position value)
  | .setFlag handle index flagged =>
    world.changeHeap ((world.memory.heap.position handle index).map fun position heap =>
      heap.modify handle (·.setFlag position flagged))
  | .setMode handle mode =>
    world.changeHeap ((world.memory.heap.get handle).map fun _ heap =>
      heap.modify handle (·.setMode mode))
  | .setHalt requested => ((), { world with haltRequested := requested })
  | .getState => (world.host, world)
  | .setState host => ((), { world with host })

end World

namespace Script

variable {σ α β : Type}

/-- Goes on with the result of a script. -/
def bind : Script σ α → (α → Script σ β) → Script σ β
  | .done result, next => next result
  | .fail reason, _ => .fail reason
  | .ask request continue_, next => .ask request fun reply => (continue_ reply).bind next

instance : Monad (Script σ) where
  pure := .done
  bind := .bind

/-- Runs a script to its end. What it changed stays changed when it fails. -/
def run : Script σ α → World σ → Except String α × World σ
  | .done result, world => (.ok result, world)
  | .fail reason, world => (.error reason, world)
  | .ask request next, world =>
    let (reply, world) := world.answer request
    (next reply).run world

/-- A fault makes a host function fail with the message of the fault. -/
def ofExcept : Except Fault α → Script σ α
  | .ok value => .done value
  | .error fault => .fail fault.message

/-! ## The requests -/

def allocate (size : UInt16) (mode : TraceMode) : Script σ (Except Fault Handle) :=
  .ask (.allocate size mode) .done

def limit (handle : Handle) : Script σ (Except Fault Nat) :=
  .ask (.limit handle) .done

def load (handle : Handle) (index : Int64) : Script σ (Except Fault Value) :=
  .ask (.load handle index) .done

def store (handle : Handle) (index : Int64) (value : Value) : Script σ (Except Fault Unit) :=
  .ask (.store handle index value) .done

def setHalt (requested : Bool) : Script σ Unit :=
  .ask (.setHalt requested) .done

def getState : Script σ σ :=
  .ask .getState .done

def setState (state : σ) : Script σ Unit :=
  .ask (.setState state) .done

end Script

end RegisterMachine

-- Heap allocations: arrays of slots that remember whether they were written, and
-- that the collector follows as their trace mode says. The values and the two
-- kinds of flags stand in arrays of their own.
import RegisterMachine.Isa.Operand
import RegisterMachine.Value

namespace RegisterMachine

structure Allocation where
  /-- The backing store, of which checked accesses reach the part below `limit`. -/
  values : Array Value
  /-- Whether a slot was written since the allocation. -/
  written : Array Bool
  /-- Whether the collector follows a slot in the flagged mode. -/
  flagged : Array Bool
  limit : Nat
  mode : TraceMode
  /-- The marking pass that last reached the allocation. -/
  mark : UInt32
  deriving DecidableEq, Repr, Inhabited

/-- What a slot of an array shows: its value and its two flags. -/
structure Cell where
  value : Value
  written : Bool
  flagged : Bool
  deriving DecidableEq, Repr, Inhabited

namespace Allocation

/-- An array of `limit` slots in a new store of `capacity` slots. -/
def fresh (capacity limit : Nat) (mode : TraceMode) : Allocation where
  values := Array.replicate capacity .zero
  written := Array.replicate capacity false
  flagged := Array.replicate capacity false
  limit
  mode
  mark := 0

/-- Makes a released array ready to be used again, as an array of `limit` slots.
The whole store is cleared, also what lies past the new limit. -/
def recycle (alloc : Allocation) (limit : Nat) (mode : TraceMode) : Allocation where
  values := alloc.values.map fun _ => .zero
  written := alloc.written.map fun _ => false
  flagged := alloc.flagged.map fun _ => false
  limit
  mode
  mark := 0

def capacity (alloc : Allocation) : Nat := alloc.values.size

/-- The slots of the whole store, each with its value and its flags. -/
def cells (alloc : Allocation) : Array Cell :=
  alloc.values.mapIdx fun index value =>
    { value
      written := alloc.written[index]?.getD false
      flagged := alloc.flagged[index]?.getD false }

/-- Whether the collector may find handles in the array. -/
def holdsHandles (alloc : Allocation) : Bool := alloc.mode ≠ .never

/-- The slot at an index within the limit. -/
def position (alloc : Allocation) (index : Int64) : Except Fault Nat :=
  let i := index.toInt
  if 0 ≤ i ∧ i < alloc.limit then .ok i.toNat else .error .indexOutOfRange

def isWritten (alloc : Allocation) (index : Nat) : Bool :=
  index < alloc.limit && alloc.written[index]?.getD false

def isFlagged (alloc : Allocation) (index : Nat) : Bool :=
  index < alloc.limit && alloc.flagged[index]?.getD false

/-! ## Reading -/

/-- Reads a slot within the limit that was written. -/
def load (alloc : Allocation) (index : Int64) : Except Fault Value := do
  let position ← alloc.position index
  match alloc.written[position]?, alloc.values[position]? with
  | some true, some value => pure value
  | some false, _ => throw .uninitializedRead
  | _, _ => throw .internal

/-- Reads any slot of the store. -/
def loadUnchecked (alloc : Allocation) (index : Nat) : Except Fault Value :=
  match alloc.values[index]? with
  | some value => .ok value
  | none => .error .internal

/-- The position of any slot of the store. -/
def positionUnchecked (alloc : Allocation) (index : Nat) : Except Fault Nat :=
  if index < alloc.capacity then .ok index else .error .internal

/-! ## Changing -/

/-- Writes the slot at a position of the store. -/
def write (alloc : Allocation) (position : Nat) (value : Value) : Allocation :=
  { alloc with
    values := alloc.values.setIfInBounds position value
    written := alloc.written.setIfInBounds position true }

/-- Sets the flag of the slot at a position of the store. -/
def setFlag (alloc : Allocation) (position : Nat) (flagged : Bool) : Allocation :=
  { alloc with flagged := alloc.flagged.setIfInBounds position flagged }

def setMode (alloc : Allocation) (mode : TraceMode) : Allocation := { alloc with mode }

def setMark (alloc : Allocation) (mark : UInt32) : Allocation := { alloc with mark }

/-! ## What the collector follows -/

/-- Whether the collector looks for a handle in a slot. -/
def follows (alloc : Allocation) (index : Nat) : Bool :=
  alloc.isWritten index &&
    match alloc.mode with
    | .never => false
    | .always => true
    | .flagged => alloc.isFlagged index

/-- The handles that the collector follows, in the order of the slots. -/
def children (alloc : Allocation) : List Handle :=
  ((List.range alloc.limit).filter alloc.follows).filterMap fun index =>
    alloc.values[index]?.bind Value.handle?

end Allocation

end RegisterMachine

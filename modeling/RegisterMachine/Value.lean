-- The values that registers and heap cells hold, and the handles of heap
-- allocations.
import RegisterMachine.Binary64.Basic
import RegisterMachine.Fault
import RegisterMachine.Program.Constant

namespace RegisterMachine

/-- A reference to a heap allocation: a slot of the arena, and the generation
of the slot in which the allocation was made. -/
structure Handle where
  index : UInt32
  generation : UInt32
  deriving DecidableEq, Repr, Inhabited

/-- A value. A float is kept as its IEEE 754 bits. -/
inductive Value where
  | long (value : Int64)
  | float (bits : UInt64)
  | char (value : Char)
  | bool (value : Bool)
  /-- The index of an instruction. -/
  | address (index : Nat)
  | handle (handle : Handle)
  deriving DecidableEq, Repr

namespace Value

/-- What a register or a cell holds before it is written. -/
def zero : Value := .long 0

instance : Inhabited Value := ⟨zero⟩

def ofConstant : Constant → Value
  | .long value => .long value
  | .float bits => .float bits
  | .char value => .char value
  | .bool value => .bool value

/-- The name of the kind of a value. -/
def kindName : Value → String
  | .long _ => "long"
  | .float _ => "float"
  | .char _ => "char"
  | .bool _ => "bool"
  | .address _ => "address"
  | .handle _ => "handle"

/-! ## Reading a value as one kind

The kinds are never converted into each other, so a value of another kind is
an internal fault. -/

def asLong : Value → Except Fault Int64
  | .long value => .ok value
  | _ => .error .internal

def asFloat : Value → Except Fault UInt64
  | .float bits => .ok bits
  | _ => .error .internal

def asChar : Value → Except Fault Char
  | .char value => .ok value
  | _ => .error .internal

def asBool : Value → Except Fault Bool
  | .bool value => .ok value
  | _ => .error .internal

def asAddress : Value → Except Fault Nat
  | .address index => .ok index
  | _ => .error .internal

def asHandle : Value → Except Fault Handle
  | .handle h => .ok h
  | _ => .error .internal

/-- The handle that a value holds, if it holds one. -/
def handle? : Value → Option Handle
  | .handle h => some h
  | _ => none

end Value

end RegisterMachine

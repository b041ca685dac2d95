-- The register stack: a global region at the bottom, and above it the frames,
-- whose base moves up and down.
import RegisterMachine.Error
import RegisterMachine.Value

namespace RegisterMachine

structure Registers where
  cells : Array Value
  /-- The size of the global region, below which the base never drops. -/
  globals : Nat
  /-- The address of the first register of the current frame. -/
  base : Nat
  deriving DecidableEq, Repr, Inhabited

namespace Registers

/-- The storage of a stack stays below half of the 64-bit address space, with
16 bytes for each register. -/
def maxSize : Nat := (UInt64.size / 2 - 1) / 16

/-- A stack of `size` registers that all hold zero. -/
def make (size globals : Nat) : Except Error Registers :=
  if size < globals then .error (.invalidConfig .globalsPastStack)
  else if maxSize < size then .error (.outOfMemory size)
  else .ok { cells := Array.replicate size .zero, globals, base := globals }

def size (registers : Registers) : Nat := registers.cells.size

/-- The address of a register operand. -/
@[inline]
def locate (registers : Registers) (mode : Addressing) (index : UInt16) : Except Fault Nat :=
  let address := match mode with
    | .absolute => index.toNat
    | .relative => registers.base + index.toNat
  if address < registers.size then .ok address else .error .stackOverflow

/-! ## Reading and writing -/

@[inline]
def get (registers : Registers) (address : Nat) : Except Fault Value :=
  match registers.cells[address]? with
  | some value => .ok value
  | none => .error .stackOverflow

/-- Writes a register; an address past the stack is ignored. -/
@[inline]
def write (registers : Registers) (address : Nat) (value : Value) : Registers :=
  { registers with cells := registers.cells.setIfInBounds address value }

/-- Writes a register of the stack. -/
def set (registers : Registers) (address : Nat) (value : Value) : Except Fault Registers :=
  if address < registers.size then .ok (registers.write address value) else .error .stackOverflow

def long (registers : Registers) (address : Nat) : Except Fault Int64 := do
  (← registers.get address).asLong

def float (registers : Registers) (address : Nat) : Except Fault UInt64 := do
  (← registers.get address).asFloat

def char (registers : Registers) (address : Nat) : Except Fault Char := do
  (← registers.get address).asChar

def bool (registers : Registers) (address : Nat) : Except Fault Bool := do
  (← registers.get address).asBool

def address (registers : Registers) (address : Nat) : Except Fault Nat := do
  (← registers.get address).asAddress

def handle (registers : Registers) (address : Nat) : Except Fault Handle := do
  (← registers.get address).asHandle

/-! ## The base -/

/-- The base that lies `amount` registers higher. -/
def baseAbove (registers : Registers) (amount : UInt16) : Except Fault Nat :=
  let base := registers.base + amount.toNat
  if base < registers.size then .ok base else .error .stackOverflow

/-- The base that lies `amount` registers lower. -/
def baseBelow (registers : Registers) (amount : UInt16) : Except Fault Nat :=
  if registers.globals + amount.toNat ≤ registers.base then .ok (registers.base - amount.toNat)
  else .error .internal

def setBase (registers : Registers) (base : Nat) : Registers := { registers with base }

def offset (registers : Registers) (amount : UInt16) : Except Fault Registers :=
  (registers.baseAbove amount).map registers.setBase

def deoffset (registers : Registers) (amount : UInt16) : Except Fault Registers :=
  (registers.baseBelow amount).map registers.setBase

/-- Puts the base back on the global region and keeps the values. -/
def resetBase (registers : Registers) : Registers := { registers with base := registers.globals }

/-- Clears every register and puts the base back. -/
def reset (registers : Registers) : Registers :=
  { registers with
    cells := Array.replicate registers.size .zero
    base := registers.globals }

end Registers

end RegisterMachine

-- The operations of the machine. One table gives each of them its name and
-- the classes of its operands; opcodes, mnemonics, validation and the
-- assembler all read this table.
import RegisterMachine.Isa.Operand

namespace RegisterMachine

/-- A base operation, without the addressing of its operands. -/
inductive Operation where
  -- control
  | abort | foreign | move | set | jump | jumpCheck | call | ret | label
  -- heap access
  | loadAlloc | loadAllocI | loadAllocIBound | storeAlloc | storeAllocI | storeAllocIBound
  | confTrace | dynamicConf | dynamicConfAll
  -- frames and allocation
  | stackOffset | stackDeoffset | alloc | allocI | free | dynamicFree
  | gcNewFrame | gcTrace | dynamicTrace | gcClean
  -- logic
  | and | or | not | length
  -- equality
  | boolEqual | charEqual | longEqual | floatEqual
  -- long arithmetic
  | longMore | longLess | longMoreEqual | longLessEqual
  | longAdd | longSubtract | longMultiply | longDivide | longModulo | longExponentiate
  -- float arithmetic
  | floatMore | floatLess | floatMoreEqual | floatLessEqual
  | floatAdd | floatSubtract | floatMultiply | floatDivide | floatModulo | floatExponentiate
  -- negation
  | longNegate | floatNegate
  deriving DecidableEq, Repr, Inhabited

namespace Operation

/-- Every operation, each at the place of its code. -/
def all : Array Operation :=
  #[abort, foreign, move, set, jump, jumpCheck, call, ret, label,
    loadAlloc, loadAllocI, loadAllocIBound, storeAlloc, storeAllocI, storeAllocIBound,
    confTrace, dynamicConf, dynamicConfAll,
    stackOffset, stackDeoffset, alloc, allocI, free, dynamicFree,
    gcNewFrame, gcTrace, dynamicTrace, gcClean,
    and, or, not, length,
    boolEqual, charEqual, longEqual, floatEqual,
    longMore, longLess, longMoreEqual, longLessEqual,
    longAdd, longSubtract, longMultiply, longDivide, longModulo, longExponentiate,
    floatMore, floatLess, floatMoreEqual, floatLessEqual,
    floatAdd, floatSubtract, floatMultiply, floatDivide, floatModulo, floatExponentiate,
    longNegate, floatNegate]

/-- The code of an operation is its place in the table. -/
def code (op : Operation) : Nat := op.ctorIdx

def ofCode? (code : Nat) : Option Operation := all[code]?

theorem ofCode?_code (op : Operation) : ofCode? op.code = some op := by
  cases op <;> rfl

open OperandClass in
/-- The name of an operation and the classes of its operands in slot order. -/
def row : Operation → String × List OperandClass
  | abort => ("ABORT", [imm])
  | foreign => ("FOREIGN", [reg, reg, reg])
  | move => ("MOVE", [reg, reg])
  | set => ("SET", [loc, imm, imm])
  | jump => ("JUMP", [imm])
  | jumpCheck => ("JUMP_CHECK", [reg, imm])
  | call => ("CALL", [reg])
  | ret => ("RETURN", [])
  | label => ("LABEL", [reg, imm])
  | loadAlloc => ("LOAD_ALLOC", [reg, reg, reg])
  | loadAllocI => ("LOAD_ALLOC_I", [reg, reg, imm])
  | loadAllocIBound => ("LOAD_ALLOC_I_BOUND", [reg, reg, imm])
  | storeAlloc => ("STORE_ALLOC", [reg, reg, reg])
  | storeAllocI => ("STORE_ALLOC_I", [reg, reg, imm])
  | storeAllocIBound => ("STORE_ALLOC_I_BOUND", [reg, reg, imm])
  | confTrace => ("CONF_TRACE", [reg, imm, imm])
  | dynamicConf => ("DYNAMIC_CONF", [loc, loc, imm])
  | dynamicConfAll => ("DYNAMIC_CONF_ALL", [loc, loc])
  | stackOffset => ("STACK_OFFSET", [imm])
  | stackDeoffset => ("STACK_DEOFFSET", [imm])
  | alloc => ("ALLOC", [reg, reg, imm])
  | allocI => ("ALLOC_I", [reg, imm, imm])
  | free => ("FREE", [reg])
  | dynamicFree => ("DYNAMIC_FREE", [loc, loc])
  | gcNewFrame => ("GC_NEW_FRAME", [])
  | gcTrace => ("GC_TRACE", [reg])
  | dynamicTrace => ("DYNAMIC_TRACE", [loc, loc])
  | gcClean => ("GC_CLEAN", [])
  | and => ("AND", [reg, reg, reg])
  | or => ("OR", [reg, reg, reg])
  | not => ("NOT", [reg, reg])
  | length => ("LENGTH", [reg, reg])
  | boolEqual => ("BOOL_EQUAL", [reg, reg, reg])
  | charEqual => ("CHAR_EQUAL", [reg, reg, reg])
  | longEqual => ("LONG_EQUAL", [reg, reg, reg])
  | floatEqual => ("FLOAT_EQUAL", [reg, reg, reg])
  | longMore => ("LONG_MORE", [reg, reg, reg])
  | longLess => ("LONG_LESS", [reg, reg, reg])
  | longMoreEqual => ("LONG_MORE_EQUAL", [reg, reg, reg])
  | longLessEqual => ("LONG_LESS_EQUAL", [reg, reg, reg])
  | longAdd => ("LONG_ADD", [reg, reg, reg])
  | longSubtract => ("LONG_SUBTRACT", [reg, reg, reg])
  | longMultiply => ("LONG_MULTIPLY", [reg, reg, reg])
  | longDivide => ("LONG_DIVIDE", [reg, reg, reg])
  | longModulo => ("LONG_MODULO", [reg, reg, reg])
  | longExponentiate => ("LONG_EXPONENTIATE", [reg, reg, reg])
  | floatMore => ("FLOAT_MORE", [reg, reg, reg])
  | floatLess => ("FLOAT_LESS", [reg, reg, reg])
  | floatMoreEqual => ("FLOAT_MORE_EQUAL", [reg, reg, reg])
  | floatLessEqual => ("FLOAT_LESS_EQUAL", [reg, reg, reg])
  | floatAdd => ("FLOAT_ADD", [reg, reg, reg])
  | floatSubtract => ("FLOAT_SUBTRACT", [reg, reg, reg])
  | floatMultiply => ("FLOAT_MULTIPLY", [reg, reg, reg])
  | floatDivide => ("FLOAT_DIVIDE", [reg, reg, reg])
  | floatModulo => ("FLOAT_MODULO", [reg, reg, reg])
  | floatExponentiate => ("FLOAT_EXPONENTIATE", [reg, reg, reg])
  | longNegate => ("LONG_NEGATE", [reg, reg])
  | floatNegate => ("FLOAT_NEGATE", [reg, reg])

def name (op : Operation) : String := op.row.1

def operands (op : Operation) : List OperandClass := op.row.2

/-- The slots of the operands that name a register, with their classes. -/
def registerSlots (op : Operation) : List (Nat × OperandClass) :=
  (op.operands.zipIdx.filter fun (operand, _) => operand.isRegister).map fun (operand, slot) =>
    (slot, operand)

/-- The mask bit of a slot. -/
@[inline]
def slotBit (slot : Nat) : UInt16 := 1 <<< UInt16.ofNat slot

/-- The mask bits of the operands that are registers of either addressing, the
first of which is in `slot`. -/
def choosableFrom (slot : Nat) : List OperandClass → UInt16
  | [] => 0
  | operand :: rest =>
    let others := choosableFrom (slot + 1) rest
    if operand = .reg then slotBit slot ||| others else others

/-- The mask bits of the slots whose addressing the opcode chooses. -/
def choosableMask (op : Operation) : UInt16 := choosableFrom 0 op.operands

end Operation

end RegisterMachine

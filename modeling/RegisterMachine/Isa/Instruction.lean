-- Instructions: an opcode and three operand words.
import RegisterMachine.Fault
import RegisterMachine.Isa.Opcode

namespace RegisterMachine

/-- One instruction. Slots that its operation does not declare are ignored. -/
structure Instruction where
  opcode : Opcode
  a : UInt16
  b : UInt16
  c : UInt16
  deriving DecidableEq, Repr, Inhabited

namespace Instruction

/-- The instruction that stops with `status`. -/
def abort (status : Status) : Instruction :=
  ⟨.make .abort 0, status.code, 0, 0⟩

/-- The instruction that ends every valid program. -/
def sentinel : Instruction := .abort .clean

/-- Whether this is an `ABORT` with code 0, whatever its other slots hold. -/
def isSentinel (ins : Instruction) : Bool :=
  ins.opcode = sentinel.opcode && ins.a == 0

/-- The word in `slot`; every slot after the second reads the third. -/
@[inline]
def operand (ins : Instruction) : Nat → UInt16
  | 0 => ins.a
  | 1 => ins.b
  | _ => ins.c

/-- How many operands are written: those that the operation declares, and all
three for an illegal opcode. -/
def operandCount (ins : Instruction) : Nat :=
  match ins.opcode.decode? with
  | some op => op.operands.length
  | none => 3

/-- The mnemonic and the operands, as the assembler reads them. -/
def render (ins : Instruction) : String :=
  let operands := (List.range ins.operandCount).map fun slot => toString (ins.operand slot).toNat
  match operands with
  | [] => ins.opcode.mnemonic
  | operands => ins.opcode.mnemonic ++ " " ++ ", ".intercalate operands

end Instruction

end RegisterMachine

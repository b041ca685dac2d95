-- The checks that an instruction stream passes before it is run.
import RegisterMachine.Error
import RegisterMachine.Isa.Instruction

namespace RegisterMachine

/-- The number of instructions up to the first sentinel, the sentinel included. -/
def countInstructions? (code : Array Instruction) : Option Nat :=
  (code.findIdx? Instruction.isSentinel).map (· + 1)

/-- The instruction index that an instruction names, if its operation has one. -/
def Instruction.target? (ins : Instruction) : Operation → Option UInt16
  | .jump => some ins.a
  | .jumpCheck | .label => some ins.b
  | _ => none

/-- What is wrong with the instruction at `index` of a stream of `length`
instructions: its operation, then its mask, then its target. -/
def Instruction.defect? (length index : Nat) (ins : Instruction) : Option Error :=
  match ins.opcode.base? with
  | none => some (.invalidOpcode ins.opcode index)
  | some op =>
    if ins.opcode.decode?.isNone then some (.invalidAddressing op index)
    else
      match ins.target? op with
      | none => none
      | some target =>
        if length ≤ target.toNat then some (.invalidJumpTarget target index) else none

/-- A stream must end with the sentinel, and no instruction of it may have a
defect; the first one that has is reported. -/
def validate (code : Array Instruction) : Except Error Unit :=
  if code.back?.any Instruction.isSentinel then
    match code.toList.zipIdx.findSome? fun (ins, index) => ins.defect? code.size index with
    | some defect => .error defect
    | none => .ok ()
  else .error .missingSentinel

end RegisterMachine

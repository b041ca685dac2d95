-- Programs: the sizes of the machine that they ask for, their constants and
-- their instructions.
import RegisterMachine.Binary64.Basic
import RegisterMachine.Machine.Config
import RegisterMachine.Program.Constant
import RegisterMachine.Program.Validation

namespace RegisterMachine

/-- The sizes that a program asks for. -/
structure Header where
  stackSize : UInt32 := 4096
  frameLimit : UInt32 := 256
  globalCount : UInt32 := 64
  deriving DecidableEq, Repr, Inhabited

/-- The heap sizes of a program's machine are the usual ones. -/
def Header.config (header : Header) : Config :=
  { stackSize := header.stackSize.toNat
    frameLimit := header.frameLimit.toNat
    globalCount := header.globalCount.toNat }

structure Program where
  header : Header
  constants : Array Constant
  instructions : Array Instruction
  deriving DecidableEq, Repr, Inhabited

namespace Program

/-- A program whose instructions are valid and whose constants fit into the
globals. -/
def make (header : Header) (constants : Array Constant) (instructions : Array Instruction) :
    Except Error Program := do
  validate instructions
  if header.globalCount.toNat < constants.size then
    throw (.invalidConfig .constantsPastGlobals)
  pure { header, constants, instructions }

/-- A program with the usual sizes and no constants. -/
def ofInstructions (instructions : Array Instruction) : Except Error Program :=
  make {} #[] instructions

/-- Equality of constants as values, in which a NaN equals nothing. -/
def sameConstant : Constant → Constant → Bool
  | .float x, .float y => Binary64.equal x y
  | x, y => x = y

/-- Equality of programs as values. -/
def same (p q : Program) : Bool :=
  p.header = q.header && p.instructions = q.instructions &&
    p.constants.size == q.constants.size &&
    (p.constants.zip q.constants).all fun (x, y) => sameConstant x y

end Program

end RegisterMachine

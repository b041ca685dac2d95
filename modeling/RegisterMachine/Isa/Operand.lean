-- The operands of an instruction: how a slot is read, and how a register
-- number is turned into an address.

namespace RegisterMachine

/-- How a register number is turned into an address. -/
inductive Addressing where
  /-- Counted from the base of the current frame. -/
  | relative
  /-- Counted from the bottom of the stack. -/
  | absolute
  deriving DecidableEq, Repr, Inhabited

/-- The letter of an addressing in a mnemonic: local or global. -/
def Addressing.letter : Addressing → Char
  | .relative => 'L'
  | .absolute => 'G'

def Addressing.ofLetter? : Char → Option Addressing
  | 'L' => some .relative
  | 'G' => some .absolute
  | _ => none

theorem Addressing.ofLetter?_eq_some {c : Char} {mode : Addressing} :
    Addressing.ofLetter? c = some mode ↔ c = mode.letter := by
  unfold Addressing.ofLetter?
  split <;> cases mode <;> simp_all [Addressing.letter]

/-- How a slot of an instruction is read. -/
inductive OperandClass where
  /-- A register whose addressing the opcode chooses. -/
  | reg
  /-- A register that is always relative to the frame. -/
  | loc
  /-- A plain number. -/
  | imm
  deriving DecidableEq, Repr, Inhabited

/-- Register operands have a letter in the mnemonic. -/
def OperandClass.isRegister : OperandClass → Bool
  | .reg | .loc => true
  | .imm => false

/-- The kind of value that `SET` makes of its number. -/
inductive ImmediateKind where
  | long
  | float
  | char
  | bool
  deriving DecidableEq, Repr, Inhabited

def ImmediateKind.ofCode? : UInt16 → Option ImmediateKind
  | 0 => some .long
  | 1 => some .float
  | 2 => some .char
  | 3 => some .bool
  | _ => none

/-- Which cells of an array the collector follows. -/
inductive TraceMode where
  /-- Plain data: no cell is followed. -/
  | never
  /-- Every written cell is followed. -/
  | always
  /-- The written cells with their flag set are followed. -/
  | flagged
  deriving DecidableEq, Repr, Inhabited

def TraceMode.ofCode? : UInt16 → Option TraceMode
  | 0 => some .never
  | 1 => some .always
  | 2 => some .flagged
  | _ => none

end RegisterMachine

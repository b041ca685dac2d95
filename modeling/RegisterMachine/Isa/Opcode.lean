-- Opcodes: an operation together with a mask that makes register operands
-- global, the mnemonic of an opcode, and the opcode of a mnemonic.
import RegisterMachine.Text.Numeral
import RegisterMachine.Isa.Operation

namespace RegisterMachine

/-- A word of which the low three bits are the mask and the others the code
of the operation. Not every word is a legal opcode. -/
structure Opcode where
  raw : UInt16
  deriving DecidableEq, Repr, Inhabited

namespace Opcode

/-- The opcode of `op` with absolute addressing on the slots of `mask`. -/
def make (op : Operation) (mask : UInt16) : Opcode :=
  ⟨(UInt16.ofNat op.code <<< 3) ||| (mask &&& 7)⟩

def mask (opcode : Opcode) : UInt16 := opcode.raw &&& 7

/-- The operation, whatever the mask. -/
def base? (opcode : Opcode) : Option Operation :=
  Operation.ofCode? (opcode.raw >>> 3).toNat

/-- The addressing of the operand in `slot`. -/
@[inline]
def mode (opcode : Opcode) (slot : Nat) : Addressing :=
  if opcode.raw &&& Operation.slotBit slot = 0 then .relative else .absolute

/-- The operation of a legal opcode: its mask sets only bits of slots whose
addressing the opcode chooses. -/
def decode? (opcode : Opcode) : Option Operation :=
  opcode.base?.filter fun op => opcode.mask &&& ~~~ op.choosableMask = 0

/-! ## Mnemonics -/

/-- The letters of the register operands, in slot order. -/
def letters (opcode : Opcode) (op : Operation) : List Char :=
  op.registerSlots.map fun (slot, _) => (opcode.mode slot).letter

/-- The name of the operation, then a letter for each register operand. An
illegal opcode is written as its number. -/
def mnemonic (opcode : Opcode) : String :=
  match opcode.decode? with
  | none => s!"<0x{Numeral.hex 4 opcode.raw.toNat}>"
  | some op =>
    match opcode.letters op with
    | [] => op.name
    | letters => op.name ++ "_" ++ String.ofList letters

/-- The mask that the letters of a mnemonic choose. -/
def readLetters? : List (Nat × OperandClass) → List Char → Option UInt16
  | [], [] => some 0
  | (slot, operand) :: slots, c :: cs =>
    match Addressing.ofLetter? c, operand with
    | some .relative, _ => readLetters? slots cs
    | some .absolute, .reg => (readLetters? slots cs).map (· ||| Operation.slotBit slot)
    | _, _ => none
  | _, _ => none

/-- What is left of `cs` after the characters of `start`. -/
def afterStart? : List Char → List Char → Option (List Char)
  | [], cs => some cs
  | _ :: _, [] => none
  | p :: start, c :: cs => if p = c then afterStart? start cs else none

/-- Reads `cs` as a mnemonic of `op`. -/
def readFor? (op : Operation) (cs : List Char) : Option Opcode :=
  match op.registerSlots, afterStart? op.name.toList cs with
  | [], some [] => some (make op 0)
  | slot :: slots, some ('_' :: letters) => (readLetters? (slot :: slots) letters).map (make op)
  | _, _ => none

/-- The opcode of a mnemonic. -/
def ofMnemonic? (text : String) : Option Opcode :=
  let cs := text.toList
  Operation.all.toList.findSome? fun op => readFor? op cs

end Opcode

end RegisterMachine

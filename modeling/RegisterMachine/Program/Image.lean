-- The image of a program: the bytes in which it is stored. An image starts
-- with a mark and a version, and nothing may follow the program.
import RegisterMachine.Program.Basic

namespace RegisterMachine

def Header.codec : Codec Header :=
  (Codec.uint32.pair (.pair .uint32 .uint32)).map
    (fun header => (header.stackSize, header.frameLimit, header.globalCount))
    fun (stackSize, frameLimit, globalCount) => { stackSize, frameLimit, globalCount }

def Opcode.codec : Codec Opcode := Codec.uint16.map Opcode.raw Opcode.mk

/-- The opcode and the three operands, eight bytes in all. -/
def Instruction.codec : Codec Instruction :=
  (Opcode.codec.pair (.pair .uint16 (.pair .uint16 .uint16))).map
    (fun ins => (ins.opcode, ins.a, ins.b, ins.c))
    fun (opcode, a, b, c) => { opcode, a, b, c }

namespace Program

/-- The body of an image, without the mark and the version. -/
def codec : Codec Program :=
  (Header.codec.pair (.pair (.array Constant.codec) (.array Instruction.codec))).map
    (fun program => (program.header, program.constants, program.instructions))
    fun (header, constants, instructions) => { header, constants, instructions }

/-- The mark of an image: the letters `SCVM`. -/
def magic : Vector UInt8 4 := #v[0x53, 0x43, 0x56, 0x4D]

structure Version where
  major : UInt8
  minor : UInt8
  patch : UInt8
  deriving DecidableEq, Repr, Inhabited

/-- The version of the format. No other version is read. -/
def version : Version := ⟨1, 0, 0⟩

def Version.codec : Codec Version :=
  (Codec.uint8.pair (.pair .uint8 .uint8)).map
    (fun version => (version.major, version.minor, version.patch))
    fun (major, minor, patch) => { major, minor, patch }

def toBytes (program : Program) : List UInt8 :=
  (Codec.block 4).encode magic ++ Version.codec.encode version ++ codec.encode program

/-- Reads a part of an image. -/
def readPart {α : Type} (part : Codec α) (input : List UInt8) : Except Error (α × List UInt8) :=
  (part.decode input).mapError fun cause => .invalidImage (.unreadable cause)

/-- Reads an image and checks its program. -/
def ofBytes (input : List UInt8) : Except Error Program := do
  if (input.take 4).length < 4 then throw (.invalidImage .truncated)
  let (mark, input) ← readPart (.block 4) input
  if mark ≠ magic then throw (.invalidImage .badMagic)
  let (found, input) ← readPart Version.codec input
  if found ≠ version then throw (.invalidImage .unsupportedVersion)
  let (program, input) ← readPart codec input
  if !input.isEmpty then throw (.invalidImage .trailingBytes)
  make program.header program.constants program.instructions

end Program

end RegisterMachine

-- The errors outside of a run: a program that cannot be assembled, read or
-- loaded, a machine that cannot be made, a host function that cannot be found.
import RegisterMachine.Fault
import RegisterMachine.Bytes.Codec
import RegisterMachine.Isa.Opcode

namespace RegisterMachine

/-- What is wrong with the sizes of a machine. -/
inductive ConfigDefect where
  | noStack
  | noLocals
  | noFrames
  | noHeap
  | globalsPastStack
  | constantsPastGlobals
  deriving DecidableEq, Repr, Inhabited

def ConfigDefect.message : ConfigDefect → String
  | .noStack => "stack size must be positive"
  | .noLocals => "globals must leave room for locals"
  | .noFrames => "frame limit must be positive"
  | .noHeap => "heap limit must be positive"
  | .globalsPastStack => "global region larger than the register stack"
  | .constantsPastGlobals => "constant pool exceeds the global region"

/-- What is wrong with the bytes of a program. -/
inductive ImageDefect where
  | truncated
  | badMagic
  | unsupportedVersion
  | trailingBytes
  | unreadable (cause : DecodeError)
  deriving DecidableEq, Repr, Inhabited

def ImageDefect.message : ImageDefect → String
  | .truncated => "truncated"
  | .badMagic => "bad magic"
  | .unsupportedVersion => "unsupported version"
  | .trailingBytes => "trailing bytes"
  | .unreadable cause => cause.message

/-- What is wrong at a place of an assembly source. -/
inductive SourceDefect where
  | unknownMnemonic (text : String)
  | arityMismatch (mnemonic : String) (expected actual : Nat)
  | invalidOperand (token : String)
  | invalidDirective (text : String)
  | duplicateLabel (name : String)
  | undefinedLabel (name : String)
  | unterminatedChar
  /-- A label that stands for no 16-bit index. -/
  | labelOutOfReach
  deriving DecidableEq, Repr, Inhabited

def SourceDefect.message : SourceDefect → String
  | .unknownMnemonic text => s!"unknown mnemonic {text}"
  | .arityMismatch mnemonic expected actual =>
    s!"{mnemonic} expects {expected} operands, got {actual}"
  | .invalidOperand token => s!"invalid operand {token}"
  | .invalidDirective text => s!"invalid directive {text}"
  | .duplicateLabel name => s!"duplicate label {name}"
  | .undefinedLabel name => s!"undefined label {name}"
  | .unterminatedChar => "unterminated char literal (missing closing quote)"
  | .labelOutOfReach => "program exceeds the addressable instruction range"

inductive Error where
  /-- No operation has the code of this opcode. -/
  | invalidOpcode (opcode : Opcode) (index : Nat)
  /-- The mask makes an operand global that is not a free register. -/
  | invalidAddressing (operation : Operation) (index : Nat)
  | invalidJumpTarget (target : UInt16) (index : Nat)
  | missingSentinel
  | invalidImage (defect : ImageDefect)
  | invalidConfig (defect : ConfigDefect)
  | outOfMemory (registers : Nat)
  /-- A defect of the source, at a line and a byte column that count from 1. -/
  | source (line column : Nat) (defect : SourceDefect)
  | file (path reason : String)
  | unresolvedForeign (library symbol : String)
  | foreignTableFull
  deriving DecidableEq, Repr, Inhabited

def Error.message : Error → String
  | .invalidOpcode opcode index =>
    s!"invalid opcode 0x{Numeral.hex 4 opcode.raw.toNat} at instruction {index}"
  | .invalidAddressing operation index =>
    s!"invalid addressing mask on {operation.name} at instruction {index}"
  | .invalidJumpTarget target index =>
    s!"jump target {target.toNat} out of range at instruction {index}"
  | .missingSentinel => "instruction stream is not terminated by the ABORT sentinel"
  | .invalidImage defect => s!"decoding error: {defect.message}"
  | .invalidConfig defect => s!"invalid machine configuration: {defect.message}"
  | .outOfMemory registers => s!"cannot reserve {registers} registers"
  | .source line column defect => s!"line {line}:{column}: {defect.message}"
  | .file path reason => s!"io error on {path}: {reason}"
  | .unresolvedForeign library symbol => s!"unresolved foreign symbol {library}::{symbol}"
  | .foreignTableFull => "foreign table is full"

/-- The fault that an error counts as when a host passes it on to a program. -/
def Error.fault : Error → Fault
  | .file .. => .cannotOpenFile
  | .outOfMemory _ => .memory
  | .unresolvedForeign .. | .foreignTableFull => .foreign
  | _ => .internal

end RegisterMachine

-- The assembler: from a source text to a program. A first pass over the lines
-- applies the directives and gives the labels their indices; a second pass
-- reads the instructions, when every label is known.
import RegisterMachine.Assembly.Literal
import RegisterMachine.Assembly.Token
import RegisterMachine.Program.Basic

namespace RegisterMachine.Assembly

/-- What the first pass has found. -/
structure Draft where
  header : Header := {}
  constants : Array Constant := #[]
  labels : Labels := {}
  /-- The lines that hold an instruction, with their numbers. -/
  instructionLines : Array (Nat × List Token) := #[]

/-! ## The first pass -/

def size (text : List Char) : Except SourceDefect UInt32 :=
  orInvalid text (Numeral.uint32? text)

/-- Applies a directive. -/
def Draft.direct (draft : Draft) (name : String) (arguments : List (List Char)) :
    Except SourceDefect Draft :=
  match name, arguments with
  | ".stack", [n] => do
    let stackSize ← size n
    pure { draft with header := { draft.header with stackSize } }
  | ".frames", [n] => do
    let frameLimit ← size n
    pure { draft with header := { draft.header with frameLimit } }
  | ".globals", [n] => do
    let globalCount ← size n
    pure { draft with header := { draft.header with globalCount } }
  | ".const", [kind, value] => do
    let constant ← constant kind value
    pure { draft with constants := draft.constants.push constant }
  | _, _ => .error (.invalidDirective name)

/-- The name that a token defines as a label: all of it but the colon at its end. -/
def labelName? (text : List Char) : Option String :=
  if text.getLast? = some ':' ∧ 1 < text.length then some (String.ofList text.dropLast) else none

/-- Gives a label the index of the next instruction. -/
def Draft.define (draft : Draft) (name : String) : Except SourceDefect Draft :=
  let index := draft.instructionLines.size
  if UInt16.size ≤ index then .error .labelOutOfReach
  else if draft.labels.contains name then .error (.duplicateLabel name)
  else .ok { draft with labels := draft.labels.insert name (UInt16.ofNat index) }

def Draft.addInstruction (draft : Draft) (number : Nat) (tokens : List Token) : Draft :=
  { draft with instructionLines := draft.instructionLines.push (number, tokens) }

/-- Takes the tokens of a line in: a directive, or a label or none and then an
instruction or none. -/
def Draft.addTokens (draft : Draft) (number : Nat) : List Token → Except SourceDefect Draft
  | [] => .ok draft
  | head :: rest =>
    if head.text.head? = some '.' then draft.direct head.string (rest.map Token.text)
    else
      match labelName? head.text with
      | none => .ok (draft.addInstruction number (head :: rest))
      | some name => do
        let draft ← draft.define name
        pure (if rest.isEmpty then draft else draft.addInstruction number rest)

/-- Takes a line in. A defect is located at the first token of the line, and a
quote that is not closed at its own token. -/
def Draft.addLine (draft : Draft) (number : Nat) (line : List Char) : Except Error Draft :=
  match tokens line with
  | .error column => .error (.source number column .unterminatedChar)
  | .ok tokens =>
    (draft.addTokens number tokens).mapError fun defect =>
      .source number ((tokens.head?.map Token.column).getD 1) defect

/-- The first pass, over lines that are numbered from `number` on. -/
def Draft.addLines (draft : Draft) (number : Nat) : List (List Char) → Except Error Draft
  | [] => .ok draft
  | line :: rest =>
    match draft.addLine number line with
    | .ok draft => draft.addLines (number + 1) rest
    | .error e => .error e

/-! ## The second pass -/

/-- Reads the operands of an instruction, each located at its own token. -/
def operands (labels : Labels) (number : Nat) :
    List (OperandClass × Token) → Except Error (List UInt16)
  | [] => .ok []
  | (operandClass, token) :: rest => do
    let value ← (operand labels operandClass token.text).mapError (.source number token.column)
    let values ← operands labels number rest
    pure (value :: values)

/-- Reads an instruction line. -/
def instruction (labels : Labels) (number : Nat) : List Token → Except Error Instruction
  | [] => .error (.source number 1 (.unknownMnemonic ""))
  | head :: arguments =>
    let refuse (defect : SourceDefect) : Except Error Instruction :=
      .error (.source number head.column defect)
    match Opcode.ofMnemonic? head.string with
    | none => refuse (.unknownMnemonic head.string)
    | some opcode =>
      match opcode.decode? with
      | none => refuse (.invalidOperand head.string)
      | some op =>
        if arguments.length ≠ op.operands.length then
          refuse (.arityMismatch head.string op.operands.length arguments.length)
        else do
          let values ← operands labels number (op.operands.zip arguments)
          let slot (n : Nat) : UInt16 := values[n]?.getD 0
          pure ⟨opcode, slot 0, slot 1, slot 2⟩

/-- The second pass, over instruction lines; the instructions go behind `done`. -/
def instructions (labels : Labels) :
    Array Instruction → List (Nat × List Token) → Except Error (Array Instruction)
  | done, [] => .ok done
  | done, (number, tokens) :: rest =>
    match instruction labels number tokens with
    | .ok ins => instructions labels (done.push ins) rest
    | .error e => .error e

/-- A stream that does not end with the sentinel gets one. -/
def terminate (code : Array Instruction) : Array Instruction :=
  if code.back?.any Instruction.isSentinel then code else code.push .sentinel

/-- The program of a source text. -/
def assemble (source : String) : Except Error Program := do
  let draft ← Draft.addLines {} 1 (lines source)
  let code ← instructions draft.labels #[] draft.instructionLines.toList
  Program.make draft.header draft.constants (terminate code)

end RegisterMachine.Assembly

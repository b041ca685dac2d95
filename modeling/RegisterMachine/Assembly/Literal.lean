-- The operands of an assembly source: register numbers, immediates and the
-- values of constants.
import Std.Data.HashMap
import RegisterMachine.Binary64.Text
import RegisterMachine.Error
import RegisterMachine.Program.Constant

namespace RegisterMachine.Assembly

/-- The instruction index of each label. -/
abbrev Labels := Std.HashMap String UInt16

def invalidOperand (text : List Char) : SourceDefect :=
  .invalidOperand (String.ofList text)

/-- The value of a literal, which is refused when it has none. -/
def orInvalid {α : Type} (text : List Char) : Option α → Except SourceDefect α
  | some value => .ok value
  | none => .error (invalidOperand text)

/-- A register number, with the letter `r` in front or without. -/
def register? : List Char → Option UInt16
  | 'r' :: digits => Numeral.uint16? digits
  | digits => Numeral.uint16? digits

/-- One character in quotes. -/
def charLiteral? : List Char → Option Char
  | ['\'', c, '\''] => some c
  | _ => none

def looksNumeric : List Char → Bool
  | c :: _ => (Numeral.digit? c).isSome || c == '-' || c == '+'
  | [] => false

/-- A number that fits into 16 bits, with a sign or without. -/
def word? (text : List Char) : Option UInt16 :=
  (Numeral.uint16? text).or ((Numeral.int16? text).map Int16.toUInt16)

/-- The words that stand for numbers. -/
def keyword? (text : String) : Option UInt16 :=
  match text with
  | "false" | "none" => some 0
  | "true" | "all" => some 1
  | "some" => some 2
  | _ => none

/-- A character as an immediate, if it fits. -/
def charWord? (text : List Char) : Option UInt16 :=
  ((charLiteral? text).filter (·.toNat < UInt16.size)).map fun c => UInt16.ofNat c.toNat

/-- An immediate: a number, a keyword, a character in quotes, or a label. -/
def immediate (labels : Labels) (text : List Char) : Except SourceDefect UInt16 :=
  let name := String.ofList text
  if looksNumeric text then orInvalid text (word? text)
  else
    match keyword? name with
    | some value => .ok value
    | none =>
      if text.head? = some '\'' then orInvalid text (charWord? text)
      else
        match labels[name]? with
        | some index => .ok index
        | none => .error (.undefinedLabel name)

def operand (labels : Labels) : OperandClass → List Char → Except SourceDefect UInt16
  | .reg, text | .loc, text => orInvalid text (register? text)
  | .imm, text => immediate labels text

/-! ## Constants -/

/-- A character: in quotes, or the number of a Unicode scalar value. -/
def char? (text : List Char) : Option Char :=
  (charLiteral? text).or do
    let code ← Numeral.uint32? text
    if h : code.isValidChar then some ⟨code, h⟩ else none

def bool? (text : List Char) : Option Bool :=
  match String.ofList text with
  | "true" => some true
  | "false" => some false
  | _ => none

/-- A constant of the kind with the given name. -/
def constant (kind value : List Char) : Except SourceDefect Constant :=
  match String.ofList kind with
  | "long" => orInvalid value ((Numeral.int64? value).map .long)
  | "float" => orInvalid value ((Binary64.read? value).map .float)
  | "char" => orInvalid value ((char? value).map .char)
  | "bool" => orInvalid value ((bool? value).map .bool)
  | kind => .error (.invalidDirective s!".const {kind}")

end RegisterMachine.Assembly

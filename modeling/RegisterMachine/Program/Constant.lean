-- Constants: the values that a program carries and that are copied into the
-- global registers when it is loaded.
import RegisterMachine.Bytes.Codec

namespace RegisterMachine

/-- A constant. A float is kept as its IEEE 754 bits. -/
inductive Constant where
  | long (value : Int64)
  | float (bits : UInt64)
  | char (value : Char)
  | bool (value : Bool)
  deriving DecidableEq, Repr, Inhabited

namespace Constant

/-- Each kind of constant has a tag. -/
def codec : Codec Constant :=
  .cases
    [{ tag := 0, Payload := Int64, codec := .int64, build := .long
       payload? := fun | .long value => some value | _ => none },
     { tag := 1, Payload := UInt64, codec := .uint64, build := .float
       payload? := fun | .float bits => some bits | _ => none },
     { tag := 2, Payload := Char, codec := .char, build := .char
       payload? := fun | .char value => some value | _ => none },
     { tag := 3, Payload := Bool, codec := .bool, build := .bool
       payload? := fun | .bool value => some value | _ => none }]

end Constant

end RegisterMachine

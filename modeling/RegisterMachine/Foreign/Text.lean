-- Texts on the heap: an array with one character in each cell.
import RegisterMachine.Foreign.Script

namespace RegisterMachine.Script

variable {σ : Type}

/-- Reads `n` cells from `index` on, which must all hold characters. -/
def readChars (handle : Handle) : Nat → Nat → List Char → Script σ (Except Fault String)
  | _, 0, reversed => pure (.ok (String.ofList reversed.reverse))
  | index, n + 1, reversed => do
    match ← load handle (Int64.ofNat index) with
    | .error fault => pure (.error fault)
    | .ok value =>
      match value.asChar with
      | .error fault => pure (.error fault)
      | .ok c => readChars handle (index + 1) n (c :: reversed)

/-- Reads an array of characters as a text. -/
def readText (handle : Handle) : Script σ (Except Fault String) := do
  match ← limit handle with
  | .error fault => pure (.error fault)
  | .ok limit => readChars handle 0 limit []

/-- Writes characters from the cell `index` on. -/
def writeChars (handle : Handle) : Nat → List Char → Script σ (Except Fault Unit)
  | _, [] => pure (.ok ())
  | index, c :: cs => do
    match ← store handle (Int64.ofNat index) (.char c) with
    | .error fault => pure (.error fault)
    | .ok () => writeChars handle (index + 1) cs

/-- Makes an array that holds a text. -/
def writeText (text : String) : Script σ (Except Fault Handle) := do
  let cs := text.toList
  if UInt16.size ≤ cs.length then pure (.error .memory)
  else
    match ← allocate (UInt16.ofNat cs.length) .never with
    | .error fault => pure (.error fault)
    | .ok handle =>
      match ← writeChars handle 0 cs with
      | .error fault => pure (.error fault)
      | .ok () => pure (.ok handle)

end RegisterMachine.Script

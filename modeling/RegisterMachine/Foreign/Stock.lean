-- A stock of host functions for embedding and for trying programs out. The
-- state of the host counts the calls of each function.
import RegisterMachine.Foreign.Table
import RegisterMachine.Foreign.Text

namespace RegisterMachine.Stock

/-- The number of calls of each registered function, by its counter. -/
abbrev Counters := Array Nat

abbrev Body := Value → Script Counters Value

/-- Counts a call and gives the number of calls so far, this one included. -/
def countCall (counter : Nat) : Script Counters Nat := do
  let counters ← Script.getState
  let calls := counters[counter]?.getD 0 + 1
  Script.setState (counters.setIfInBounds counter calls)
  pure calls

/-- A request that makes the function fail when it has a fault. -/
def demand {α : Type} (script : Script Counters (Except Fault α)) : Script Counters α := do
  Script.ofExcept (← script)

/-- Applies `change` to a text on the heap and gives a new text. -/
def onText (change : List Char → List Char) : Body := fun input => do
  let handle ← Script.ofExcept input.asHandle
  let text ← demand (Script.readText handle)
  return .handle (← demand (Script.writeText (String.ofList (change text.toList))))

/-- The functions that do not need their counter. -/
def plain? : String → Option Body
  | "identity" => some pure
  | "double" => some fun input => return .long ((← Script.ofExcept input.asLong) * 2)
  | "sum2" => some fun input => do
    let handle ← Script.ofExcept input.asHandle
    let x ← Script.ofExcept (← demand (Script.load handle 0)).asLong
    let y ← Script.ofExcept (← demand (Script.load handle 1)).asLong
    return .long (x + y)
  | "typename" => some fun input => return .handle (← demand (Script.writeText input.kindName))
  | "reverse" => some (onText List.reverse)
  | "upper" => some (onText (List.map Char.toUpper))
  | "hello" => some fun _ => return .handle (← demand (Script.writeText "héllo wörld 🎉"))
  | "array" => some fun input => do
    let size ← Script.ofExcept input.asLong
    if 0 ≤ size.toInt ∧ size.toInt < UInt16.size then
      return .handle (← demand (Script.allocate (UInt16.ofNat size.toInt.toNat) .always))
    else .fail "size out of range"
  | "pair" => some fun input => do
    let handle ← demand (Script.allocate 2 .always)
    demand (Script.store handle 0 input)
    demand (Script.store handle 1 input)
    return .handle handle
  | "cancel" => some fun input => do
    Script.setHalt true
    return input
  | "fail" => some fun _ => .fail "the function always fails"
  | _ => none

/-- The functions that use the number of their calls. -/
def counting? : String → Option (Nat → Body)
  | "poke" => some fun calls input => do
    let handle ← Script.ofExcept input.asHandle
    demand (Script.store handle 0 (.long (Int64.ofNat calls)))
    return .long (Int64.ofNat (← demand (Script.limit handle)))
  | "counter" => some fun calls _ => return .long (Int64.ofNat calls)
  | _ => none

/-- The body of a stock function that counts its calls in `counter`. -/
def body? (name : String) (counter : Nat) : Option Body :=
  match counting? name with
  | some body => some fun input => do body (← countCall counter) input
  | none =>
    (plain? name).map fun body input => do
      let _ ← countCall counter
      body input

/-- A stock function. An unknown name gives a function that always fails. -/
def function (name : String) (counter : Nat) (arity : Option UInt16) : HostFunction Counters :=
  { arity, body := (body? name counter).getD fun _ => .fail "unknown function" }

/-- Finds the stock functions in the given libraries. -/
def resolve (libraries : List String) (counter : Nat) (library symbol : String) :
    Option (HostFunction Counters) :=
  if libraries.contains library then
    (body? symbol counter).map fun body => { body }
  else none

end RegisterMachine.Stock

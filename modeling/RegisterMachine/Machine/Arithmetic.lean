-- What the logic, equality, comparison and arithmetic instructions compute
-- from the values of their sources.
import RegisterMachine.Binary64.Basic
import RegisterMachine.Isa.Operation
import RegisterMachine.Value

namespace RegisterMachine

/-! ## Powers -/

/-- `result * base ^ n`, by squaring. -/
def powerFrom (result base : Int64) (n : Nat) : Int64 :=
  if n = 0 then result
  else powerFrom (if n % 2 = 1 then result * base else result) (base * base) (n / 2)

/-- A power that wraps. A negative exponent gives the quotient cut toward zero,
so that only the bases 1 and -1 give something other than zero. -/
def power (base exponent : Int64) : Int64 :=
  if exponent < 0 then
    if base = 1 then 1
    else if base = -1 then (if exponent % 2 = 0 then 1 else -1)
    else 0
  else powerFrom 1 base exponent.toInt.toNat

/-! ## Operations on values -/

/-- Two longs make a value. -/
def onLongs (f : Int64 → Int64 → Value) (x y : Value) : Except Fault Value := do
  return f (← x.asLong) (← y.asLong)

/-- Two longs, of which the second must not be zero, make a long. -/
def onDividedLongs (f : Int64 → Int64 → Int64) (x y : Value) : Except Fault Value := do
  let x ← x.asLong
  let y ← y.asLong
  if y = 0 then throw .divideByZero else return .long (f x y)

/-- Two floats make a value. -/
def onFloats (f : UInt64 → UInt64 → Value) (x y : Value) : Except Fault Value := do
  return f (← x.asFloat) (← y.asFloat)

/-- Two floats, of which the second must not be a zero, make a float. -/
def onDividedFloats (f : UInt64 → UInt64 → UInt64) (x y : Value) : Except Fault Value := do
  let x ← x.asFloat
  let y ← y.asFloat
  if Binary64.isZero y then throw .divideByZero else return .float (f x y)

namespace Operation

/-- The operations that make a value from one source. -/
def unary? : Operation → Option (Value → Except Fault Value)
  | .not => some fun x => return .bool (!(← x.asBool))
  | .longNegate => some fun x => return .long (-(← x.asLong))
  | .floatNegate => some fun x => return .float (Binary64.negate (← x.asFloat))
  | _ => none

/-- The operations that make a value from two sources. The second source of
`AND` and of `OR` is looked at only when the first does not decide. -/
def binary? : Operation → Option (Value → Value → Except Fault Value)
  | .and => some fun x y => do
    if ← x.asBool then return .bool (← y.asBool) else return .bool false
  | .or => some fun x y => do
    if ← x.asBool then return .bool true else return .bool (← y.asBool)
  | .boolEqual => some fun x y => do return .bool ((← x.asBool) == (← y.asBool))
  | .charEqual => some fun x y => do return .bool ((← x.asChar) == (← y.asChar))
  | .longEqual => some (onLongs fun x y => .bool (x == y))
  | .floatEqual => some (onFloats fun x y => .bool (Binary64.equal x y))
  | .longMore => some (onLongs fun x y => .bool (y < x))
  | .longLess => some (onLongs fun x y => .bool (x < y))
  | .longMoreEqual => some (onLongs fun x y => .bool (y ≤ x))
  | .longLessEqual => some (onLongs fun x y => .bool (x ≤ y))
  | .longAdd => some (onLongs fun x y => .long (x + y))
  | .longSubtract => some (onLongs fun x y => .long (x - y))
  | .longMultiply => some (onLongs fun x y => .long (x * y))
  | .longDivide => some (onDividedLongs (· / ·))
  | .longModulo => some (onDividedLongs (· % ·))
  | .longExponentiate => some (onLongs fun x y => .long (power x y))
  | .floatMore => some (onFloats fun x y => .bool (Binary64.less y x))
  | .floatLess => some (onFloats fun x y => .bool (Binary64.less x y))
  | .floatMoreEqual => some (onFloats fun x y => .bool (Binary64.lessEqual y x))
  | .floatLessEqual => some (onFloats fun x y => .bool (Binary64.lessEqual x y))
  | .floatAdd => some (onFloats fun x y => .float (Binary64.add x y))
  | .floatSubtract => some (onFloats fun x y => .float (Binary64.subtract x y))
  | .floatMultiply => some (onFloats fun x y => .float (Binary64.multiply x y))
  | .floatDivide => some (onDividedFloats Binary64.divide)
  | .floatModulo => some (onDividedFloats Binary64.remainder)
  | .floatExponentiate => some (onFloats fun x y => .float (Binary64.power x y))
  | _ => none

end Operation

end RegisterMachine

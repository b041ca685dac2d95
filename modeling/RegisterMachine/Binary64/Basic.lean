-- IEEE 754 doubles as their bits. A finite double is a whole number of
-- quanta of 2^-1074, so exact arithmetic on doubles is arithmetic on `Nat`.

namespace RegisterMachine.Binary64

/-- The bit in front of the fraction, which a double does not hold. -/
def leadingBit : Nat := 1 <<< 52

/-- The bits of positive infinity; the bits of a NaN are above them. -/
def infinityBits : Nat := 2047 * leadingBit

/-- The bits of the plain NaN. -/
def nan : UInt64 := 0x7FF8000000000000

def signBit : UInt64 := 0x8000000000000000

def isNegative (bits : UInt64) : Bool := bits &&& signBit != 0

/-- The bits without the sign. -/
def unsigned (bits : UInt64) : Nat := (bits &&& ~~~ signBit).toNat

def isNaN (bits : UInt64) : Bool := infinityBits < unsigned bits

def isInfinite (bits : UInt64) : Bool := unsigned bits == infinityBits

/-- Zero of either sign. -/
def isZero (bits : UInt64) : Bool := unsigned bits == 0

/-- Turns the sign. -/
def negate (bits : UInt64) : UInt64 := bits ^^^ signBit

/-- The bits with value `unsigned` and the given sign. -/
def withSign (negative : Bool) (unsigned : Nat) : UInt64 :=
  if negative then negate (UInt64.ofNat unsigned) else UInt64.ofNat unsigned

/-! ## The quanta of a finite double -/

/-- A finite double is `mantissa * 2 ^ shift` quanta. -/
def mantissa (bits : UInt64) : Nat :=
  let fraction := unsigned bits % leadingBit
  if unsigned bits < leadingBit then fraction else fraction + leadingBit

def shift (bits : UInt64) : Nat := unsigned bits / leadingBit - 1

/-- The size of a finite double in quanta. -/
def quanta (bits : UInt64) : Nat := mantissa bits <<< shift bits

/-- The unsigned bits of the double nearest to `num / den` quanta. A value
halfway between two doubles goes to the one with the even mantissa, and a
value past the largest double goes to infinity. -/
def roundQuanta (num den : Nat) : Nat :=
  let shift := (num / den).log2 - 52
  let unit := den <<< shift
  let floor := num / unit
  let rest := num % unit
  let up := unit < 2 * rest ∨ (unit = 2 * rest ∧ floor % 2 = 1)
  min (shift * leadingBit + if up then floor + 1 else floor) infinityBits

/-- The double nearest to an integer. -/
def ofInt (n : Int) : UInt64 :=
  withSign (n < 0) (roundQuanta (n.natAbs <<< 1074) 1)

/-! ## Arithmetic -/

/-- What is left of `x` after the most whole times `y` that go into it, with
the sign of `x`. The result is exact. -/
def remainder (x y : UInt64) : UInt64 :=
  if isNaN x || isNaN y || isInfinite x || isZero y then nan
  else if isInfinite y then x
  else withSign (isNegative x) (roundQuanta (quanta x % quanta y) 1)

def add (x y : UInt64) : UInt64 := (Float.ofBits x + Float.ofBits y).toBits

def subtract (x y : UInt64) : UInt64 := (Float.ofBits x - Float.ofBits y).toBits

def multiply (x y : UInt64) : UInt64 := (Float.ofBits x * Float.ofBits y).toBits

def divide (x y : UInt64) : UInt64 := (Float.ofBits x / Float.ofBits y).toBits

def power (x y : UInt64) : UInt64 := (Float.pow (Float.ofBits x) (Float.ofBits y)).toBits

/-- Equality of values: the zeros are equal, and a NaN equals nothing. -/
def equal (x y : UInt64) : Bool := Float.ofBits x == Float.ofBits y

def less (x y : UInt64) : Bool := Float.ofBits x < Float.ofBits y

def lessEqual (x y : UInt64) : Bool := Float.ofBits x ≤ Float.ofBits y

end RegisterMachine.Binary64

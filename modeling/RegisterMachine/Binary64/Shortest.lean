-- The shortest decimal of a double: the fewest digits that read back as the
-- same double, and of those the nearest to its value.
import RegisterMachine.Binary64.Basic

namespace RegisterMachine.Binary64

/-- The number `digits * 10 ^ exponent`. -/
structure Decimal where
  digits : Nat
  exponent : Int
  deriving DecidableEq, Repr, Inhabited

/-- The reals that round to a double, in quarters of a quantum: the value and
the two ends, which belong to the interval when `closed`. -/
structure Interval where
  low : Nat
  value : Nat
  high : Nat
  closed : Bool
  deriving DecidableEq, Repr, Inhabited

/-- Below a power of two the doubles lie twice as close as above it. -/
def interval (bits : UInt64) : Interval :=
  let gap := 1 <<< shift bits
  let value := 4 * quanta bits
  let below := if mantissa bits = leadingBit ∧ 0 < shift bits then gap else 2 * gap
  ⟨value - below, value, value + 2 * gap, mantissa bits % 2 = 0⟩

/-- The quarters of a quantum in one. -/
def quartersPerOne : Nat := 1 <<< 1076

/-- Whether `quarters` is below `10 ^ k`. -/
def belowPower (quarters : Nat) (k : Int) : Bool :=
  quarters * Nat.pow 10 (-k).toNat < quartersPerOne * Nat.pow 10 k.toNat

/-- The least `k` with the value below `10 ^ k`. The bits of the value leave
only two or three powers of ten to try, since `log10 2` is close to 0.30103. -/
def decimalMagnitude (quarters : Nat) : Int :=
  let guess := (((quarters.log2 : Int) - 1076) * 30103).fdiv 100000
  ([guess, guess + 1].find? (belowPower quarters)).getD (guess + 2)

/-- The decimal on the grid of step `10 ^ step` that lies in the interval: the
nearer of the two neighbours of the value, the upper one when both are as near. -/
def onGrid? (i : Interval) (step : Int) : Option Decimal :=
  let scale := Nat.pow 10 (-step).toNat
  let unit := quartersPerOne * Nat.pow 10 step.toNat
  let floor := i.value * scale / unit
  let inside (n : Nat) : Bool :=
    if i.closed then i.low * scale ≤ n * unit && n * unit ≤ i.high * scale
    else i.low * scale < n * unit && n * unit < i.high * scale
  let floorIsNearer := i.value * scale - floor * unit < (floor + 1) * unit - i.value * scale
  if inside floor && (floorIsNearer || !inside (floor + 1)) then some ⟨floor, step⟩
  else if inside (floor + 1) then some ⟨floor + 1, step⟩
  else none

/-- The exact decimal of a finite double: a quantum is `5 ^ 1074 * 10 ^ -1074`. -/
def exactDecimal (bits : UInt64) : Decimal := ⟨quanta bits * Nat.pow 5 1074, -1074⟩

/-- The shortest decimal of a finite double other than zero. Seventeen digits
are always enough, and the exact decimal would do if they were not. -/
def shortest (bits : UInt64) : Decimal :=
  let i := interval bits
  let k := decimalMagnitude i.value
  ((List.range 17).findSome? fun n => onGrid? i (k - (n + 1 : Nat))).getD (exactDecimal bits)

end RegisterMachine.Binary64

-- Doubles as text: how the listing writes them and how the assembler reads
-- them.
import RegisterMachine.Text.Numeral
import RegisterMachine.Binary64.Shortest

namespace RegisterMachine.Binary64

/-! ## Writing -/

/-- Without zeros at the end. -/
def trimZeros (digits : List Char) : List Char :=
  (digits.reverse.dropWhile (· == '0')).reverse

/-- The digits with the point behind the first `point` of them, and at least
one digit on each side of it. -/
def positional (digits : List Char) (point : Int) : List Char :=
  if point ≤ 0 then
    '0' :: '.' :: (List.replicate (-point).toNat '0' ++ digits)
  else
    let whole := digits.take point.toNat
    let zeros := List.replicate (point.toNat - whole.length) '0'
    let fraction := digits.drop point.toNat
    whole ++ zeros ++ '.' :: (if fraction.isEmpty then ['0'] else fraction)

/-- One digit, the others behind a point, and the power of ten. -/
def scientific (digits : List Char) (exponent : Int) : List Char :=
  let fraction := match digits.drop 1 with
    | [] => []
    | rest => '.' :: rest
  digits.take 1 ++ fraction ++ 'e' :: (toString exponent).toList

/-- Numbers from 0.0001 up to 10^16 are written positionally, the others with
a power of ten. -/
def renderDecimal (decimal : Decimal) : List Char :=
  let all := (toString decimal.digits).toList
  let digits := trimZeros all
  let point := all.length + decimal.exponent
  if -4 < point ∧ point ≤ 16 then positional digits point
  else scientific digits (point - 1)

/-- The shortest text that reads back as the double. -/
def render (bits : UInt64) : String :=
  if isNaN bits then "NaN"
  else
    let sign := if isNegative bits then "-" else ""
    if isInfinite bits then sign ++ "inf"
    else if isZero bits then sign ++ "0.0"
    else sign ++ String.ofList (renderDecimal (shortest bits))

/-! ## Reading -/

/-- The unsigned bits of the double nearest to a decimal. A power of ten from
310 on is past every double. A decimal with so few bits beside its power of ten
that it is below `10 ^ -330` is nearer to zero than to any other double. -/
def roundDecimal (decimal : Decimal) : Nat :=
  if decimal.digits = 0 ∨ (decimal.digits.log2 : Int) < 3 * (-decimal.exponent - 330) then 0
  else if 310 ≤ decimal.exponent then infinityBits
  else roundQuanta ((decimal.digits * Nat.pow 10 decimal.exponent.toNat) <<< 1074)
    (Nat.pow 10 (-decimal.exponent).toNat)

/-- The power of ten in a run of digits, read after the digits with value
`acc`. It grows until it reaches `0x10000`; digits after that must be digits,
but do not count. -/
def powerFrom? (acc : Nat) : List Char → Option Nat
  | [] => some acc
  | c :: cs =>
    match Numeral.digit? c with
    | some d => powerFrom? (if acc < 0x10000 then 10 * acc + d else acc) cs
    | none => none

/-- The power of ten in a non-empty run of digits. -/
def power? : List Char → Option Nat
  | [] => none
  | cs => powerFrom? 0 cs

/-- The power of ten behind the digits: none, or `e` and a signed numeral. -/
def readExponent? : List Char → Option Int
  | [] => some 0
  | c :: rest =>
    if c = 'e' ∨ c = 'E' then
      match rest with
      | '-' :: digits => (power? digits).map fun n => -(n : Int)
      | '+' :: digits => (power? digits).map fun n => (n : Int)
      | digits => (power? digits).map fun n => (n : Int)
    else none

/-- Digits with a point among them or none, then a power of ten or none. -/
def readDecimal? (cs : List Char) : Option Decimal :=
  let isDigit (c : Char) : Bool := (Numeral.digit? c).isSome
  let whole := cs.takeWhile isDigit
  let afterWhole := cs.dropWhile isDigit
  let (fraction, rest) := match afterWhole with
    | '.' :: more => (more.takeWhile isDigit, more.dropWhile isDigit)
    | more => ([], more)
  let digits := (whole ++ fraction).filterMap Numeral.digit?
  if digits.isEmpty then none
  else
    (readExponent? rest).map fun exponent =>
      ⟨Numeral.ofDigits digits, exponent - fraction.length⟩

/-- A number without its sign; the words for infinity and NaN are read in any
case. -/
def readUnsigned? (cs : List Char) : Option Nat :=
  match readDecimal? cs with
  | some decimal => some (roundDecimal decimal)
  | none =>
    let word := String.ofList (cs.map Char.toLower)
    if word = "inf" ∨ word = "infinity" then some infinityBits
    else if word = "nan" then some nan.toNat
    else none

/-- The double that a text stands for, with one sign in front or none. -/
def read? : List Char → Option UInt64
  | '-' :: cs => (readUnsigned? cs).map (withSign true)
  | '+' :: cs => (readUnsigned? cs).map (withSign false)
  | cs => (readUnsigned? cs).map (withSign false)

end RegisterMachine.Binary64

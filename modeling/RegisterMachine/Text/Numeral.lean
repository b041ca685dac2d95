-- Numbers in text: decimal numerals as the assembler and the command line
-- read them, and hexadecimal numerals as the listings write them.

namespace RegisterMachine.Numeral

/-! ## Reading -/

/-- The value of an ASCII decimal digit. -/
def digit? (c : Char) : Option Nat :=
  if '0' ≤ c ∧ c ≤ '9' then some (c.toNat - '0'.toNat) else none

/-- The value of a run of digits, read after the digits with value `acc`. It
only grows with every digit, so it is given up once it reaches `bound`. -/
def digitsFrom? (bound acc : Nat) : List Char → Option Nat
  | [] => some acc
  | c :: cs =>
    match digit? c with
    | some d => if 10 * acc + d < bound then digitsFrom? bound (10 * acc + d) cs else none
    | none => none

/-- The value of a non-empty run of digits, if it is below `bound`. -/
def digits? (bound : Nat) : List Char → Option Nat
  | [] => none
  | cs => digitsFrom? bound 0 cs

/-- A numeral below `bound`: digits, with a plus sign in front of them or none. -/
def unsigned? (bound : Nat) : List Char → Option Nat
  | '+' :: rest => digits? bound rest
  | rest => digits? bound rest

/-- A numeral in the range of a signed word of which `bound` is the half:
digits, with one sign in front of them or none. -/
def signed? (bound : Nat) : List Char → Option Int
  | '-' :: rest => (digits? (bound + 1) rest).map fun n => -(n : Int)
  | rest => (unsigned? bound rest).map fun n => (n : Int)

def uint16? (cs : List Char) : Option UInt16 :=
  (unsigned? UInt16.size cs).map UInt16.ofNat

def uint32? (cs : List Char) : Option UInt32 :=
  (unsigned? UInt32.size cs).map UInt32.ofNat

/-- A size of the host: an unsigned numeral of 64 bits. -/
def size? (cs : List Char) : Option Nat :=
  unsigned? UInt64.size cs

def int16? (cs : List Char) : Option Int16 :=
  (signed? (UInt16.size / 2) cs).map Int16.ofInt

def int64? (cs : List Char) : Option Int64 :=
  (signed? (UInt64.size / 2) cs).map Int64.ofInt

/-! ## Long numbers -/

/-- The number that a list of digits stands for, the first one counting most.
A long list is read by halves, which takes far fewer steps than digit by digit. -/
def ofDigits (digits : List Nat) : Nat :=
  if digits.length ≤ 16 then digits.foldl (fun n d => 10 * n + d) 0
  else
    let half := digits.length / 2
    ofDigits (digits.take half) * Nat.pow 10 (digits.length - half) + ofDigits (digits.drop half)
termination_by digits.length
decreasing_by
  · rw [List.length_take]; omega
  · rw [List.length_drop]; omega

/-- Digits in front of others count by a power of ten. -/
theorem foldl_digits (digits : List Nat) (n : Nat) :
    digits.foldl (fun n d => 10 * n + d) n
      = n * Nat.pow 10 digits.length + digits.foldl (fun n d => 10 * n + d) 0 := by
  induction digits generalizing n with
  | nil => simp
  | cons d ds ih =>
    have hPower : (10 * n + d) * Nat.pow 10 ds.length
        = n * Nat.pow 10 (d :: ds).length + d * Nat.pow 10 ds.length := by
      rw [Nat.add_mul, List.length_cons, Nat.pow_eq, Nat.pow_eq, Nat.pow_succ', Nat.mul_comm 10 n,
        Nat.mul_assoc]
    rw [List.foldl_cons, List.foldl_cons, ih (10 * n + d), ih (10 * 0 + d), hPower, Nat.mul_zero,
      Nat.zero_add, Nat.add_assoc]

/-- Reading by halves gives what reading digit by digit gives. -/
theorem ofDigits_eq_foldl (digits : List Nat) :
    ofDigits digits = digits.foldl (fun n d => 10 * n + d) 0 := by
  fun_induction ofDigits digits with
  | case1 => rfl
  | case2 digits _ half ihTake ihDrop =>
    have hSplit : digits.foldl (fun n d => 10 * n + d) 0
        = (digits.drop half).foldl (fun n d => 10 * n + d)
          ((digits.take half).foldl (fun n d => 10 * n + d) 0) := by
      rw [← List.foldl_append, List.take_append_drop]
    rw [hSplit, foldl_digits (digits.drop half), List.length_drop, ihTake, ihDrop]

/-! ## Writing -/

/-- The hexadecimal digits of `n`, at least `width` of them. -/
def hex (width n : Nat) : String :=
  let digits := Nat.toDigits 16 n
  String.ofList (List.replicate (width - digits.length) '0' ++ digits)

end RegisterMachine.Numeral

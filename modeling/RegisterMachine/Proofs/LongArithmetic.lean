-- Long arithmetic as arithmetic of the integers. A long operation gives the exact integer result,
-- wrapped into a long; this holds for a power as well, whose squarings wrap on the way.
import RegisterMachine.Machine.Arithmetic
import Mathlib.Algebra.Group.Int.Even
import Mathlib.Algebra.Ring.Parity
import Mathlib.Tactic.Ring

namespace RegisterMachine

/-! ## Sums, products and quotients -/

section Exact

variable (x y : Int64)

theorem long_add_eq : x + y = Int64.ofInt (x.toInt + y.toInt) := by
  rw [Int64.ofInt_add, Int64.ofInt_toInt, Int64.ofInt_toInt]

theorem long_sub_eq : x - y = Int64.ofInt (x.toInt - y.toInt) := by
  rw [Int64.ofInt_sub, Int64.ofInt_toInt, Int64.ofInt_toInt]

theorem long_mul_eq : x * y = Int64.ofInt (x.toInt * y.toInt) := by
  rw [Int64.ofInt_mul, Int64.ofInt_toInt, Int64.ofInt_toInt]

theorem long_neg_eq : -x = Int64.ofInt (-x.toInt) := by
  rw [Int64.ofInt_neg, Int64.ofInt_toInt]

theorem long_div_eq : x / y = Int64.ofInt (x.toInt.tdiv y.toInt) := by
  apply Int64.toInt_inj.mp
  rw [Int64.toInt_div, Int64.toInt_ofInt]

theorem long_mod_eq : x % y = Int64.ofInt (x.toInt.tmod y.toInt) := by
  rw [← Int64.toInt_mod, Int64.ofInt_toInt]

end Exact

/-! ## Powers -/

/-- `base ^ exponent`, cut toward zero when the exponent is negative; no part of it is left then
for the base zero. -/
def cutPower (base exponent : Int) : Int :=
  if 0 ≤ exponent then base ^ exponent.toNat else Int.tdiv 1 (base ^ (-exponent).toNat)

/-- Squaring wraps, but what it leaves of the power is the same modulo the size of a long. -/
theorem powerFrom_ofInt (result base : Int) (n : Nat) :
    powerFrom (Int64.ofInt result) (Int64.ofInt base) n = Int64.ofInt (result * base ^ n) := by
  induction n using Nat.strongRecOn generalizing result base with
  | _ n ih =>
    unfold powerFrom
    split
    · rename_i hZero
      rw [hZero, pow_zero, mul_one]
    · rename_i hPos
      have hHalf : n / 2 < n := Nat.div_lt_self (Nat.pos_of_ne_zero hPos) one_lt_two
      rw [← Int64.ofInt_mul, ← Int64.ofInt_mul]
      split
      · rename_i hOdd
        rw [ih _ hHalf]
        have hSplit : n = 2 * (n / 2) + 1 := by omega
        conv_rhs => rw [hSplit, pow_succ, pow_mul, pow_two]
        ring_nf
      · rename_i hEven
        rw [ih _ hHalf]
        have hSplit : n = 2 * (n / 2) := by omega
        conv_rhs => rw [hSplit, pow_mul, pow_two]

/-- What is left of the inverse of a power, unless its base has an inverse. -/
theorem tdiv_pow_eq_zero {base : Int} (hOne : base ≠ 1) (hMinus : base ≠ -1) {n : Nat}
    (hPos : n ≠ 0) : Int.tdiv 1 (base ^ n) = 0 := by
  apply Int.natAbs_eq_zero.mp
  rw [Int.natAbs_tdiv, Int.natAbs_pow]
  apply Nat.div_eq_zero_iff.mpr
  rcases Nat.eq_zero_or_pos base.natAbs with hZero | hBase
  · left
    rw [hZero, zero_pow hPos]
  · right
    apply Nat.one_lt_pow hPos
    omega

/-- The remainder of a negative number by two is not one, but it tells the parity all the same. -/
theorem long_mod_two {x : Int64} : x % 2 = 0 ↔ Even x.toInt := by
  rw [← Int64.toInt_inj, Int64.toInt_mod, Int.even_iff]
  change x.toInt.tmod 2 = 0 ↔ x.toInt % 2 = 0
  rw [← Int.dvd_iff_tmod_eq_zero, Int.dvd_iff_emod_eq_zero]

theorem cutPower_of_neg {base exponent : Int} (h : exponent < 0) :
    cutPower base exponent =
      if base = 1 then 1 else if base = -1 then (if Even exponent then 1 else -1) else 0 := by
  have hNeg : ¬ 0 ≤ exponent := Int.not_le.mpr h
  have hPos : (-exponent).toNat ≠ 0 := by omega
  unfold cutPower
  rw [if_neg hNeg]
  split
  · simp [*]
  · split
    · rename_i hBase
      have hParity : Even (-exponent).toNat ↔ Even exponent := by
        rw [Nat.even_iff, Int.even_iff]
        omega
      rw [hBase]
      split
      · rename_i hEven
        rw [(hParity.mpr hEven).neg_one_pow]
        rfl
      · rename_i hOdd
        rw [(Nat.not_even_iff_odd.mp (mt hParity.mp hOdd)).neg_one_pow]
        rfl
    · rename_i hOne hMinus
      exact tdiv_pow_eq_zero hOne hMinus hPos

/-- The power of two longs is the power of the integers that they stand for. -/
theorem power_eq (base exponent : Int64) :
    power base exponent = Int64.ofInt (cutPower base.toInt exponent.toInt) := by
  unfold power
  split
  · rename_i hNeg
    rw [cutPower_of_neg (Int64.lt_iff_toInt_lt.mp hNeg)]
    have hOne : base = 1 ↔ base.toInt = 1 := Int64.toInt_inj.symm
    have hMinus : base = -1 ↔ base.toInt = -1 := Int64.toInt_inj.symm
    simp only [hOne, hMinus, long_mod_two]
    split
    · rfl
    · split
      · split <;> rfl
      · rfl
  · rename_i hNonneg
    have hExponent : 0 ≤ exponent.toInt := by
      rw [Int64.lt_iff_toInt_lt] at hNonneg
      exact Int.not_lt.mp hNonneg
    unfold cutPower
    rw [if_pos hExponent]
    calc powerFrom 1 base exponent.toInt.toNat
        = powerFrom (Int64.ofInt 1) (Int64.ofInt base.toInt) exponent.toInt.toNat := by
          rw [Int64.ofInt_toInt]
          rfl
      _ = Int64.ofInt (1 * base.toInt ^ exponent.toInt.toNat) := powerFrom_ofInt _ _ _
      _ = Int64.ofInt (base.toInt ^ exponent.toInt.toNat) := by rw [one_mul]

end RegisterMachine

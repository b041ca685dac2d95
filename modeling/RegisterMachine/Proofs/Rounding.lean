-- Rounding a decimal to the nearest double. Each double other than zero and infinity has an
-- interval of numbers that round to it; whatever lies in the interval is rounded to the
-- double, and the shortest decimal of the double lies in it.
import Mathlib.Algebra.Order.Field.Power
import Mathlib.Data.Rat.Lemmas
import Mathlib.Tactic.FieldSimp
import Mathlib.Tactic.Linarith
import Mathlib.Tactic.NormNum
import Mathlib.Tactic.Ring
import RegisterMachine.Binary64.Text

namespace RegisterMachine.Binary64

/-! ## The parts of a double -/

theorem leadingBit_eq : leadingBit = 4503599627370496 := rfl

theorem infinityBits_eq : infinityBits = 9218868437227405312 := rfl

theorem mantissa_eq (bits : UInt64) :
    mantissa bits = if unsigned bits < leadingBit then unsigned bits % leadingBit
      else unsigned bits % leadingBit + leadingBit := rfl

/-- The unsigned bits count the doubles from zero on. -/
theorem unsigned_eq (bits : UInt64) :
    unsigned bits = shift bits * leadingBit + mantissa bits := by
  unfold shift
  rw [mantissa_eq, leadingBit_eq]
  split <;> omega

theorem mantissa_lt (bits : UInt64) : mantissa bits < 2 * leadingBit := by
  rw [mantissa_eq, leadingBit_eq]
  split <;> omega

theorem leadingBit_le_mantissa {bits : UInt64} (h : 0 < shift bits) :
    leadingBit ≤ mantissa bits := by
  unfold shift at h
  rw [mantissa_eq]
  rw [leadingBit_eq] at h ⊢
  split <;> omega

theorem mantissa_pos {bits : UInt64} (h : 0 < unsigned bits) : 0 < mantissa bits := by
  rw [mantissa_eq, leadingBit_eq]
  split <;> omega

theorem shift_lt {bits : UInt64} (h : unsigned bits < infinityBits) : shift bits < 2046 := by
  unfold shift
  rw [infinityBits_eq] at h
  rw [leadingBit_eq]
  omega

/-! ## Rounding -/

theorem log2_sub_eq {x shift : Nat} (hLow : 0 < shift → 2 ^ (shift + 52) ≤ x)
    (hHigh : x < 2 ^ (shift + 53)) : x.log2 - 52 = shift := by
  by_cases hZero : x = 0
  · subst hZero
    have hShift : shift = 0 := by
      by_contra hNot
      exact absurd (hLow (Nat.pos_of_ne_zero hNot)) (Nat.not_le.2 (Nat.two_pow_pos _))
    rw [hShift, Nat.log2_zero]
  · have hUpper : x.log2 < shift + 53 := (Nat.log2_lt hZero).2 hHigh
    by_cases hShift : 0 < shift
    · have hLower : shift + 52 ≤ x.log2 := (Nat.le_log2 hZero).2 (hLow hShift)
      omega
    · omega

/-- A mantissa has 53 bits: the unit is chosen so that the number has as many units, or it is
a quantum. -/
theorem shift_eq {num den shift unit : Nat} (hDen : 0 < den) (hUnit : unit = 2 ^ shift * den)
    (hLow : 0 < shift → leadingBit * unit ≤ num) (hHigh : num < 2 * (leadingBit * unit)) :
    (num / den).log2 - 52 = shift := by
  apply log2_sub_eq
  · intro hShift
    rw [Nat.le_div_iff_mul_le hDen]
    calc 2 ^ (shift + 52) * den = leadingBit * unit := by
          rw [hUnit, leadingBit_eq]
          ring
      _ ≤ num := hLow hShift
  · rw [Nat.div_lt_iff_lt_mul hDen]
    calc num < 2 * (leadingBit * unit) := hHigh
      _ = 2 ^ (shift + 53) * den := by
          rw [hUnit, leadingBit_eq]
          ring

/-- A number of quanta within half a unit of `n` units is rounded to `n` units; one that is
half a unit away is, if `n` is even. -/
theorem roundQuanta_eq {num den shift n unit : Nat} (hDen : 0 < den)
    (hUnit : unit = 2 ^ shift * den) (hLeast : 0 < shift → leadingBit * unit ≤ num)
    (hMost : num < 2 * (leadingBit * unit))
    (hLow : 2 * (n * unit) ≤ 2 * num + unit) (hHigh : 2 * num ≤ 2 * (n * unit) + unit)
    (hTie : n % 2 = 1 → 2 * (n * unit) < 2 * num + unit ∧ 2 * num < 2 * (n * unit) + unit) :
    roundQuanta num den = min (shift * leadingBit + n) infinityBits := by
  have hShift := shift_eq hDen hUnit hLeast hMost
  have hShifted : den <<< shift = unit := by rw [hUnit, Nat.shiftLeft_eq, Nat.mul_comm]
  have hPos : 0 < unit := by
    rw [hUnit]
    exact Nat.mul_pos (Nat.two_pow_pos shift) hDen
  have hSplit := Nat.div_add_mod' num unit
  have hRest := Nat.mod_lt num hPos
  have hNearest : (if unit < 2 * (num % unit) ∨ unit = 2 * (num % unit) ∧ num / unit % 2 = 1
      then num / unit + 1 else num / unit) = n := by
    by_cases hBelow : num < n * unit
    · obtain ⟨k, hk⟩ : ∃ k, n = k + 1 := Nat.exists_eq_succ_of_ne_zero (by rintro rfl; omega)
      have hProduct : n * unit = k * unit + unit := by rw [hk, Nat.succ_mul]
      have hFloor : num / unit = k :=
        Nat.div_eq_of_lt_le (by omega) (by rw [← hk]; exact hBelow)
      rw [hFloor] at hSplit ⊢
      split <;> omega
    · have hFloor : num / unit = n :=
        Nat.div_eq_of_lt_le (by omega) (by rw [Nat.succ_mul]; omega)
      rw [hFloor] at hSplit ⊢
      split <;> omega
  unfold roundQuanta
  simp only [hShift, hShifted, hNearest]

/-! ## Intervals -/

/-- A number of quarters of a quantum lies in the interval. -/
structure Interval.Holds (i : Interval) (quarters : ℚ) : Prop where
  low : i.low ≤ quarters
  high : quarters ≤ i.high
  inner : i.closed = false → i.low < quarters ∧ quarters < i.high

/-- The interval of a double, by the cases of its lower end. -/
theorem interval_cases (bits : UInt64) :
    (interval bits).high = 4 * (mantissa bits * 2 ^ shift bits) + 2 * 2 ^ shift bits ∧
      (mantissa bits % 2 = 1 → (interval bits).closed = false) ∧
      (mantissa bits = leadingBit ∧ 0 < shift bits ∧
          (interval bits).low = 4 * (mantissa bits * 2 ^ shift bits) - 2 ^ shift bits ∨
        ¬ (mantissa bits = leadingBit ∧ 0 < shift bits) ∧
          (interval bits).low = 4 * (mantissa bits * 2 ^ shift bits) - 2 * 2 ^ shift bits) := by
  unfold interval quanta
  simp only [Nat.shiftLeft_eq, Nat.one_mul, decide_eq_false_iff_not]
  refine ⟨trivial, by omega, ?_⟩
  split
  · rename_i h
    exact .inl ⟨h.1, h.2, rfl⟩
  · rename_i h
    exact .inr ⟨h, rfl⟩

theorem Interval.holds_div_iff {i : Interval} {num den : Nat} (hDen : 0 < den) :
    i.Holds (num / den) ↔ i.low * den ≤ num ∧ num ≤ i.high * den ∧
      (i.closed = false → i.low * den < num ∧ num < i.high * den) := by
  have hPos : (0 : ℚ) < den := by exact_mod_cast hDen
  have hLe : ∀ n : Nat, (n : ℚ) ≤ num / den ↔ n * den ≤ num := by
    intro n
    rw [le_div_iff₀ hPos]
    exact_mod_cast Iff.rfl
  have hGe : ∀ n : Nat, (num / den : ℚ) ≤ n ↔ num ≤ n * den := by
    intro n
    rw [div_le_iff₀ hPos]
    exact_mod_cast Iff.rfl
  have hLt : ∀ n : Nat, (n : ℚ) < num / den ↔ n * den < num := by
    intro n
    rw [← not_le, hGe, not_le]
  have hGt : ∀ n : Nat, (num / den : ℚ) < n ↔ num < n * den := by
    intro n
    rw [← not_le, hLe, not_le]
  constructor
  · intro h
    refine ⟨(hLe _).1 h.low, (hGe _).1 h.high, ?_⟩
    intro hOpen
    exact ⟨(hLt _).1 (h.inner hOpen).1, (hGt _).1 (h.inner hOpen).2⟩
  · rintro ⟨hLow, hHigh, hInner⟩
    refine ⟨(hLe _).2 hLow, (hGe _).2 hHigh, ?_⟩
    intro hOpen
    exact ⟨(hLt _).2 (hInner hOpen).1, (hGt _).2 (hInner hOpen).2⟩

/-- What lies in the interval of a double is rounded to the double. -/
theorem roundQuanta_of_holds {bits : UInt64} {num den : Nat} (hPos : 0 < unsigned bits)
    (hFinite : unsigned bits < infinityBits) (hDen : 0 < den)
    (h : (interval bits).Holds ((4 * num : Nat) / den)) :
    roundQuanta num den = unsigned bits := by
  obtain ⟨hLow, hHigh, hInner⟩ := (Interval.holds_div_iff hDen).1 h
  obtain ⟨hEnd, hOpen, hCases⟩ := interval_cases bits
  have hBits := unsigned_eq bits
  have hMantissa := mantissa_pos hPos
  have hSmall := mantissa_lt bits
  have hNormal := @leadingBit_le_mantissa bits
  generalize mantissa bits = m at *
  generalize shift bits = s at *
  -- The unit in which the mantissa counts, in terms of the denominator.
  obtain ⟨unit, hUnit⟩ : ∃ unit, unit = 2 ^ s * den := ⟨_, rfl⟩
  have hUnitPos : 0 < unit := by
    rw [hUnit]
    exact Nat.mul_pos (Nat.two_pow_pos s) hDen
  have hLeast : unit ≤ m * unit := Nat.le_mul_of_pos_left unit hMantissa
  have hMost : m * unit + unit ≤ 2 * (leadingBit * unit) := by
    rw [← Nat.succ_mul, ← Nat.mul_assoc]
    exact Nat.mul_le_mul_right unit hSmall
  have hTop : (interval bits).high * den = 4 * (m * unit) + 2 * unit := by
    rw [hEnd, hUnit]
    ring
  rw [hTop] at hHigh hInner
  have hResult : ∀ t n, t * leadingBit + n = unsigned bits →
      min (t * leadingBit + n) infinityBits = unsigned bits := by
    intro t n hEq
    rw [hEq, Nat.min_eq_left (Nat.le_of_lt hFinite)]
  rcases hCases with ⟨rfl, hShift, hBottom⟩ | ⟨hOther, hBottom⟩
  · have hBelow : (interval bits).low * den + unit = 4 * (leadingBit * unit) := by
      have hSum : (interval bits).low + 2 ^ s = 4 * (leadingBit * 2 ^ s) := by
        rw [hBottom, leadingBit_eq]
        omega
      rw [hUnit, ← Nat.add_mul, hSum]
      ring
    by_cases hAbove : leadingBit * unit ≤ num
    · rw [roundQuanta_eq (n := leadingBit) hDen hUnit (fun _ => hAbove) (by omega) (by omega)
        (by omega) (fun hOdd => absurd hOdd (by rw [leadingBit_eq]; decide))]
      exact hResult s leadingBit hBits.symm
    · -- Below the power of two the units are half as large, and the double is `2 ^ 53` of them.
      obtain ⟨t, rfl⟩ : ∃ t, s = t + 1 := Nat.exists_eq_succ_of_ne_zero (by omega)
      obtain ⟨half, hHalf⟩ : ∃ half, half = 2 ^ t * den := ⟨_, rfl⟩
      have hDouble : unit = 2 * half := by
        rw [hUnit, hHalf]
        ring
      have hUnits : leadingBit * unit = 2 * (leadingBit * half) := by
        rw [hDouble]
        ring
      rw [roundQuanta_eq (n := 2 * leadingBit) hDen hHalf (by omega) (by omega)
        (by rw [Nat.mul_assoc]; omega) (by rw [Nat.mul_assoc]; omega) (by omega)]
      apply hResult
      rw [hBits, Nat.add_mul]
      omega
  · have hBelow : (interval bits).low * den + 2 * unit = 4 * (m * unit) := by
      have hSum : (interval bits).low + 2 * 2 ^ s = 4 * (m * 2 ^ s) := by
        rw [hBottom]
        have := Nat.le_mul_of_pos_left (2 ^ s) hMantissa
        omega
      rw [hUnit, ← Nat.mul_assoc, ← Nat.add_mul, hSum]
      ring
    have hAbove : 0 < s → leadingBit * unit ≤ num := by
      intro hShift
      have hMore : leadingBit + 1 ≤ m := by
        have := hNormal hShift
        omega
      have hUnits := Nat.mul_le_mul_right unit hMore
      rw [Nat.succ_mul] at hUnits
      omega
    have hTie : m % 2 = 1 → 2 * (m * unit) < 2 * num + unit ∧ 2 * num < 2 * (m * unit) + unit := by
      intro hOdd
      have := hInner (hOpen hOdd)
      omega
    rw [roundQuanta_eq (n := m) hDen hUnit hAbove (by omega) (by omega) (by omega) hTie]
    exact hResult s m hBits.symm

/-! ## Decimals -/

/-- The number that a decimal stands for. -/
def Decimal.value (decimal : Decimal) : ℚ := decimal.digits * 10 ^ decimal.exponent

theorem Decimal.digits_ne_zero {decimal : Decimal} {bound : Int}
    (h : (10 : ℚ) ^ bound < decimal.value) : decimal.digits ≠ 0 := by
  intro hZero
  unfold Decimal.value at h
  rw [hZero, Nat.cast_zero, zero_mul] at h
  exact absurd h (not_lt.2 (zpow_nonneg (by decide) bound))

/-- A power of ten as a fraction of two powers, one of which is 1. -/
theorem ten_zpow (e : Int) :
    (10 : ℚ) ^ e = (10 ^ e.toNat : Nat) / (10 ^ (-e).toNat : Nat) := by
  rcases e with n | n
  · have hNegative : (-Int.ofNat n).toNat = 0 := Int.toNat_eq_zero.2 (by simp)
    rw [hNegative]
    simp
  · have hPositive : (Int.negSucc n).toNat = 0 := rfl
    have hNegative : (-Int.negSucc n).toNat = n + 1 := rfl
    rw [hPositive, hNegative, zpow_negSucc]
    simp

theorem pow_ten_pos (k : Nat) : 0 < Nat.pow 10 k := Nat.pow_pos (by decide)

/-- A decimal in quarters of a quantum, as a fraction of whole numbers. -/
theorem Decimal.quarters_eq (decimal : Decimal) :
    decimal.value * quartersPerOne
      = (decimal.digits * (quartersPerOne * Nat.pow 10 decimal.exponent.toNat) : Nat)
        / (Nat.pow 10 (-decimal.exponent).toNat : Nat) := by
  unfold Decimal.value
  rw [ten_zpow, Nat.pow_eq, Nat.pow_eq]
  push_cast
  ring

/-- The fraction that is rounded is in quanta. -/
theorem four_mul_shiftLeft (n : Nat) : 4 * (n <<< 1074) = n * quartersPerOne := by
  have hShift : ∀ k, 4 * (n <<< k) = n * 1 <<< (k + 2) := by
    intro k
    rw [Nat.shiftLeft_eq, Nat.shiftLeft_eq, Nat.pow_add]
    ring
  exact hShift 1074

/-- The interval of a finite double other than zero has positive numbers only, none of them
past `2 ^ 1024`. -/
theorem interval_bounds {bits : UInt64} (hPos : 0 < unsigned bits)
    (hFinite : unsigned bits < infinityBits) :
    1 ≤ (interval bits).low ∧ (interval bits).high ≤ 2 ^ 1024 * quartersPerOne := by
  obtain ⟨hEnd, -, hCases⟩ := interval_cases bits
  have hSmall := mantissa_lt bits
  have hGap : 0 < 2 ^ shift bits := Nat.two_pow_pos _
  have hLeast := Nat.le_mul_of_pos_left (2 ^ shift bits) (mantissa_pos hPos)
  have hShift : shift bits ≤ 2045 := Nat.le_of_lt_succ (shift_lt hFinite)
  have hPower := Nat.pow_le_pow_right Nat.two_pos hShift
  refine ⟨by omega, ?_⟩
  have hProduct := Nat.mul_le_mul (by omega : 4 * mantissa bits + 2 ≤ 8 * leadingBit) hPower
  rw [hEnd, ← Nat.mul_assoc, ← Nat.add_mul]
  exact Nat.le_trans hProduct (by decide +kernel)

theorem value_bounds_of_holds {bits : UInt64} {x : ℚ} (hPos : 0 < unsigned bits)
    (hFinite : unsigned bits < infinityBits)
    (h : (interval bits).Holds (x * quartersPerOne)) :
    (10 : ℚ) ^ (-330 : Int) < x ∧ x < (10 : ℚ) ^ (310 : Int) := by
  obtain ⟨hLow, hHigh⟩ := interval_bounds hPos hFinite
  have hQuarters : (0 : ℚ) < quartersPerOne := by
    exact_mod_cast (by decide +kernel : 0 < quartersPerOne)
  constructor
  · have hOne : 1 ≤ x * quartersPerOne := le_trans (by exact_mod_cast hLow) h.low
    have hPower : quartersPerOne < 10 ^ 330 := by decide +kernel
    have hNear : (quartersPerOne : ℚ) < (10 : ℚ) ^ 330 := by exact_mod_cast hPower
    have hPositive : (0 : ℚ) < (10 : ℚ) ^ 330 := by positivity
    have hx : 0 < x := by
      by_contra hNot
      have := mul_nonpos_of_nonpos_of_nonneg (not_lt.1 hNot) hQuarters.le
      linarith
    have hProduct := mul_lt_mul_of_pos_left hNear hx
    rw [zpow_neg, inv_lt_iff_one_lt_mul₀ (by positivity)]
    calc (1 : ℚ) ≤ x * quartersPerOne := hOne
      _ < x * 10 ^ 330 := hProduct
      _ = x * 10 ^ (330 : Int) := rfl
  · have hTop : x * quartersPerOne ≤ 2 ^ 1024 * quartersPerOne :=
      le_trans h.high (by exact_mod_cast hHigh)
    have hPower : 2 ^ 1024 < 10 ^ 310 := by decide +kernel
    have hFar : (2 : ℚ) ^ 1024 < (10 : ℚ) ^ 310 := by exact_mod_cast hPower
    exact lt_of_le_of_lt (le_of_mul_le_mul_right hTop hQuarters) hFar

theorem roundDecimal_of_holds {bits : UInt64} {decimal : Decimal} (hPos : 0 < unsigned bits)
    (hFinite : unsigned bits < infinityBits)
    (h : (interval bits).Holds (decimal.value * quartersPerOne)) :
    roundDecimal decimal = unsigned bits := by
  obtain ⟨hLeast, hMost⟩ := value_bounds_of_holds hPos hFinite h
  have hDigits := Decimal.digits_ne_zero hLeast
  unfold Decimal.value at hLeast hMost
  have hBits : ¬ (decimal.digits.log2 : Int) < 3 * (-decimal.exponent - 330) := by
    intro hFew
    obtain ⟨k, hk⟩ : ∃ k : Nat, -decimal.exponent - 330 = k :=
      Int.eq_ofNat_of_zero_le (by omega)
    have hTwo : decimal.digits < 2 ^ (3 * k) := (Nat.log2_lt hDigits).1 (by omega)
    have hTen : decimal.digits < 10 ^ k := by
      refine lt_of_lt_of_le hTwo ?_
      rw [pow_mul]
      exact Nat.pow_le_pow_left (by decide) k
    have hCast : (decimal.digits : ℚ) < 10 ^ (k : Int) := by exact_mod_cast hTen
    have hProduct := mul_lt_mul_of_pos_right hCast
      (zpow_pos (by decide) decimal.exponent : (0 : ℚ) < 10 ^ decimal.exponent)
    rw [← zpow_add₀ (by decide), show (k : Int) + decimal.exponent = -330 by omega] at hProduct
    exact lt_asymm hLeast hProduct
  have hExponent : ¬ 310 ≤ decimal.exponent := by
    intro hLarge
    have hOne : (1 : ℚ) ≤ decimal.digits := by exact_mod_cast Nat.pos_of_ne_zero hDigits
    have hPower : (10 : ℚ) ^ (310 : Int) ≤ 10 ^ decimal.exponent :=
      zpow_le_zpow_right₀ (by decide) hLarge
    have hProduct : (10 : ℚ) ^ decimal.exponent ≤ decimal.digits * 10 ^ decimal.exponent :=
      le_mul_of_one_le_left (zpow_nonneg (by decide) _) hOne
    exact absurd hMost (not_lt.2 (le_trans hPower hProduct))
  unfold roundDecimal
  rw [if_neg (by tauto), if_neg hExponent]
  apply roundQuanta_of_holds hPos hFinite (pow_ten_pos _)
  rw [four_mul_shiftLeft, Nat.mul_assoc, Nat.mul_comm (Nat.pow _ _), ← Decimal.quarters_eq]
  exact h

/-! ## The shortest decimal -/

theorem Interval.holds_of_inside {i : Interval} {num den : Nat} (hDen : 0 < den)
    (h : (if i.closed then i.low * den ≤ num && num ≤ i.high * den
      else i.low * den < num && num < i.high * den) = true) : i.Holds (num / den) := by
  rw [Interval.holds_div_iff hDen]
  split at h
  · rename_i hClosed
    simp only [Bool.and_eq_true, decide_eq_true_eq] at h
    exact ⟨h.1, h.2, fun hOpen => absurd hOpen (by rw [hClosed]; decide)⟩
  · simp only [Bool.and_eq_true, decide_eq_true_eq] at h
    exact ⟨h.1.le, h.2.le, fun _ => h⟩

theorem holds_of_onGrid? {i : Interval} {step : Int} {decimal : Decimal}
    (h : onGrid? i step = some decimal) : i.Holds (decimal.value * quartersPerOne) := by
  rw [Decimal.quarters_eq]
  apply Interval.holds_of_inside (pow_ten_pos _)
  unfold onGrid? at h
  rcases ite_eq_iff.1 h with ⟨hFloor, hEq⟩ | ⟨-, h⟩
  · cases hEq
    exact (Bool.and_eq_true_iff.1 hFloor).1
  · rcases ite_eq_iff.1 h with ⟨hNext, hEq⟩ | ⟨-, hEq⟩
    · cases hEq
      exact hNext
    · cases hEq

theorem value_exactDecimal (bits : UInt64) :
    (exactDecimal bits).value * quartersPerOne = (4 * quanta bits : Nat) := by
  have hQuantum : Nat.pow 5 1074 * quartersPerOne = 4 * 10 ^ 1074 := by decide +kernel
  have hCast : ((Nat.pow 5 1074 : Nat) : ℚ) * quartersPerOne = 4 * (10 : ℚ) ^ (1074 : Int) := by
    rw [← Nat.cast_mul, hQuantum, Nat.cast_mul, Nat.cast_pow, zpow_ofNat]
    rfl
  have hTen : ((10 : ℚ) ^ (1074 : Int)) ≠ 0 := zpow_ne_zero _ (by decide)
  calc (exactDecimal bits).value * quartersPerOne
      = quanta bits * ((Nat.pow 5 1074 : Nat) * quartersPerOne) / 10 ^ (1074 : Int) := by
        unfold Decimal.value exactDecimal
        rw [zpow_neg, Nat.cast_mul]
        ring
    _ = quanta bits * (4 * 10 ^ (1074 : Int)) / 10 ^ (1074 : Int) :=
        congrArg (fun x : ℚ => quanta bits * x / 10 ^ (1074 : Int)) hCast
    _ = (4 * quanta bits : Nat) := by
        rw [← mul_assoc, mul_div_cancel_right₀ _ hTen]
        push_cast
        ring

/-- A double lies inside its own interval. -/
theorem holds_exactDecimal {bits : UInt64} (hPos : 0 < unsigned bits) :
    (interval bits).Holds ((exactDecimal bits).value * quartersPerOne) := by
  obtain ⟨hEnd, -, hCases⟩ := interval_cases bits
  have hQuanta : quanta bits = mantissa bits * 2 ^ shift bits := Nat.shiftLeft_eq _ _
  have hGap : 0 < 2 ^ shift bits := Nat.two_pow_pos _
  have hLeast := Nat.le_mul_of_pos_left (2 ^ shift bits) (mantissa_pos hPos)
  have hLow : (interval bits).low < 4 * quanta bits := by omega
  have hHigh : 4 * quanta bits < (interval bits).high := by omega
  have hLowCast : ((interval bits).low : ℚ) < (4 * quanta bits : Nat) := Nat.cast_lt.2 hLow
  have hHighCast : ((4 * quanta bits : Nat) : ℚ) < (interval bits).high := Nat.cast_lt.2 hHigh
  rw [value_exactDecimal]
  exact ⟨hLowCast.le, hHighCast.le, fun _ => ⟨hLowCast, hHighCast⟩⟩

theorem holds_shortest {bits : UInt64} (hPos : 0 < unsigned bits) :
    (interval bits).Holds ((shortest bits).value * quartersPerOne) := by
  unfold shortest
  simp only
  rcases hFound : (List.range 17).findSome? _ with _ | decimal
  · exact holds_exactDecimal hPos
  · obtain ⟨n, -, hGrid⟩ := List.exists_of_findSome?_eq_some hFound
    exact holds_of_onGrid? hGrid

end RegisterMachine.Binary64

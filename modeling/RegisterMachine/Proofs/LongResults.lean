-- The results of the long instructions that are not sums. A power is exact modulo the size of a
-- long, and its loop takes one round for each bit of the exponent; a quotient and the remainder
-- beside it make up the dividend.
import RegisterMachine.Proofs.Computations
import Mathlib.Data.Int.ModEq
import Mathlib.Data.Nat.Size
import Mathlib.Data.Rat.Floor

namespace RegisterMachine

/-- Wrapping takes a multiple of the size of a long away, and nothing else. -/
theorem toInt_ofInt_modEq (n : Int) : (Int64.ofInt n).toInt ≡ n [ZMOD 2 ^ 64] := by
  rw [Int64.toInt_ofInt]
  exact Int.bmod_emod

/-! ## The loop of a power -/

/-- What the loop of a power holds between two rounds. -/
structure Squaring where
  result : Int64
  base : Int64
  /-- The bits of the exponent that are not used yet. -/
  left : Nat

namespace Squaring

/-- One round: the lowest bit of the exponent is used, and the base is squared. -/
def round (s : Squaring) : Squaring :=
  ⟨if s.left % 2 = 1 then s.result * s.base else s.result, s.base * s.base, s.left / 2⟩

theorem powerFrom_round {s : Squaring} (h : s.left ≠ 0) :
    powerFrom s.round.result s.round.base s.round.left = powerFrom s.result s.base s.left := by
  conv_rhs => rw [powerFrom, if_neg h]
  rfl

theorem left_iterate (s : Squaring) (rounds : Nat) :
    (round^[rounds] s).left = s.left / 2 ^ rounds := by
  induction rounds with
  | zero => rw [pow_zero, Nat.div_one]; rfl
  | succ rounds ih =>
    rw [Function.iterate_succ_apply', pow_succ, ← Nat.div_div_eq_div_mul, ← ih]
    rfl

theorem left_iterate_eq_zero {s : Squaring} {rounds : Nat} :
    (round^[rounds] s).left = 0 ↔ s.left.size ≤ rounds := by
  rw [left_iterate, Nat.div_eq_zero_iff_lt (Nat.two_pow_pos rounds), Nat.size_le]

/-- While some bit is left, a round changes nothing about the power. -/
theorem powerFrom_iterate {s : Squaring} {rounds : Nat} (h : rounds ≤ s.left.size) :
    powerFrom (round^[rounds] s).result (round^[rounds] s).base (round^[rounds] s).left
      = powerFrom s.result s.base s.left := by
  induction rounds with
  | zero => rfl
  | succ rounds ih =>
    have hLeft : (round^[rounds] s).left ≠ 0 := by
      intro hZero
      have hEnd := left_iterate_eq_zero.1 hZero
      omega
    rw [Function.iterate_succ_apply', powerFrom_round hLeft, ih (Nat.le_of_succ_le h)]

/-- The loop is over after one round for each bit, and the result is the power then. -/
theorem result_iterate_size (s : Squaring) :
    (round^[s.left.size] s).result = powerFrom s.result s.base s.left := by
  rw [← powerFrom_iterate (Nat.le_refl s.left.size), left_iterate_eq_zero.2 (Nat.le_refl _),
    powerFrom, if_pos rfl]

end Squaring

theorem size_toInt_le (x : Int64) : x.toInt.toNat.size ≤ 63 := by
  have hHigh := Int64.toInt_lt x
  rw [Nat.size_le]
  omega

/-! ## Powers with a negative exponent -/

/-- The whole part of a rational number: the rest is cut off toward zero. -/
def wholePart (q : ℚ) : Int := if 0 ≤ q then ⌊q⌋ else ⌈q⌉

theorem floor_inv {n : Int} (h : 0 < n) : ⌊(n : ℚ)⁻¹⌋ = Int.tdiv 1 n := by
  obtain ⟨m, rfl⟩ := Int.eq_ofNat_of_zero_le (Int.le_of_lt h)
  have hFloor := Rat.floor_intCast_div_natCast 1 m
  rw [Int.cast_one, one_div] at hFloor
  rw [Int.cast_natCast, hFloor, Int.tdiv_eq_ediv_of_nonneg Int.one_nonneg]

theorem wholePart_inv {n : Int} (h : n ≠ 0) : wholePart (n : ℚ)⁻¹ = Int.tdiv 1 n := by
  have hSign : 0 ≤ (n : ℚ)⁻¹ ↔ 0 ≤ n := by rw [inv_nonneg, Int.cast_nonneg_iff]
  rw [wholePart]
  split
  · rename_i hNonneg
    exact floor_inv (lt_of_le_of_ne (hSign.1 hNonneg) h.symm)
  · rename_i hNeg
    have hPos : 0 < -n := by
      rw [hSign] at hNeg
      omega
    calc ⌈(n : ℚ)⁻¹⌉
        = -⌊((-n : Int) : ℚ)⁻¹⌋ := by rw [Int.cast_neg, inv_neg, Int.floor_neg, neg_neg]
      _ = -Int.tdiv 1 (-n) := by rw [floor_inv hPos]
      _ = Int.tdiv 1 n := by rw [Int.tdiv_neg, neg_neg]

/-- A power with a negative exponent is the whole part of the exact power. -/
theorem cutPower_eq_wholePart {base exponent : Int} (hBase : base ≠ 0) (hNeg : exponent < 0) :
    cutPower base exponent = wholePart ((base : ℚ) ^ exponent) := by
  have hExact : (base : ℚ) ^ exponent = ((base ^ (-exponent).toNat : Int) : ℚ)⁻¹ := by
    rw [Int.cast_pow, ← zpow_natCast, Int.toNat_of_nonneg (by omega), zpow_neg, inv_inv]
  rw [cutPower, if_neg (by omega), hExact, wholePart_inv (pow_ne_zero _ hBase)]

theorem cutPower_zero {exponent : Int} (hNeg : exponent < 0) : cutPower 0 exponent = 0 := by
  rw [cutPower_of_neg hNeg]
  rfl

theorem natAbs_cutPower_le (base : Int) {exponent : Int} (hNeg : exponent < 0) :
    (cutPower base exponent).natAbs ≤ 1 := by
  rw [cutPower_of_neg hNeg]
  split
  · decide
  · split
    · split <;> decide
    · decide

/-! ## Quotients and remainders -/

section Division

variable {x y : Int64}

theorem natAbs_long_mod_lt (h : y ≠ 0) : (x % y).toInt.natAbs < y.toInt.natAbs := by
  have hPos : y.toInt ≠ 0 := fun hZero => h (Int64.toInt_inj.1 hZero)
  rw [Int64.toInt_mod, Int.natAbs_tmod]
  exact Nat.mod_lt _ (Int.natAbs_pos.2 hPos)

/-- A remainder that is not zero has the sign of the dividend, whatever the divisor. -/
theorem sign_long_mod (x y : Int64) : x % y = 0 ∨ (x % y).toInt.sign = x.toInt.sign := by
  rw [← Int64.toInt_inj, Int64.toInt_mod]
  by_cases hDivides : y.toInt ∣ x.toInt
  · left
    exact Int.tmod_eq_zero_of_dvd hDivides
  · right
    rw [Int.sign_tmod, if_neg hDivides]

/-- Only the quotient of the least long by -1 is no long. -/
theorem toInt_long_div (h : ¬ (x = Int64.minValue ∧ y = -1)) :
    (x / y).toInt = x.toInt.tdiv y.toInt := by
  by_cases hLeast : x = Int64.minValue
  · exact Int64.toInt_div_of_ne_right x y fun hMinus => h ⟨hLeast, hMinus⟩
  · exact Int64.toInt_div_of_ne_left x y hLeast

theorem long_div_mul_add_mod (h : ¬ (x = Int64.minValue ∧ y = -1)) :
    (x / y).toInt * y.toInt + (x % y).toInt = x.toInt := by
  rw [toInt_long_div h, Int64.toInt_mod, Int.tdiv_mul_add_tmod]

end Division

/-! ## Instructions on longs -/

namespace Machine

variable {σ : Type} {machine : Machine σ} {ins : Instruction} {op : Operation} {x y : Int64}

/-- The operands of an instruction name registers of the stack, and its sources hold longs. -/
structure OnLongs (machine : Machine σ) (ins : Instruction) (op : Operation) (x y : Int64) :
    Prop where
  decodes : ins.opcode.decode? = some op
  within : ¬ machine.Overruns ins op
  left : machine.held ins 0 = .long x
  right : machine.held ins 1 = .long y

/-- The instruction raises no fault. The register that its last operand names takes the value,
and nothing else changes but the instruction that comes next. -/
def Writes (machine : Machine σ) (ins : Instruction) (op : Operation) (value : Value) : Prop :=
  ∃ cells, machine.exec ins = .next { machine with
      ip := machine.ip + 1, registers := { machine.registers with cells } } ∧
    cells[machine.targetOf ins op]? = some value ∧
    ∀ address ≠ machine.targetOf ins op, cells[address]? = machine.registers.cells[address]?

theorem OnLongs.writes {result : Kind} (h : machine.OnLongs ins op x y)
    (hKinds : op.kinds? = some (.long, result)) (hDivisor : .long y ∉ op.zeroDivisors) :
    machine.Writes ins op (op.outcome (.long x) (.long y)) := by
  have hExec : machine.exec ins = .next (machine.writeRegister (machine.targetOf ins op)
      (op.outcome (.long x) (.long y))).advance := by
    unfold exec
    rw [plan_of_kinds h.decodes hKinds, planCompute_eq hKinds h.within, h.left, h.right,
      Operation.compute_longs hKinds x y hDivisor]
    rfl
  refine ⟨_, hExec, ?_, fun address hAddress => ?_⟩
  · exact Array.getElem?_setIfInBounds_self_of_lt (targetOf_lt hKinds h.within)
  · exact Array.getElem?_setIfInBounds_ne hAddress.symm

/-! ## The laws -/

/-- A machine of two registers with these longs in them. -/
def holding (x y : Int64) : Machine Unit :=
  { small with registers := { small.registers with cells := #[.long x, .long y] } }

/-- The power that `LONG_EXPONENTIATE` writes is congruent to the exact one, and for a negative
exponent it is the whole part of the exact one, or zero if there is none. The loop that computes
it ends after one round for each bit of the exponent, of which there are 63 at most. -/
theorem a_power_is_exact_modulo_the_size_of_a_long (base exponent : Int64) :
    (∀ {σ : Type} (machine : Machine σ) (ins : Instruction),
      machine.OnLongs ins .longExponentiate base exponent →
        machine.Writes ins .longExponentiate (.long (power base exponent))) ∧
    (0 ≤ exponent.toInt →
      (power base exponent).toInt ≡ base.toInt ^ exponent.toInt.toNat [ZMOD 2 ^ 64] ∧
      ∃ rounds ≤ 63,
        (∀ k, (Squaring.round^[k] ⟨1, base, exponent.toInt.toNat⟩).left = 0 ↔ rounds ≤ k) ∧
        (Squaring.round^[rounds] ⟨1, base, exponent.toInt.toNat⟩).result
          = power base exponent) ∧
    (exponent.toInt < 0 →
      (base ≠ 0 →
        (power base exponent).toInt = wholePart ((base.toInt : ℚ) ^ exponent.toInt)) ∧
      (base = 0 → power base exponent = 0)) := by
  refine ⟨fun machine ins hLongs => ?_, fun hNonneg => ?_, fun hNeg => ?_⟩
  · rw [power_eq]
    exact hLongs.writes rfl List.not_mem_nil
  · have hExact : cutPower base.toInt exponent.toInt = base.toInt ^ exponent.toInt.toNat :=
      if_pos hNonneg
    have hPower : power base exponent = powerFrom 1 base exponent.toInt.toNat := by
      rw [power, if_neg (by rw [Int64.lt_iff_toInt_lt]; exact Int.not_lt.2 hNonneg)]
    refine ⟨?_, exponent.toInt.toNat.size, size_toInt_le exponent, ?_, ?_⟩
    · rw [power_eq, ← hExact]
      exact toInt_ofInt_modEq _
    · intro k
      exact Squaring.left_iterate_eq_zero
    · rw [hPower]
      exact Squaring.result_iterate_size ⟨1, base, exponent.toInt.toNat⟩
  · -- what is left is one of -1, 0 and 1, so nothing wraps
    have hFits : (power base exponent).toInt = cutPower base.toInt exponent.toInt := by
      have hSmall := natAbs_cutPower_le base.toInt hNeg
      rw [power_eq, Int64.toInt_ofInt_of_le] <;> omega
    refine ⟨fun hBase => ?_, fun hBase => ?_⟩
    · rw [hFits, cutPower_eq_wholePart (fun hZero => hBase (Int64.toInt_inj.1 hZero)) hNeg]
    · apply Int64.toInt_inj.1
      rw [hFits, hBase]
      exact cutPower_zero hNeg

/-- The exponent has seven bits. In the last round the base has long become zero. -/
theorem a_power_of_two_wraps_to_zero :
    (holding 2 64).Writes ⟨.make .longExponentiate 1, 0, 0, 0⟩ .longExponentiate (.long 0) ∧
      (Squaring.round^[6] ⟨1, 2, 64⟩).left = 1 ∧ (Squaring.round^[7] ⟨1, 2, 64⟩).left = 0 := by
  obtain ⟨hWrites, hNonneg, -⟩ := a_power_is_exact_modulo_the_size_of_a_long 2 64
  obtain ⟨hExact, -⟩ := hNonneg (by decide)
  have hZero : power 2 64 = 0 := by
    have hLow := Int64.le_toInt (power 2 64)
    have hHigh := Int64.toInt_lt (power 2 64)
    have hMod : (power 2 64).toInt % 2 ^ 64 = 2 ^ 64 % 2 ^ 64 := hExact
    apply Int64.toInt_inj.1
    change (power 2 64).toInt = 0
    omega
  refine ⟨hZero ▸ hWrites _ _ ⟨?_, ?_, ?_, ?_⟩, rfl, rfl⟩
  all_goals decide +kernel

/-- The quotient and the remainder that `LONG_DIVIDE` and `LONG_MODULO` write make up the
dividend, and the remainder is smaller than the divisor and has the sign of the dividend. This
takes in the one quotient that is no long: it wraps, and the remainder beside it is zero. -/
theorem a_quotient_and_its_remainder_make_up_the_dividend (x y : Int64) (hDivisor : y ≠ 0) :
    ∃ q r : Int64,
      (∀ {σ : Type} (machine : Machine σ) (ins : Instruction),
        machine.OnLongs ins .longDivide x y → machine.Writes ins .longDivide (.long q)) ∧
      (∀ {σ : Type} (machine : Machine σ) (ins : Instruction),
        machine.OnLongs ins .longModulo x y → machine.Writes ins .longModulo (.long r)) ∧
      r.toInt.natAbs < y.toInt.natAbs ∧
      (r = 0 ∨ r.toInt.sign = x.toInt.sign) ∧
      (¬ (x = Int64.minValue ∧ y = -1) → q.toInt * y.toInt + r.toInt = x.toInt) ∧
      (x = Int64.minValue ∧ y = -1 → q = Int64.minValue ∧ r = 0 ∧
        q.toInt * y.toInt + r.toInt ≡ x.toInt [ZMOD 2 ^ 64]) := by
  have hNonzero : Value.long y ∉ [Value.long 0] := by simpa using hDivisor
  refine ⟨x / y, x % y, fun machine ins hLongs => ?_, fun machine ins hLongs => ?_,
    natAbs_long_mod_lt hDivisor, sign_long_mod x y, long_div_mul_add_mod, ?_⟩
  · rw [long_div_eq]
    exact hLongs.writes rfl hNonzero
  · rw [long_mod_eq]
    exact hLongs.writes rfl hNonzero
  · rintro ⟨rfl, rfl⟩
    refine ⟨Int64.minValue_div_neg_one, rfl, ?_⟩
    decide +kernel

/-- The quotient is one more than the greatest long, and is written as the least. -/
theorem the_least_long_over_minus_one_wraps :
    (holding Int64.minValue (-1)).Writes ⟨.make .longDivide 1, 0, 0, 0⟩ .longDivide
        (.long Int64.minValue) ∧
      (holding Int64.minValue (-1)).Writes ⟨.make .longModulo 1, 0, 0, 0⟩ .longModulo
        (.long 0) := by
  obtain ⟨q, r, hQuotient, hRemainder, -, -, -, hWraps⟩ :=
    a_quotient_and_its_remainder_make_up_the_dividend Int64.minValue (-1) (by decide)
  obtain ⟨rfl, rfl, -⟩ := hWraps ⟨rfl, rfl⟩
  refine ⟨hQuotient _ _ ⟨?_, ?_, ?_, ?_⟩, hRemainder _ _ ⟨?_, ?_, ?_, ?_⟩⟩
  all_goals decide +kernel

/-- Cut toward zero, and not to the floor. -/
example : Operation.longDivide.compute (.long (-7)) (.long 2) = .ok (.long (-3)) ∧
    Operation.longModulo.compute (.long (-7)) (.long 2) = .ok (.long (-1)) := by
  decide +kernel

end Machine

end RegisterMachine

-- The instructions that only compute: logic, equality, comparison, arithmetic and negation. Each
-- has a kind of source and a kind of result. It faults for an operand past the stack before it
-- looks at a source, for the kind of a source before it looks at a divisor, and otherwise writes
-- one register, whether or not that register is also a source.
import RegisterMachine.Proofs.DoubleText
import RegisterMachine.Proofs.LocatedOperands
import RegisterMachine.Proofs.LongArithmetic
import RegisterMachine.Proofs.MachineOwnership

namespace RegisterMachine

/-! ## Kinds of values -/

inductive Kind where
  | long | float | char | bool | address | handle
  deriving DecidableEq, Repr

namespace Value

def kind : Value → Kind
  | .long _ => .long
  | .float _ => .float
  | .char _ => .char
  | .bool _ => .bool
  | .address _ => .address
  | .handle _ => .handle

/-! What a value of a kind stands for. A value of another kind stands for nothing, and what is
given for it does not matter. -/

def integer : Value → Int
  | .long value => value.toInt
  | _ => 0

def double : Value → UInt64
  | .float bits => bits
  | _ => 0

def letter : Value → Char
  | .char value => value
  | _ => default

def truth : Value → Bool
  | .bool value => value
  | _ => false

variable {x : Value}

theorem kind_eq_long (h : x.kind = .long) : ∃ value, x = .long value := by
  cases x with
  | long value => exact ⟨value, rfl⟩
  | _ => cases h

theorem kind_eq_float (h : x.kind = .float) : ∃ bits, x = .float bits := by
  cases x with
  | float bits => exact ⟨bits, rfl⟩
  | _ => cases h

theorem kind_eq_char (h : x.kind = .char) : ∃ value, x = .char value := by
  cases x with
  | char value => exact ⟨value, rfl⟩
  | _ => cases h

theorem kind_eq_bool (h : x.kind = .bool) : ∃ value, x = .bool value := by
  cases x with
  | bool value => exact ⟨value, rfl⟩
  | _ => cases h

end Value

/-! ## What is computed -/

namespace Operation

/-- The kind of the sources of a computation, and the kind of its result. -/
def kinds? : Operation → Option (Kind × Kind)
  | .and | .or | .not | .boolEqual => some (.bool, .bool)
  | .charEqual => some (.char, .bool)
  | .longEqual | .longMore | .longLess | .longMoreEqual | .longLessEqual => some (.long, .bool)
  | .longAdd | .longSubtract | .longMultiply | .longDivide | .longModulo | .longExponentiate
  | .longNegate => some (.long, .long)
  | .floatEqual | .floatMore | .floatLess | .floatMoreEqual | .floatLessEqual =>
    some (.float, .bool)
  | .floatAdd | .floatSubtract | .floatMultiply | .floatDivide | .floatModulo
  | .floatExponentiate | .floatNegate => some (.float, .float)
  | _ => none

/-- Whether the operand in the second slot is a source that a computation reads, after a first
source that holds `x`. `AND` and `OR` read it only when the first source does not decide. -/
def readsSecond (x : Value) : Operation → Bool
  | .not | .longNegate | .floatNegate => false
  | .and => x ≠ .bool false
  | .or => x ≠ .bool true
  | _ => true

/-- A source that is read holds another kind. -/
def Mismatches (op : Operation) (source : Kind) (x y : Value) : Prop :=
  x.kind ≠ source ∨ op.readsSecond x = true ∧ y.kind ≠ source

instance (op : Operation) (source : Kind) (x y : Value) : Decidable (op.Mismatches source x y) :=
  inferInstanceAs (Decidable (_ ∨ _))

/-- The divisors that are refused: zero, of either sign for floats. -/
def zeroDivisors : Operation → List Value
  | .longDivide | .longModulo => [.long 0]
  | .floatDivide | .floatModulo => [.float 0, .float Binary64.signBit]
  | _ => []

/-- The result of a computation. The longs are computed as integers, and the result is wrapped. -/
def outcome (x y : Value) : Operation → Value
  | .and => .bool (x.truth && y.truth)
  | .or => .bool (x.truth || y.truth)
  | .not => .bool (!x.truth)
  | .boolEqual => .bool (x.truth == y.truth)
  | .charEqual => .bool (x.letter == y.letter)
  | .longEqual => .bool (x.integer = y.integer)
  | .longMore => .bool (y.integer < x.integer)
  | .longLess => .bool (x.integer < y.integer)
  | .longMoreEqual => .bool (y.integer ≤ x.integer)
  | .longLessEqual => .bool (x.integer ≤ y.integer)
  | .longAdd => .long (.ofInt (x.integer + y.integer))
  | .longSubtract => .long (.ofInt (x.integer - y.integer))
  | .longMultiply => .long (.ofInt (x.integer * y.integer))
  | .longDivide => .long (.ofInt (x.integer.tdiv y.integer))
  | .longModulo => .long (.ofInt (x.integer.tmod y.integer))
  | .longExponentiate => .long (.ofInt (cutPower x.integer y.integer))
  | .longNegate => .long (.ofInt (-x.integer))
  | .floatEqual => .bool (Binary64.equal x.double y.double)
  | .floatMore => .bool (Binary64.less y.double x.double)
  | .floatLess => .bool (Binary64.less x.double y.double)
  | .floatMoreEqual => .bool (Binary64.lessEqual y.double x.double)
  | .floatLessEqual => .bool (Binary64.lessEqual x.double y.double)
  | .floatAdd => .float (Binary64.add x.double y.double)
  | .floatSubtract => .float (Binary64.subtract x.double y.double)
  | .floatMultiply => .float (Binary64.multiply x.double y.double)
  | .floatDivide => .float (Binary64.divide x.double y.double)
  | .floatModulo => .float (Binary64.remainder x.double y.double)
  | .floatExponentiate => .float (Binary64.power x.double y.double)
  | .floatNegate => .float (Binary64.negate x.double)
  | _ => .zero

variable {op : Operation} {source result : Kind} {x y : Value}

theorem kind_outcome (h : op.kinds? = some (source, result)) (x y : Value) :
    (op.outcome x y).kind = result := by
  cases op <;> cases h <;> rfl

theorem binary_or_unary (op : Operation) (h : op.kinds? = some (source, result)) :
    (∃ f, op.binary? = some f) ∨ op.binary? = none ∧ ∃ f, op.unary? = some f := by
  cases op with
  | not | longNegate | floatNegate => exact .inr ⟨rfl, _, rfl⟩
  | _ => first | exact .inl ⟨_, rfl⟩ | cases h

/-- A computation as it runs, on the values in its first two slots. -/
def compute (op : Operation) (x y : Value) : Except Fault Value :=
  match op.binary?, op.unary? with
  | some f, _ => f x y
  | none, some f => f x
  | none, none => .error .internal

end Operation

/-! ## Sources of another kind -/

/-- A read that fails for exactly the values of other kinds. -/
def ReadsOnly {α : Type} (kind : Kind) (read : Value → Except Fault α) : Prop :=
  ∀ value, value.kind = kind ∧ (∃ a, read value = .ok a) ∨
    value.kind ≠ kind ∧ read value = .error .internal

theorem readsOnly_asLong : ReadsOnly .long Value.asLong := by
  intro value
  cases value <;> simp [Value.kind, Value.asLong]

theorem readsOnly_asFloat : ReadsOnly .float Value.asFloat := by
  intro value
  cases value <;> simp [Value.kind, Value.asFloat]

theorem readsOnly_asChar : ReadsOnly .char Value.asChar := by
  intro value
  cases value <;> simp [Value.kind, Value.asChar]

theorem readsOnly_asBool : ReadsOnly .bool Value.asBool := by
  intro value
  cases value <;> simp [Value.kind, Value.asBool]

namespace ReadsOnly

variable {α : Type} {kind : Kind} {read : Value → Except Fault α} {x y : Value}

theorem bind_eq_error (h : ReadsOnly kind read) (hKind : x.kind ≠ kind)
    (rest : α → Except Fault Value) : read x >>= rest = .error .internal := by
  obtain ⟨hSame, -⟩ | ⟨-, hRead⟩ := h x
  · exact absurd hSame hKind
  · rw [hRead]
    rfl

theorem bind_bind_eq_error (h : ReadsOnly kind read) (hKind : x.kind ≠ kind ∨ y.kind ≠ kind)
    (rest : α → α → Except Fault Value) :
    (read x >>= fun a => read y >>= rest a) = .error .internal := by
  obtain ⟨hSame, a, hRead⟩ | ⟨hOther, -⟩ := h x
  · rw [hRead]
    exact h.bind_eq_error (hKind.resolve_left (not_not.mpr hSame)) (rest a)
  · exact h.bind_eq_error hOther _

end ReadsOnly

namespace Operation

variable {op : Operation} {source result : Kind} {x y : Value}

theorem compute_of_mismatches (hKinds : op.kinds? = some (source, result))
    (h : op.Mismatches source x y) : op.compute x y = .error .internal := by
  cases op with
  -- a first source that decides keeps the second one from being looked at
  | and =>
    cases hKinds
    rcases h with hFirst | ⟨hOpen, hSecond⟩
    · exact readsOnly_asBool.bind_eq_error hFirst _
    · cases x with
      | bool first =>
        cases first with
        | false => exact absurd hOpen nofun
        | true => exact readsOnly_asBool.bind_eq_error hSecond _
      | _ => rfl
  | or =>
    cases hKinds
    rcases h with hFirst | ⟨hOpen, hSecond⟩
    · exact readsOnly_asBool.bind_eq_error hFirst _
    · cases x with
      | bool first =>
        cases first with
        | false => exact readsOnly_asBool.bind_eq_error hSecond _
        | true => exact absurd hOpen nofun
      | _ => rfl
  | not =>
    cases hKinds
    exact readsOnly_asBool.bind_eq_error (h.resolve_right nofun) _
  | longNegate =>
    cases hKinds
    exact readsOnly_asLong.bind_eq_error (h.resolve_right nofun) _
  | floatNegate =>
    cases hKinds
    exact readsOnly_asFloat.bind_eq_error (h.resolve_right nofun) _
  | boolEqual =>
    cases hKinds
    exact readsOnly_asBool.bind_bind_eq_error (h.imp_right And.right) _
  | charEqual =>
    cases hKinds
    exact readsOnly_asChar.bind_bind_eq_error (h.imp_right And.right) _
  | longEqual | longMore | longLess | longMoreEqual | longLessEqual | longAdd | longSubtract
  | longMultiply | longDivide | longModulo | longExponentiate =>
    cases hKinds
    exact readsOnly_asLong.bind_bind_eq_error (h.imp_right And.right) _
  | floatEqual | floatMore | floatLess | floatMoreEqual | floatLessEqual | floatAdd
  | floatSubtract | floatMultiply | floatDivide | floatModulo | floatExponentiate =>
    cases hKinds
    exact readsOnly_asFloat.bind_bind_eq_error (h.imp_right And.right) _
  | _ => cases hKinds

end Operation

/-! ## Divisors and results -/

theorem Binary64.isZero_iff {bits : UInt64} :
    Binary64.isZero bits = true ↔ bits = 0 ∨ bits = Binary64.signBit := by
  constructor
  · intro h
    have hUnsigned : Binary64.unsigned bits = 0 := by simpa [Binary64.isZero] using h
    have hBits := Binary64.withSign_unsigned bits
    rw [hUnsigned] at hBits
    cases hSign : Binary64.isNegative bits with
    | false =>
      rw [hSign] at hBits
      exact .inl hBits.symm
    | true =>
      rw [hSign] at hBits
      exact .inr hBits.symm
  · rintro (rfl | rfl) <;> rfl

namespace Operation

variable {op : Operation} {source result : Kind} {x y : Value}

theorem compute_of_zero (hKinds : op.kinds? = some (source, result))
    (h : ¬ op.Mismatches source x y) (hDivisor : y ∈ op.zeroDivisors) :
    op.compute x y = .error .divideByZero := by
  have hFirst : x.kind = source := not_not.mp fun hOther => h (.inl hOther)
  cases op with
  | longDivide | longModulo =>
    cases hKinds
    obtain ⟨a, rfl⟩ := Value.kind_eq_long hFirst
    cases List.mem_singleton.mp hDivisor
    rfl
  | floatDivide | floatModulo =>
    cases hKinds
    obtain ⟨a, rfl⟩ := Value.kind_eq_float hFirst
    rcases List.mem_pair.mp hDivisor with rfl | rfl <;> rfl
  | _ => cases hDivisor

/-- On longs, the result is the one of the integers. -/
theorem compute_longs (hKinds : op.kinds? = some (.long, result)) (a b : Int64)
    (hDivisor : .long b ∉ op.zeroDivisors) :
    op.compute (.long a) (.long b) = .ok (op.outcome (.long a) (.long b)) := by
  have hNonzero (h : .long b ∉ [Value.long 0]) : b ≠ 0 := by
    rintro rfl
    exact h (.head _)
  have hLong {m n : Int64} (h : m = n) :
      (Except.ok (.long m) : Except Fault Value) = .ok (.long n) := by rw [h]
  have hBool {p q : Prop} [Decidable p] [Decidable q] (h : p ↔ q) :
      (Except.ok (.bool p) : Except Fault Value) = .ok (.bool q) := by
    rw [decide_eq_decide.mpr h]
  cases op with
  | longEqual => exact hBool Int64.toInt_inj.symm
  | longMore | longLess => exact hBool Int64.lt_iff_toInt_lt
  | longMoreEqual | longLessEqual => exact hBool Int64.le_iff_toInt_le
  | longAdd => exact hLong (long_add_eq a b)
  | longSubtract => exact hLong (long_sub_eq a b)
  | longMultiply => exact hLong (long_mul_eq a b)
  | longDivide => exact (if_neg (hNonzero hDivisor)).trans (hLong (long_div_eq a b))
  | longModulo => exact (if_neg (hNonzero hDivisor)).trans (hLong (long_mod_eq a b))
  | longExponentiate => exact hLong (power_eq a b)
  | longNegate => exact hLong (long_neg_eq a)
  | _ => cases hKinds

theorem compute_floats (hKinds : op.kinds? = some (.float, result)) (a b : UInt64)
    (hDivisor : .float b ∉ op.zeroDivisors) :
    op.compute (.float a) (.float b) = .ok (op.outcome (.float a) (.float b)) := by
  cases op with
  | floatEqual | floatMore | floatLess | floatMoreEqual | floatLessEqual | floatAdd
  | floatSubtract | floatMultiply | floatExponentiate | floatNegate => rfl
  | floatDivide | floatModulo =>
    have hNonzero : ¬ Binary64.isZero b = true := by
      rw [Binary64.isZero_iff]
      rintro (rfl | rfl)
      · exact hDivisor (.head _)
      · exact hDivisor (.tail _ (.head _))
    exact if_neg hNonzero
  | _ => cases hKinds

theorem compute_eq_outcome (hKinds : op.kinds? = some (source, result))
    (h : ¬ op.Mismatches source x y) (hDivisor : y ∉ op.zeroDivisors) :
    op.compute x y = .ok (op.outcome x y) := by
  have hFirst : x.kind = source := not_not.mp fun hOther => h (.inl hOther)
  have hSecond : op.readsSecond x = true → y.kind = source :=
    fun hReads => not_not.mp fun hOther => h (.inr ⟨hReads, hOther⟩)
  cases op with
  | and =>
    cases hKinds
    obtain ⟨first, rfl⟩ := Value.kind_eq_bool hFirst
    cases first with
    | false => rfl
    | true =>
      obtain ⟨second, rfl⟩ := Value.kind_eq_bool (hSecond rfl)
      rfl
  | or =>
    cases hKinds
    obtain ⟨first, rfl⟩ := Value.kind_eq_bool hFirst
    cases first with
    | false =>
      obtain ⟨second, rfl⟩ := Value.kind_eq_bool (hSecond rfl)
      rfl
    | true => rfl
  | not =>
    cases hKinds
    obtain ⟨first, rfl⟩ := Value.kind_eq_bool hFirst
    rfl
  | boolEqual =>
    cases hKinds
    obtain ⟨first, rfl⟩ := Value.kind_eq_bool hFirst
    obtain ⟨second, rfl⟩ := Value.kind_eq_bool (hSecond rfl)
    rfl
  | charEqual =>
    cases hKinds
    obtain ⟨first, rfl⟩ := Value.kind_eq_char hFirst
    obtain ⟨second, rfl⟩ := Value.kind_eq_char (hSecond rfl)
    rfl
  | longEqual | longMore | longLess | longMoreEqual | longLessEqual | longAdd | longSubtract
  | longMultiply | longDivide | longModulo | longExponentiate =>
    cases hKinds
    obtain ⟨a, rfl⟩ := Value.kind_eq_long hFirst
    obtain ⟨b, rfl⟩ := Value.kind_eq_long (hSecond rfl)
    exact compute_longs rfl a b hDivisor
  | floatEqual | floatMore | floatLess | floatMoreEqual | floatLessEqual | floatAdd
  | floatSubtract | floatMultiply | floatDivide | floatModulo | floatExponentiate =>
    cases hKinds
    obtain ⟨a, rfl⟩ := Value.kind_eq_float hFirst
    obtain ⟨b, rfl⟩ := Value.kind_eq_float (hSecond rfl)
    exact compute_floats rfl a b hDivisor
  -- a negation does not look at the second value, which may be of any kind
  | longNegate =>
    cases hKinds
    obtain ⟨a, rfl⟩ := Value.kind_eq_long hFirst
    exact @compute_longs .longNegate .long rfl a 0 List.not_mem_nil
  | floatNegate =>
    cases hKinds
    obtain ⟨a, rfl⟩ := Value.kind_eq_float hFirst
    exact @compute_floats .floatNegate .float rfl a 0 List.not_mem_nil
  | _ => cases hKinds

end Operation

/-! ## The instruction -/

namespace Machine

variable {σ : Type} (machine : Machine σ) (ins : Instruction)

/-- The address that the operand in `slot` names, whether or not the stack reaches as far. -/
def addressOf (slot : Nat) : Nat :=
  match ins.opcode.mode slot with
  | .absolute => (ins.operand slot).toNat
  | .relative => machine.registers.base + (ins.operand slot).toNat

/-- What the register holds that the operand in `slot` names. -/
def held (slot : Nat) : Value :=
  machine.registers.cells[machine.addressOf ins slot]?.getD .zero

/-- Some operand names no register of the stack. -/
def Overruns (op : Operation) : Prop :=
  ∃ slot < op.operands.length, machine.registers.size ≤ machine.addressOf ins slot

instance (op : Operation) : Decidable (machine.Overruns ins op) :=
  inferInstanceAs (Decidable (∃ slot < _, _))

/-- The register that a computation writes: its last operand names it. -/
def targetOf (op : Operation) : Nat := machine.addressOf ins (op.operands.length - 1)

variable {machine ins} {op : Operation} {source result : Kind}

theorem locate_eq (slot : Nat) :
    machine.locate ins slot =
      if machine.addressOf ins slot < machine.registers.size then .ok (machine.addressOf ins slot)
      else .error .stackOverflow := rfl

theorem bind_locate {slot : Nat} {rest : Nat → Except Fault Effect}
    (h : machine.addressOf ins slot < machine.registers.size) :
    machine.locate ins slot >>= rest = rest (machine.addressOf ins slot) := by
  rw [locate_eq, if_pos h]
  rfl

/-- An operand that is not located overflows; one that is leaves it to the rest. -/
theorem bind_locate_eq_error {slot : Nat} {rest : Nat → Except Fault Effect}
    (h : machine.addressOf ins slot < machine.registers.size →
      rest (machine.addressOf ins slot) = .error .stackOverflow) :
    machine.locate ins slot >>= rest = .error .stackOverflow := by
  by_cases hSlot : machine.addressOf ins slot < machine.registers.size
  · rw [bind_locate hSlot, h hSlot]
  · rw [locate_eq, if_neg hSlot]
    rfl

theorem bind_get {slot : Nat} {rest : Value → Except Fault Effect}
    (h : machine.addressOf ins slot < machine.registers.size) :
    machine.registers.get (machine.addressOf ins slot) >>= rest = rest (machine.held ins slot) := by
  have hCell := Array.getElem?_eq_getElem h
  rw [Registers.get_of_lt h, held, hCell, Option.getD_some]
  rfl

theorem addressOf_lt {slot : Nat} (h : ¬ machine.Overruns ins op)
    (hSlot : slot < op.operands.length) : machine.addressOf ins slot < machine.registers.size :=
  Nat.lt_of_not_le fun hPast => h ⟨slot, hSlot, hPast⟩

theorem plan_of_kinds (hDecode : ins.opcode.decode? = some op)
    (hKinds : op.kinds? = some (source, result)) :
    machine.plan ins = machine.planCompute ins op := by
  unfold plan
  rw [hDecode]
  cases op <;> first | rfl | cases hKinds

theorem planCompute_of_overruns (hKinds : op.kinds? = some (source, result))
    (h : machine.Overruns ins op) : machine.planCompute ins op = .error .stackOverflow := by
  obtain ⟨slot, hSlot, hPast⟩ := h
  unfold planCompute
  rcases op.binary_or_unary hKinds with ⟨f, hBinary⟩ | ⟨hNone, f, hUnary⟩
  · rw [operands_of_binary hBinary] at hSlot
    rw [hBinary]
    refine bind_locate_eq_error fun hLeft => bind_locate_eq_error fun hRight =>
      bind_locate_eq_error fun hTarget => ?_
    match slot, hSlot with
    | 0, _ | 1, _ | 2, _ => omega
  · rw [operands_of_unary hUnary] at hSlot
    rw [hNone, hUnary]
    refine bind_locate_eq_error fun hSource => bind_locate_eq_error fun hTarget => ?_
    match slot, hSlot with
    | 0, _ | 1, _ => omega

theorem planCompute_eq (hKinds : op.kinds? = some (source, result))
    (h : ¬ machine.Overruns ins op) :
    machine.planCompute ins op =
      (op.compute (machine.held ins 0) (machine.held ins 1)).map
        (.write (machine.targetOf ins op)) := by
  unfold planCompute Operation.compute targetOf
  rcases op.binary_or_unary hKinds with ⟨f, hBinary⟩ | ⟨hNone, f, hUnary⟩
  · have hOperands := operands_of_binary hBinary
    have hSlots (slot : Nat) (hSlot : slot < 3) :
        machine.addressOf ins slot < machine.registers.size :=
      addressOf_lt h (by rw [hOperands]; exact hSlot)
    rw [hBinary, hOperands]
    calc machine.planBinary ins f
        = machine.registers.get (machine.addressOf ins 0) >>= fun x =>
            machine.registers.get (machine.addressOf ins 1) >>= fun y =>
              f x y >>= fun value => pure (.write (machine.addressOf ins 2) value) := by
          unfold planBinary
          rw [bind_locate (hSlots 0 (by decide)), bind_locate (hSlots 1 (by decide)),
            bind_locate (hSlots 2 (by decide))]
      _ = _ := by
          rw [bind_get (hSlots 0 (by decide)), bind_get (hSlots 1 (by decide))]
          rfl
  · have hOperands := operands_of_unary hUnary
    have hSlots (slot : Nat) (hSlot : slot < 2) :
        machine.addressOf ins slot < machine.registers.size :=
      addressOf_lt h (by rw [hOperands]; exact hSlot)
    rw [hNone, hUnary, hOperands]
    calc machine.planUnary ins f
        = machine.registers.get (machine.addressOf ins 0) >>= fun x =>
            f x >>= fun value => pure (.write (machine.addressOf ins 1) value) := by
          unfold planUnary
          rw [bind_locate (hSlots 0 (by decide)), bind_locate (hSlots 1 (by decide))]
      _ = _ := by
          rw [bind_get (hSlots 0 (by decide))]
          rfl

theorem targetOf_lt (hKinds : op.kinds? = some (source, result))
    (h : ¬ machine.Overruns ins op) : machine.targetOf ins op < machine.registers.size := by
  apply addressOf_lt h
  rcases op.binary_or_unary hKinds with ⟨f, hBinary⟩ | ⟨-, f, hUnary⟩
  · rw [operands_of_binary hBinary]
    decide
  · rw [operands_of_unary hUnary]
    decide

theorem exec_of_error {fault : Fault} (h : machine.plan ins = .error fault) :
    machine.exec ins = .faulted fault none machine := by
  unfold exec
  rw [h]

/-- An operand past the stack comes first, then a source of another kind, then a divisor that is
zero. Without any of these, the register that the last operand names takes the result for the
values that the sources held before, also when it is one of the sources or both, and nothing else
changes but the instruction that comes next. -/
theorem a_computation_faults_in_order_or_writes_its_result (machine : Machine σ)
    (ins : Instruction) (op : Operation) (source result : Kind)
    (hDecode : ins.opcode.decode? = some op) (hKinds : op.kinds? = some (source, result)) :
    let x := machine.held ins 0
    let y := machine.held ins 1
    (machine.Overruns ins op → machine.exec ins = .faulted .stackOverflow none machine) ∧
    (¬ machine.Overruns ins op → op.Mismatches source x y →
      machine.exec ins = .faulted .internal none machine) ∧
    (¬ machine.Overruns ins op → ¬ op.Mismatches source x y → y ∈ op.zeroDivisors →
      machine.exec ins = .faulted .divideByZero none machine) ∧
    (¬ machine.Overruns ins op → ¬ op.Mismatches source x y → y ∉ op.zeroDivisors →
      (op.outcome x y).kind = result ∧
      ∃ cells, machine.exec ins = .next { machine with
          ip := machine.ip + 1, registers := { machine.registers with cells } } ∧
        cells[machine.targetOf ins op]? = some (op.outcome x y) ∧
        ∀ address ≠ machine.targetOf ins op,
          cells[address]? = machine.registers.cells[address]?) := by
  intro x y
  have hPlan : machine.plan ins = machine.planCompute ins op := plan_of_kinds hDecode hKinds
  refine ⟨fun hOver => ?_, fun hWithin hOther => ?_, fun hWithin hSame hZero => ?_,
    fun hWithin hSame hNonzero => ⟨op.kind_outcome hKinds _ _, ?_⟩⟩
  · exact exec_of_error (hPlan.trans (planCompute_of_overruns hKinds hOver))
  · apply exec_of_error
    rw [hPlan, planCompute_eq hKinds hWithin, op.compute_of_mismatches hKinds hOther]
    rfl
  · apply exec_of_error
    rw [hPlan, planCompute_eq hKinds hWithin, op.compute_of_zero hKinds hSame hZero]
    rfl
  · have hExec : machine.exec ins = .next (machine.writeRegister (machine.targetOf ins op)
        (op.outcome x y)).advance := by
      unfold exec
      rw [hPlan, planCompute_eq hKinds hWithin, op.compute_eq_outcome hKinds hSame hNonzero]
      rfl
    refine ⟨_, hExec, ?_, fun address hAddress => ?_⟩
    · exact Array.getElem?_setIfInBounds_self_of_lt (targetOf_lt hKinds hWithin)
    · exact Array.getElem?_setIfInBounds_ne hAddress.symm

/-- A machine of two registers, with a negative zero below a large number. -/
def smallOperands : Machine Unit :=
  { small with registers := { small.registers with
      cells := #[.float Binary64.signBit, .long 4294967296] } }

/-- The number is squared in its place: both addressings name the same register, which is the
left source, the right one and the destination, and the square wraps to zero. To divide the number
by the zero is a fault of kinds, to take the zero modulo itself is a division by zero, and to write
that past the stack is an overflow. -/
theorem a_square_that_wraps_replaces_its_sources :
    (∃ cells, smallOperands.exec ⟨.make .longMultiply 1, 1, 0, 0⟩ =
        .next { smallOperands with
          ip := 1, registers := { smallOperands.registers with cells } } ∧
      cells[1]? = some (.long 0) ∧ cells[0]? = some (.float Binary64.signBit)) ∧
    smallOperands.exec ⟨.make .longDivide 2, 0, 0, 0⟩ =
      .faulted .internal none smallOperands ∧
    smallOperands.exec ⟨.make .floatModulo 3, 0, 0, 0⟩ =
      .faulted .divideByZero none smallOperands ∧
    smallOperands.exec ⟨.make .floatModulo 3, 0, 0, 1⟩ =
      .faulted .stackOverflow none smallOperands := by
  have hSquare := a_computation_faults_in_order_or_writes_its_result smallOperands
    ⟨.make .longMultiply 1, 1, 0, 0⟩ .longMultiply .long .long (by decide +kernel) rfl
  have hDivide := a_computation_faults_in_order_or_writes_its_result smallOperands
    ⟨.make .longDivide 2, 0, 0, 0⟩ .longDivide .long .long (by decide +kernel) rfl
  have hModulo := a_computation_faults_in_order_or_writes_its_result smallOperands
    ⟨.make .floatModulo 3, 0, 0, 0⟩ .floatModulo .float .float (by decide +kernel) rfl
  have hPast := a_computation_faults_in_order_or_writes_its_result smallOperands
    ⟨.make .floatModulo 3, 0, 0, 1⟩ .floatModulo .float .float (by decide +kernel) rfl
  refine ⟨?_, hDivide.2.1 (by decide +kernel) (by decide +kernel),
    hModulo.2.2.1 (by decide +kernel) (by decide +kernel) (by decide +kernel),
    hPast.1 (by decide +kernel)⟩
  obtain ⟨-, cells, hExec, hTarget, hOthers⟩ :=
    hSquare.2.2.2 (by decide +kernel) (by decide +kernel) (by decide +kernel)
  have hAddress : smallOperands.targetOf ⟨.make .longMultiply 1, 1, 0, 0⟩ .longMultiply = 1 := by
    decide +kernel
  rw [hAddress] at hTarget hOthers
  exact ⟨cells, hExec, hTarget.trans (by decide +kernel), (hOthers 0 (by decide)).trans rfl⟩

end Machine

end RegisterMachine

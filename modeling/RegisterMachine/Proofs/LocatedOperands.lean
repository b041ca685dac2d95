-- Instructions whose operands are located. An operand that is located names a register of the
-- stack, which can be read; so an instruction that finds all its operands overflows for a
-- reason of its own only, and never for a register.
import RegisterMachine.Proofs.MachineSteps

namespace RegisterMachine

variable {σ : Type}

/-! ## Results that do not overflow -/

/-- A result that is an overflow has this reason. -/
def OverflowsFor {α : Type} (reason : Prop) (result : Except Fault α) : Prop :=
  result = .error .stackOverflow → reason

section Overflows

variable {α β : Type} {reason : Prop}

theorem overflows_ok (value : α) : OverflowsFor reason (.ok value) := nofun

theorem overflows_error {fault : Fault} (h : fault ≠ .stackOverflow) :
    OverflowsFor reason (.error fault : Except Fault α) :=
  fun hFault => absurd (Except.error.inj hFault) h

theorem overflows_bind {first : Except Fault β} {second : β → Except Fault α}
    (h : OverflowsFor reason first)
    (hSecond : ∀ value, first = .ok value → OverflowsFor reason (second value)) :
    OverflowsFor reason (first >>= second) := by
  cases first with
  | error fault => exact fun hFault => h (congrArg Except.error (Except.error.inj hFault))
  | ok value => exact hSecond value rfl

/-- A part that cannot overflow leaves the reason to the rest. -/
theorem overflows_after {first : Except Fault β} {second : β → Except Fault α}
    (h : OverflowsFor False first) (hSecond : ∀ value, OverflowsFor reason (second value)) :
    OverflowsFor reason (first >>= second) :=
  overflows_bind (fun hFault => (h hFault).elim) fun value _ => hSecond value

theorem overflows_require {condition : Bool} {fault : Fault}
    (h : condition = false → fault = .stackOverflow → reason) :
    OverflowsFor reason (Machine.require condition fault) := by
  cases condition with
  | true => exact overflows_ok ()
  | false => exact fun hFault => h rfl (Except.error.inj hFault)

theorem overflows_orFault (found : Option α) :
    OverflowsFor False (Machine.orFault .internal found) := by
  cases found with
  | none => exact overflows_error nofun
  | some value => exact overflows_ok value

end Overflows

/-! ## What only computes or reads the heap -/

namespace Value

theorem overflows_asLong (value : Value) : OverflowsFor False value.asLong := by
  cases value <;> nofun

theorem overflows_asFloat (value : Value) : OverflowsFor False value.asFloat := by
  cases value <;> nofun

theorem overflows_asChar (value : Value) : OverflowsFor False value.asChar := by
  cases value <;> nofun

theorem overflows_asBool (value : Value) : OverflowsFor False value.asBool := by
  cases value <;> nofun

theorem overflows_asAddress (value : Value) : OverflowsFor False value.asAddress := by
  cases value <;> nofun

theorem overflows_asHandle (value : Value) : OverflowsFor False value.asHandle := by
  cases value <;> nofun

end Value

section Compute

open Value

theorem overflows_onLongs (f : Int64 → Int64 → Value) (x y : Value) :
    OverflowsFor False (onLongs f x y) :=
  overflows_after x.overflows_asLong fun _ => overflows_after y.overflows_asLong fun _ =>
    overflows_ok _

theorem overflows_onFloats (f : UInt64 → UInt64 → Value) (x y : Value) :
    OverflowsFor False (onFloats f x y) :=
  overflows_after x.overflows_asFloat fun _ => overflows_after y.overflows_asFloat fun _ =>
    overflows_ok _

theorem overflows_onDividedLongs (f : Int64 → Int64 → Int64) (x y : Value) :
    OverflowsFor False (onDividedLongs f x y) := by
  refine overflows_after x.overflows_asLong fun _ => overflows_after y.overflows_asLong fun _ => ?_
  split
  · exact overflows_error nofun
  · exact overflows_ok _

theorem overflows_onDividedFloats (f : UInt64 → UInt64 → UInt64) (x y : Value) :
    OverflowsFor False (onDividedFloats f x y) := by
  refine overflows_after x.overflows_asFloat fun _ =>
    overflows_after y.overflows_asFloat fun _ => ?_
  split
  · exact overflows_error nofun
  · exact overflows_ok _

theorem Operation.overflows_unary {op : Operation} {f : Value → Except Fault Value}
    (h : op.unary? = some f) (x : Value) : OverflowsFor False (f x) := by
  cases op with
  | not | longNegate | floatNegate =>
    cases h
    cases x <;> nofun
  | _ => cases h

theorem Operation.overflows_binary {op : Operation} {f : Value → Value → Except Fault Value}
    (h : op.binary? = some f) (x y : Value) : OverflowsFor False (f x y) := by
  cases op with
  | and =>
    cases h
    refine overflows_after x.overflows_asBool fun first => ?_
    cases first with
    | false => exact overflows_ok _
    | true => exact overflows_after y.overflows_asBool fun _ => overflows_ok _
  | or =>
    cases h
    refine overflows_after x.overflows_asBool fun first => ?_
    cases first with
    | false => exact overflows_after y.overflows_asBool fun _ => overflows_ok _
    | true => exact overflows_ok _
  | boolEqual =>
    cases h
    exact overflows_after x.overflows_asBool fun _ => overflows_after y.overflows_asBool fun _ =>
      overflows_ok _
  | charEqual =>
    cases h
    exact overflows_after x.overflows_asChar fun _ => overflows_after y.overflows_asChar fun _ =>
      overflows_ok _
  | longEqual | longMore | longLess | longMoreEqual | longLessEqual | longAdd | longSubtract
  | longMultiply | longExponentiate =>
    cases h
    exact overflows_onLongs _ x y
  | longDivide | longModulo =>
    cases h
    exact overflows_onDividedLongs _ x y
  | floatEqual | floatMore | floatLess | floatMoreEqual | floatLessEqual | floatAdd
  | floatSubtract | floatMultiply | floatExponentiate =>
    cases h
    exact overflows_onFloats _ x y
  | floatDivide | floatModulo =>
    cases h
    exact overflows_onDividedFloats _ x y
  | _ => cases h

end Compute

theorem Allocation.overflows_position (alloc : Allocation) (index : Int64) :
    OverflowsFor False (alloc.position index) := by
  unfold position
  simp only
  split
  · exact overflows_ok _
  · exact overflows_error nofun

namespace Arena

variable (heap : Arena) (handle : Handle)

theorem overflows_get : OverflowsFor False (heap.get handle) := by
  unfold get
  split
  · exact overflows_ok _
  · exact overflows_error nofun

theorem overflows_position (index : Int64) :
    OverflowsFor False (heap.position handle index) :=
  overflows_after (heap.overflows_get handle) fun alloc => alloc.overflows_position index

theorem overflows_positionUnchecked (index : Nat) :
    OverflowsFor False (heap.positionUnchecked handle index) := by
  refine overflows_after (heap.overflows_get handle) fun alloc => ?_
  unfold Allocation.positionUnchecked
  split
  · exact overflows_ok _
  · exact overflows_error nofun

theorem overflows_load (index : Int64) : OverflowsFor False (heap.load handle index) := by
  refine overflows_after (heap.overflows_get handle) fun alloc => ?_
  refine overflows_after (alloc.overflows_position index) fun i => ?_
  split
  · exact overflows_ok _
  · exact overflows_error nofun
  · exact overflows_error nofun

theorem overflows_loadUnchecked (index : Nat) :
    OverflowsFor False (heap.loadUnchecked handle index) := by
  refine overflows_after (heap.overflows_get handle) fun alloc => ?_
  unfold Allocation.loadUnchecked
  split
  · exact overflows_ok _
  · exact overflows_error nofun

end Arena

/-! ## Registers that are there -/

namespace Registers

variable {registers : Registers} {address : Nat}

theorem locate_lt {mode : Addressing} {index : UInt16}
    (h : registers.locate mode index = .ok address) : address < registers.size := by
  unfold locate at h
  cases mode
  all_goals
    simp only at h
    split at h
    · cases h
      assumption
    · cases h

theorem get_of_lt (h : address < registers.size) :
    registers.get address = .ok (registers.cells[address]) := by
  have hCell : registers.cells[address]? = some registers.cells[address] :=
    Array.getElem?_eq_getElem h
  unfold get
  rw [hCell]

theorem set_of_lt (h : address < registers.size) (value : Value) :
    registers.set address value = .ok (registers.write address value) := by
  unfold set
  rw [if_pos h]

section Read

variable (h : address < registers.size)

include h

theorem overflows_get : OverflowsFor False (registers.get address) := by
  rw [get_of_lt h]
  exact overflows_ok _

theorem overflows_long : OverflowsFor False (registers.long address) :=
  overflows_after (overflows_get h) Value.overflows_asLong

theorem overflows_bool : OverflowsFor False (registers.bool address) :=
  overflows_after (overflows_get h) Value.overflows_asBool

theorem overflows_address : OverflowsFor False (registers.address address) :=
  overflows_after (overflows_get h) Value.overflows_asAddress

theorem overflows_handle : OverflowsFor False (registers.handle address) :=
  overflows_after (overflows_get h) Value.overflows_asHandle

end Read

end Registers

namespace Machine

variable {machine : Machine σ} {ins : Instruction} {op : Operation}

theorem locate_lt {slot address : Nat} (h : machine.locate ins slot = .ok address) :
    address < machine.registers.size :=
  Registers.locate_lt h

/-! ## Located instructions -/

/-- Every register operand of the instruction names a register of the stack. -/
def Located (machine : Machine σ) (ins : Instruction) (op : Operation) : Prop :=
  ∀ slot operand, op.operands[slot]? = some operand → operand.isRegister = true →
    ∃ address, machine.locate ins slot = .ok address

/-- Why an instruction that finds its registers overflows all the same: it is told to, or it
would open one call or frame too many, or move the base past the stack. -/
def RunsOut (machine : Machine σ) (ins : Instruction) : Operation → Prop
  | .abort => Status.ofCode? ins.a = some (.stopped .stackOverflow)
  | .call => machine.config.frameLimit ≤ machine.calls.size
  | .stackOffset => machine.registers.size ≤ machine.registers.base + ins.a.toNat
  | .gcNewFrame => machine.memory.collector.frameLimit ≤ machine.memory.collector.depth
  | _ => False

/-- A located operand goes on with the address of a register. -/
theorem Located.bind {reason : Prop} (h : machine.Located ins op) (slot : Nat)
    {second : Nat → Except Fault Effect} {operand : OperandClass}
    (hOperand : op.operands[slot]? = some operand) (hRegister : operand.isRegister = true)
    (hSecond : ∀ address, address < machine.registers.size →
      OverflowsFor reason (second address)) :
    OverflowsFor reason (machine.locate ins slot >>= second) := by
  obtain ⟨address, hAddress⟩ := h slot operand hOperand hRegister
  rw [hAddress]
  exact hSecond address (locate_lt hAddress)

theorem overflows_planAllocate (address : Nat) (size mode : UInt16) :
    OverflowsFor False (machine.planAllocate address size mode) :=
  overflows_after (overflows_orFault _) fun _ =>
    overflows_after (overflows_require nofun) fun _ => overflows_ok _

theorem overflows_planFree {address : Nat} (h : address < machine.registers.size) :
    OverflowsFor False (machine.planFree address) :=
  overflows_after (Registers.overflows_handle h) fun _ =>
    overflows_after (overflows_require nofun) fun _ => overflows_ok _

theorem overflows_planTrace {address : Nat} (h : address < machine.registers.size) :
    OverflowsFor False (machine.planTrace address) :=
  overflows_after (Registers.overflows_handle h) fun _ =>
    overflows_after (overflows_require nofun) fun _ => overflows_ok _

theorem overflows_immediate (word kind : UInt16) :
    OverflowsFor False (immediate word kind) := by
  refine overflows_after (overflows_orFault _) fun kind => ?_
  cases kind with
  | long | float | bool => exact overflows_ok _
  | char =>
    simp only
    split
    · exact overflows_ok _
    · exact overflows_error nofun

theorem operands_of_binary {f : Value → Value → Except Fault Value} (h : op.binary? = some f) :
    op.operands = [.reg, .reg, .reg] := by
  cases op with
  | and | or | boolEqual | charEqual | longEqual | floatEqual | longMore | longLess
  | longMoreEqual | longLessEqual | longAdd | longSubtract | longMultiply | longDivide
  | longModulo | longExponentiate | floatMore | floatLess | floatMoreEqual | floatLessEqual
  | floatAdd | floatSubtract | floatMultiply | floatDivide | floatModulo
  | floatExponentiate => rfl
  | _ => cases h

theorem operands_of_unary {f : Value → Except Fault Value} (h : op.unary? = some f) :
    op.operands = [.reg, .reg] := by
  cases op with
  | not | longNegate | floatNegate => rfl
  | _ => cases h

theorem Located.overflows_planCompute (h : machine.Located ins op) :
    OverflowsFor False (machine.planCompute ins op) := by
  unfold planCompute
  rcases hBinary : op.binary? with _ | f
  · rcases hUnary : op.unary? with _ | f
    · exact overflows_error nofun
    · have hOperands := operands_of_unary hUnary
      refine h.bind 0 (by rw [hOperands]; rfl) rfl fun source hSource => ?_
      refine h.bind 1 (by rw [hOperands]; rfl) rfl fun target _ => ?_
      refine overflows_after (Registers.overflows_get hSource) fun value => ?_
      exact overflows_after (Operation.overflows_unary hUnary value) fun _ => overflows_ok _
  · have hOperands := operands_of_binary hBinary
    refine h.bind 0 (by rw [hOperands]; rfl) rfl fun left hLeft => ?_
    refine h.bind 1 (by rw [hOperands]; rfl) rfl fun right hRight => ?_
    refine h.bind 2 (by rw [hOperands]; rfl) rfl fun target _ => ?_
    refine overflows_after (Registers.overflows_get hLeft) fun x => ?_
    refine overflows_after (Registers.overflows_get hRight) fun y => ?_
    exact overflows_after (Operation.overflows_binary hBinary x y) fun _ => overflows_ok _

theorem overflows_planAbort (ins : Instruction) :
    OverflowsFor (machine.RunsOut ins .abort) (planAbort ins.a) := by
  unfold planAbort
  split
  · exact overflows_ok _
  · rename_i fault hStatus
    intro hFault
    rw [Except.error.inj hFault] at hStatus
    exact hStatus
  · exact overflows_error nofun

/-- A located instruction overflows for its own reason only, never for a register. -/
theorem Located.overflows_planFor (h : machine.Located ins op) :
    OverflowsFor (machine.RunsOut ins op) (machine.planFor ins op) := by
  unfold planFor
  cases op with
  | abort => exact overflows_planAbort ins
  | foreign =>
    refine h.bind 0 rfl rfl fun id hId => h.bind 1 rfl rfl fun input hInput =>
      h.bind 2 rfl rfl fun output _ => ?_
    exact overflows_after (Registers.overflows_long hId) fun _ =>
      overflows_after (Registers.overflows_get hInput) fun _ => overflows_ok _
  | move =>
    refine h.bind 0 rfl rfl fun target _ => h.bind 1 rfl rfl fun source hSource => ?_
    exact overflows_after (Registers.overflows_get hSource) fun _ => overflows_ok _
  | set =>
    refine h.bind 0 rfl rfl fun target _ => ?_
    exact overflows_after (overflows_immediate _ _) fun _ => overflows_ok _
  | jump => exact overflows_ok _
  | jumpCheck =>
    refine h.bind 0 rfl rfl fun condition hCondition => ?_
    exact overflows_after (Registers.overflows_bool hCondition) fun _ => overflows_ok _
  | call =>
    refine h.bind 0 rfl rfl fun callee hCallee => ?_
    refine overflows_after (Registers.overflows_address hCallee) fun target => ?_
    refine overflows_bind (overflows_require fun hRoom _ => ?_) fun _ _ => overflows_ok _
    simpa [RunsOut] using hRoom
  | ret => exact overflows_after (overflows_require nofun) fun _ => overflows_ok _
  | label => exact h.bind 0 rfl rfl fun target _ => overflows_ok _
  | loadAlloc =>
    refine h.bind 0 rfl rfl fun array hArray => h.bind 1 rfl rfl fun index hIndex =>
      h.bind 2 rfl rfl fun target _ => ?_
    refine overflows_after (Registers.overflows_handle hArray) fun _ => ?_
    refine overflows_after (Registers.overflows_long hIndex) fun _ => ?_
    exact overflows_after (Arena.overflows_load _ _ _) fun _ => overflows_ok _
  | loadAllocI =>
    refine h.bind 0 rfl rfl fun array hArray => h.bind 1 rfl rfl fun target _ => ?_
    refine overflows_after (Registers.overflows_handle hArray) fun _ => ?_
    exact overflows_after (Arena.overflows_loadUnchecked _ _ _) fun _ => overflows_ok _
  | loadAllocIBound =>
    refine h.bind 0 rfl rfl fun array hArray => h.bind 1 rfl rfl fun target _ => ?_
    refine overflows_after (Registers.overflows_handle hArray) fun _ => ?_
    exact overflows_after (Arena.overflows_load _ _ _) fun _ => overflows_ok _
  | storeAlloc =>
    refine h.bind 0 rfl rfl fun array hArray => h.bind 1 rfl rfl fun index hIndex =>
      h.bind 2 rfl rfl fun source hSource => ?_
    refine overflows_after (Registers.overflows_handle hArray) fun _ => ?_
    refine overflows_after (Registers.overflows_long hIndex) fun _ => ?_
    refine overflows_after (Registers.overflows_get hSource) fun _ => ?_
    exact overflows_after (Arena.overflows_position _ _ _) fun _ => overflows_ok _
  | storeAllocI =>
    refine h.bind 0 rfl rfl fun array hArray => h.bind 1 rfl rfl fun source hSource => ?_
    refine overflows_after (Registers.overflows_handle hArray) fun _ => ?_
    refine overflows_after (Registers.overflows_get hSource) fun _ => ?_
    exact overflows_after (Arena.overflows_positionUnchecked _ _ _) fun _ => overflows_ok _
  | storeAllocIBound =>
    refine h.bind 0 rfl rfl fun array hArray => h.bind 1 rfl rfl fun source hSource => ?_
    refine overflows_after (Registers.overflows_handle hArray) fun _ => ?_
    refine overflows_after (Registers.overflows_get hSource) fun _ => ?_
    exact overflows_after (Arena.overflows_position _ _ _) fun _ => overflows_ok _
  | confTrace =>
    refine h.bind 0 rfl rfl fun array hArray => ?_
    refine overflows_after (Registers.overflows_handle hArray) fun _ => ?_
    exact overflows_after (Arena.overflows_position _ _ _) fun _ => overflows_ok _
  | dynamicConf =>
    refine h.bind 0 rfl rfl fun array hArray => h.bind 1 rfl rfl fun flag hFlag => ?_
    refine overflows_after (Registers.overflows_handle hArray) fun _ => ?_
    refine overflows_after (Registers.overflows_bool hFlag) fun _ => ?_
    exact overflows_after (Arena.overflows_position _ _ _) fun _ => overflows_ok _
  | dynamicConfAll =>
    refine h.bind 0 rfl rfl fun array hArray => h.bind 1 rfl rfl fun flag hFlag => ?_
    refine overflows_after (Registers.overflows_handle hArray) fun _ => ?_
    refine overflows_after (Registers.overflows_bool hFlag) fun _ => ?_
    exact overflows_after (overflows_require nofun) fun _ => overflows_ok _
  | stackOffset =>
    refine overflows_bind ?_ fun _ _ => overflows_ok _
    unfold Registers.baseAbove
    simp only
    split
    · exact overflows_ok _
    · rename_i hPast
      exact fun _ => Nat.le_of_not_lt hPast
  | stackDeoffset =>
    refine overflows_after ?_ fun _ => overflows_ok _
    unfold Registers.baseBelow
    split
    · exact overflows_ok _
    · exact overflows_error nofun
  | alloc =>
    refine h.bind 0 rfl rfl fun target _ => h.bind 1 rfl rfl fun size hSize => ?_
    refine overflows_after (Registers.overflows_long hSize) fun _ => ?_
    refine overflows_after (overflows_require nofun) fun _ => ?_
    exact overflows_planAllocate _ _ _
  | allocI => exact h.bind 0 rfl rfl fun target _ => overflows_planAllocate _ _ _
  | free => exact h.bind 0 rfl rfl fun array hArray => overflows_planFree hArray
  | dynamicFree =>
    refine h.bind 0 rfl rfl fun array hArray => h.bind 1 rfl rfl fun flag hFlag => ?_
    refine overflows_after (Registers.overflows_bool hFlag) fun taken => ?_
    cases taken with
    | true => exact overflows_planFree hArray
    | false => exact overflows_ok _
  | gcNewFrame =>
    refine overflows_bind (overflows_require fun hRoom _ => ?_) fun _ _ => overflows_ok _
    simpa [RunsOut, Collector.canOpen] using hRoom
  | gcTrace => exact h.bind 0 rfl rfl fun array hArray => overflows_planTrace hArray
  | dynamicTrace =>
    refine h.bind 0 rfl rfl fun array hArray => h.bind 1 rfl rfl fun flag hFlag => ?_
    refine overflows_after (Registers.overflows_bool hFlag) fun taken => ?_
    cases taken with
    | true => exact overflows_planTrace hArray
    | false => exact overflows_ok _
  | gcClean => exact overflows_after (overflows_require nofun) fun _ => overflows_ok _
  | length =>
    refine h.bind 0 rfl rfl fun array hArray => h.bind 1 rfl rfl fun target _ => ?_
    refine overflows_after (Registers.overflows_handle hArray) fun _ => ?_
    exact overflows_after (Arena.overflows_get _ _) fun _ => overflows_ok _
  | _ => exact h.overflows_planCompute

end Machine

end RegisterMachine

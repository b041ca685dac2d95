-- The slots that an operation does not declare are spare: no instruction reads them, so a
-- stream whose spare slots are set to zero runs as before and is as valid as before.
import RegisterMachine.Proofs.Runs
import RegisterMachine.Proofs.ValidStreams

namespace RegisterMachine

namespace Instruction

/-! ## Instructions -/

/-- The slots that the operation does not declare hold zero. -/
def SparesNothing (ins : Instruction) : Prop :=
  ∀ slot < 3, ins.operandCount ≤ slot → ins.operand slot = 0

/-- The instruction with zero in its spare slots. -/
def trimmed (ins : Instruction) : Instruction :=
  let kept (slot : Nat) : UInt16 := if slot < ins.operandCount then ins.operand slot else 0
  ⟨ins.opcode, kept 0, kept 1, kept 2⟩

theorem trimmed_eq_self {ins : Instruction} (h : ins.SparesNothing) : ins.trimmed = ins := by
  have hKept : ∀ slot < 3,
      (if slot < ins.operandCount then ins.operand slot else 0) = ins.operand slot := by
    intro slot hSlot
    split
    · rfl
    · rename_i hSpare
      exact (h slot hSlot (Nat.le_of_not_lt hSpare)).symm
  unfold trimmed
  simp only [hKept 0 (by decide), hKept 1 (by decide), hKept 2 (by decide)]
  rfl

theorem operandCount_of_decode? {ins : Instruction} {op : Operation}
    (h : ins.opcode.decode? = some op) : ins.operandCount = op.operands.length := by
  unfold operandCount
  rw [h]

theorem trimmed_of_decode? {ins : Instruction} {op : Operation}
    (h : ins.opcode.decode? = some op) :
    ins.trimmed = ⟨ins.opcode, if 0 < op.operands.length then ins.a else 0,
      if 1 < op.operands.length then ins.b else 0,
      if 2 < op.operands.length then ins.c else 0⟩ := by
  unfold trimmed
  rw [operandCount_of_decode? h]
  rfl

theorem isSentinel_trimmed (ins : Instruction) : ins.trimmed.isSentinel = ins.isSentinel := by
  unfold isSentinel
  by_cases hOpcode : ins.opcode = sentinel.opcode
  · have hDecode : ins.opcode.decode? = some .abort := by
      rw [hOpcode]
      decide
    rw [trimmed_of_decode? hDecode]
    rfl
  · have hTrimmed : ins.trimmed.opcode = ins.opcode := rfl
    rw [hTrimmed, decide_eq_false hOpcode, Bool.false_and, Bool.false_and]

/-- No target is named in a spare slot. -/
theorem target?_trimmed {ins : Instruction} {op : Operation} (h : ins.opcode.decode? = some op) :
    ins.trimmed.target? op = ins.target? op := by
  rw [trimmed_of_decode? h]
  cases op <;> rfl

theorem defect?_trimmed (length index : Nat) (ins : Instruction) :
    ins.trimmed.defect? length index = ins.defect? length index := by
  have hOpcode : ins.trimmed.opcode = ins.opcode := rfl
  unfold defect?
  rw [hOpcode]
  rcases hBase : ins.opcode.base? with _ | op
  · rfl
  · rcases hDecode : ins.opcode.decode? with _ | decoded
    · rfl
    · have hOp := Opcode.base?_of_decode? hDecode
      rw [hBase] at hOp
      cases hOp
      simp only [target?_trimmed hDecode]

end Instruction

/-! ## Streams -/

/-- What a stream is searched for does not depend on its spare slots. -/
theorem findSome?_map_trimmed {α : Type} (code : Array Instruction)
    {find : Instruction × Nat → Option α}
    (hFind : ∀ ins index, find (ins.trimmed, index) = find (ins, index)) :
    (code.map Instruction.trimmed).toList.zipIdx.findSome? find
      = code.toList.zipIdx.findSome? find := by
  rw [Array.toList_map, List.zipIdx_map, List.findSome?_map]
  congr 1
  funext pair
  exact hFind pair.1 pair.2

/-- Spare slots play no part in validation. -/
theorem validate_map_trimmed (code : Array Instruction) :
    validate (code.map Instruction.trimmed) = validate code := by
  have hLast : (code.map Instruction.trimmed).back?.any Instruction.isSentinel
      = code.back?.any Instruction.isSentinel := by
    rw [Array.back?_map, Option.any_map]
    congr 1
    funext ins
    exact ins.isSentinel_trimmed
  unfold validate
  rw [hLast, Array.size_map,
    findSome?_map_trimmed code fun ins index => ins.defect?_trimmed code.size index]

namespace Machine

variable {σ : Type}

/-- No operation reads a slot that it does not declare. -/
theorem planFor_trimmed (machine : Machine σ) {ins : Instruction} {op : Operation}
    (h : ins.opcode.decode? = some op) :
    machine.planFor ins.trimmed op = machine.planFor ins op := by
  rw [Instruction.trimmed_of_decode? h]
  cases op <;> rfl

theorem exec_trimmed (machine : Machine σ) (ins : Instruction) :
    machine.exec ins.trimmed = machine.exec ins := by
  have hOpcode : ins.trimmed.opcode = ins.opcode := rfl
  unfold exec plan
  rw [hOpcode]
  rcases hDecode : ins.opcode.decode? with _ | op
  · rfl
  · simp only [machine.planFor_trimmed hDecode]

theorem step_map_trimmed (machine : Machine σ) (code : Array Instruction) :
    machine.step (code.map Instruction.trimmed) = machine.step code := by
  unfold step
  rw [Array.getElem?_map]
  rcases code[machine.ip]? with _ | ins
  · rfl
  · simp only [Option.map_some, exec_trimmed]

/-- A stream whose spare slots are set to zero runs as before, from every machine. -/
theorem execute_map_trimmed (fuel : Nat) (code : Array Instruction) (machine : Machine σ) :
    machine.execute fuel (code.map Instruction.trimmed) = machine.execute fuel code := by
  unfold execute
  rw [steps_congr fun _ last _ => last.step_map_trimmed code]

end Machine

end RegisterMachine

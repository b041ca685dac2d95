-- Instruction lines and the instructions that they stand for. When the labels are known, the
-- second pass reads a line as an instruction if its words stand for it, and only then; slots
-- that the operation does not declare stay zero.
import RegisterMachine.Assembly.Source
import RegisterMachine.Proofs.SpareSlots

namespace RegisterMachine.Assembly

variable {labels : Labels} {number : Nat}

/-! ## One line -/

/-- The words of a line stand for an instruction: the first one is its mnemonic, and the others
are read as its operands. -/
structure Encodes (labels : Labels) (texts : List (List Char)) (ins : Instruction) : Prop where
  opcode : texts.head?.bind (fun head => Opcode.ofMnemonic? (String.ofList head)) = some ins.opcode
  operands : ∃ op, ins.opcode.decode? = some op ∧ texts.tail.length = op.operands.length ∧
    ∀ slot operandClass text, op.operands[slot]? = some operandClass →
      texts.tail[slot]? = some text → operand labels operandClass text = .ok (ins.operand slot)

section Operands

variable {classes : List OperandClass} {tokens : List Token} {values : List UInt16}

theorem operands_of_getElem? {value : Nat → UInt16} (hTokens : tokens.length = classes.length)
    (h : ∀ slot operandClass (token : Token), classes[slot]? = some operandClass →
      tokens[slot]? = some token → operand labels operandClass token.text = .ok (value slot)) :
    operands labels number (classes.zip tokens) = .ok ((List.range classes.length).map value) := by
  induction classes generalizing tokens value with
  | nil => rfl
  | cons operandClass classes ih =>
    rcases tokens with _ | ⟨token, tokens⟩
    · cases hTokens
    · have hMore := ih (Nat.succ.inj hTokens) fun slot => h (slot + 1)
      rw [List.zip_cons_cons, operands, h 0 operandClass token rfl rfl, hMore, List.length_cons,
        List.range_succ_eq_map, List.map_cons, List.map_map]
      rfl

theorem getElem?_operands (h : operands labels number (classes.zip tokens) = .ok values)
    {slot : Nat} {operandClass : OperandClass} {token : Token}
    (hClass : classes[slot]? = some operandClass) (hToken : tokens[slot]? = some token) :
    ∃ value, values[slot]? = some value ∧ operand labels operandClass token.text = .ok value := by
  induction classes generalizing tokens values slot with
  | nil => cases hClass
  | cons first classes ih =>
    rcases tokens with _ | ⟨firstToken, tokens⟩
    · cases hToken
    · obtain ⟨value, hValue, hRest⟩ := Arena.bind_eq_ok.1 h
      obtain ⟨more, hMore, hValues⟩ := Arena.bind_eq_ok.1 hRest
      cases hValues
      rcases slot with _ | slot
      · cases hClass
        cases hToken
        refine ⟨value, rfl, ?_⟩
        rcases hOperand : operand labels operandClass token.text with defect | found
        · rw [hOperand] at hValue
          cases hValue
        · rw [hOperand] at hValue
          cases hValue
          rfl
      · exact ih hMore hClass hToken

end Operands

/-- Words that stand for an instruction are read as it, with zero in its spare slots. -/
theorem instruction_of_encodes {tokens : List Token} {ins : Instruction}
    (h : Encodes labels (tokens.map Token.text) ins) :
    instruction labels number tokens = .ok ins.trimmed := by
  obtain ⟨hOpcode, op, hDecode, hLength, hOperands⟩ := h
  rcases tokens with _ | ⟨head, arguments⟩
  · cases hOpcode
  · have hMnemonic : Opcode.ofMnemonic? head.string = some ins.opcode := by
      rwa [List.map_cons, List.head?_cons, Option.bind_some] at hOpcode
    rw [List.map_cons, List.tail_cons, List.length_map] at hLength
    have hValues : operands labels number (op.operands.zip arguments)
        = .ok ((List.range op.operands.length).map ins.operand) := by
      refine operands_of_getElem? hLength fun slot operandClass token hClass hToken => ?_
      refine hOperands slot operandClass token.text hClass ?_
      rw [List.map_cons, List.tail_cons, List.getElem?_map, hToken]
      rfl
    have hSlot : ∀ slot : Nat, ((List.range op.operands.length).map ins.operand)[slot]?.getD 0
        = if slot < op.operands.length then ins.operand slot else 0 := by
      intro slot
      rw [List.getElem?_map]
      split
      · rename_i hSlot
        rw [List.getElem?_range hSlot]
        rfl
      · rename_i hSlot
        rw [List.getElem?_eq_none (by simpa using hSlot)]
        rfl
    rw [instruction, hMnemonic]
    simp only [hDecode]
    rw [if_neg (not_not.2 hLength), hValues, Instruction.trimmed_of_decode? hDecode]
    simp only [bind, Except.bind, pure, Except.pure, hSlot]
    rfl

/-- A line that is read as an instruction stands for it. -/
theorem encodes_of_instruction {tokens : List Token} {ins : Instruction}
    (h : instruction labels number tokens = .ok ins) :
    Encodes labels (tokens.map Token.text) ins := by
  rcases tokens with _ | ⟨head, arguments⟩
  · cases h
  · rw [instruction] at h
    split at h
    · cases h
    · rename_i opcode hOpcode
      split at h
      · cases h
      · rename_i op hDecode
        split at h
        · cases h
        · rename_i hLength
          obtain ⟨values, hValues, hMade⟩ := Arena.bind_eq_ok.1 h
          cases hMade
          refine ⟨?_, op, hDecode, by simpa using hLength, ?_⟩
          · rwa [List.map_cons, List.head?_cons, Option.bind_some]
          intro slot operandClass text hClass hText
          rw [List.map_cons, List.tail_cons, List.getElem?_map] at hText
          obtain ⟨token, hToken, rfl⟩ := Option.map_eq_some_iff.1 hText
          obtain ⟨value, hValue, hOperand⟩ := getElem?_operands hValues hClass hToken
          have hSlot : slot < 3 :=
            Nat.lt_of_lt_of_le (List.getElem?_eq_some_iff.1 hClass).1 op.length_operands_le
          rw [hOperand]
          rcases slot with _ | _ | _ | slot
          · simp [Instruction.operand, hValue]
          · simp [Instruction.operand, hValue]
          · simp [Instruction.operand, hValue]
          · omega

/-! ## All lines -/

/-- Lines stand for instructions, one by one. -/
def EncodesAll (labels : Labels) (lines : List (List (List Char))) (code : List Instruction) :
    Prop :=
  List.Forall₂ (Encodes labels) lines code

theorem EncodesAll.getElem? {lines : List (List (List Char))} {code : List Instruction}
    (h : EncodesAll labels lines code) {k : Nat} {texts : List (List Char)}
    (hTexts : lines[k]? = some texts) : ∃ ins, code[k]? = some ins ∧ Encodes labels texts ins := by
  induction h generalizing k with
  | nil => cases hTexts
  | @cons first ins lines code hFirst _ ih =>
    rcases k with _ | k
    · cases hTexts
      exact ⟨ins, rfl, hFirst⟩
    · exact ih hTexts

theorem instructions_of_encodes {lines : List (Nat × List Token)} {code : List Instruction}
    (h : EncodesAll labels (lines.map fun line => line.2.map Token.text) code)
    (done : Array Instruction) :
    instructions labels done lines = .ok (done ++ (code.map Instruction.trimmed).toArray) := by
  induction lines generalizing done code with
  | nil =>
    cases h
    simp [instructions]
  | cons line rest ih =>
    obtain ⟨number, tokens⟩ := line
    rw [List.map_cons] at h
    cases h with
    | cons hFirst hRest =>
      rw [instructions, instruction_of_encodes hFirst]
      simp only
      rw [ih hRest]
      simp

theorem encodes_of_instructions {done code : Array Instruction}
    {lines : List (Nat × List Token)} (h : instructions labels done lines = .ok code) :
    ∃ read : List Instruction, code = done ++ read.toArray ∧
      EncodesAll labels (lines.map fun line => line.2.map Token.text) read := by
  induction lines generalizing done with
  | nil =>
    cases h
    exact ⟨[], by simp, .nil⟩
  | cons line rest ih =>
    rw [instructions] at h
    split at h
    · rename_i ins hIns
      obtain ⟨read, rfl, hRead⟩ := ih h
      exact ⟨ins :: read, by simp, .cons (encodes_of_instruction hIns) hRead⟩
    · cases h

end RegisterMachine.Assembly

-- The defects of a line. What either pass finds wrong with a line is said here by the tokens of
-- the line, the lines above it and the labels of the source alone, and so is the column that it is
-- found at. The first pass refuses a line, and the second pass an instruction, for its defect.
import RegisterMachine.Proofs.Labels
import RegisterMachine.Proofs.LineScans
import RegisterMachine.Proofs.Mnemonics

namespace RegisterMachine.Assembly

/-! ## What can be wrong with a line -/

/-- What the first pass finds wrong with a line below the lines `above`, and the column that it
points to. -/
inductive DraftDefect (above : List (List Char)) (line : List Char) : Nat → SourceDefect → Prop
  | quote {column : Nat} (h : tokens line = .error column) :
      DraftDefect above line column .unterminatedChar
  | directive {head : Token} {rest : List Token} {defect : SourceDefect}
      (h : tokens line = .ok (head :: rest)) (hPoint : head.text.head? = some '.')
      (hRefused : Draft.direct {} head.string (rest.map Token.text) = .error defect) :
      DraftDefect above line head.column defect
  | outOfReach {head : Token} {rest : List Token} {name : String}
      (h : tokens line = .ok (head :: rest)) (hName : definition? (words line) = some name)
      (hFar : UInt16.size ≤ (codeLines above).length) :
      DraftDefect above line head.column .labelOutOfReach
  | duplicate {head : Token} {rest : List Token} {name : String}
      (h : tokens line = .ok (head :: rest)) (hName : definition? (words line) = some name)
      (hNear : (codeLines above).length < UInt16.size)
      (hTaken : ∃ other ∈ above, definition? (words other) = some name) :
      DraftDefect above line head.column (.duplicateLabel name)

/-- The tokens of the instruction on a line of these tokens: those behind the label. -/
def instructionTokens : List Token → List Token
  | [] => []
  | head :: rest =>
    if head.text.head? = some '.' then []
    else if (labelName? head.text).isSome then rest
    else head :: rest

/-- The first operand that cannot be read, and its column. -/
inductive OperandDefect (labels : Labels) : List (OperandClass × Token) → Nat → SourceDefect → Prop
  | here {operandClass : OperandClass} {token : Token} {rest : List (OperandClass × Token)}
      {defect : SourceDefect} (h : operand labels operandClass token.text = .error defect) :
      OperandDefect labels ((operandClass, token) :: rest) token.column defect
  | later {operandClass : OperandClass} {token : Token} {rest : List (OperandClass × Token)}
      {value : UInt16} {column : Nat} {defect : SourceDefect}
      (h : operand labels operandClass token.text = .ok value)
      (hRest : OperandDefect labels rest column defect) :
      OperandDefect labels ((operandClass, token) :: rest) column defect

/-- What the second pass finds wrong with the tokens of an instruction, and the column that it
points to. -/
inductive InstructionDefect (labels : Labels) : List Token → Nat → SourceDefect → Prop
  | mnemonic {head : Token} {arguments : List Token} (h : Opcode.ofMnemonic? head.string = none) :
      InstructionDefect labels (head :: arguments) head.column (.unknownMnemonic head.string)
  | arity {head : Token} {arguments : List Token} {opcode : Opcode} {op : Operation}
      (h : Opcode.ofMnemonic? head.string = some opcode) (hDecode : opcode.decode? = some op)
      (hLength : arguments.length ≠ op.operands.length) :
      InstructionDefect labels (head :: arguments) head.column
        (.arityMismatch head.string op.operands.length arguments.length)
  | operand {head : Token} {arguments : List Token} {opcode : Opcode} {op : Operation}
      {column : Nat} {defect : SourceDefect}
      (h : Opcode.ofMnemonic? head.string = some opcode) (hDecode : opcode.decode? = some op)
      (hLength : arguments.length = op.operands.length)
      (hDefect : OperandDefect labels (op.operands.zip arguments) column defect) :
      InstructionDefect labels (head :: arguments) column defect

/-- What the second pass finds wrong with a line, and the column that it points to. -/
def CodeDefect (labels : Labels) (line : List Char) (column : Nat) (defect : SourceDefect) : Prop :=
  ∃ all, tokens line = .ok all ∧ InstructionDefect labels (instructionTokens all) column defect

/-- The labels that the lines define, with the number of instructions above them. -/
def Defines (lines : List (List Char)) (labels : Labels) : Prop :=
  ∀ (name : String) (index : UInt16), labels[name]? = some index ↔
    ∃ i line, lines[i]? = some line ∧ definition? (words line) = some name ∧
      index = UInt16.ofNat (indexOf lines i)

/-! ## One line of the first pass -/

/-- What a draft knows of the lines that it has taken in. -/
structure Knows (above : List (List Char)) (draft : Draft) : Prop where
  written : draft.written = codeLines above
  labels : Defines above draft.labels

theorem knows_nil : Knows [] {} := by
  refine ⟨rfl, fun name index => ?_⟩
  simp

section Line

variable {above : List (List Char)} {draft after : Draft} {number : Nat} {line : List Char}

theorem Defines.contains_iff {lines : List (List Char)} {labels : Labels} (h : Defines lines labels)
    (name : String) :
    labels.contains name = true ↔ ∃ line ∈ lines, definition? (words line) = some name := by
  rw [Std.HashMap.contains_eq_isSome_getElem?, Option.isSome_iff_exists]
  constructor
  · rintro ⟨index, hIndex⟩
    obtain ⟨i, line, hLine, hName, -⟩ := (h name index).1 hIndex
    exact ⟨line, List.mem_of_getElem? hLine, hName⟩
  · rintro ⟨line, hMem, hName⟩
    obtain ⟨i, hLine⟩ := List.getElem?_of_mem hMem
    exact ⟨_, (h name _).2 ⟨i, line, hLine, hName, rfl⟩⟩

theorem indexOf_append {i : Nat} (h : i ≤ above.length) (more : List (List Char)) :
    indexOf (above ++ more) i = indexOf above i := by
  rw [indexOf, indexOf, List.take_append_of_le_length h]

/-- Of the lines that define a name, one is new or it is the last one. -/
theorem exists_definition_concat {name : String} {index : UInt16} :
    (∃ i other, (above ++ [line])[i]? = some other ∧ definition? (words other) = some name ∧
        index = UInt16.ofNat (indexOf (above ++ [line]) i)) ↔
      (∃ i other, above[i]? = some other ∧ definition? (words other) = some name ∧
        index = UInt16.ofNat (indexOf above i)) ∨
      definition? (words line) = some name ∧ index = UInt16.ofNat (codeLines above).length := by
  have hLast : indexOf (above ++ [line]) above.length = (codeLines above).length := by
    rw [indexOf_append (Nat.le_refl _), indexOf, List.take_length]
  constructor
  · rintro ⟨i, other, hOther, hName, hIndex⟩
    rw [List.getElem?_append] at hOther
    split at hOther
    · rename_i hLt
      rw [indexOf_append (Nat.le_of_lt hLt)] at hIndex
      exact .inl ⟨i, other, hOther, hName, hIndex⟩
    · rename_i hLe
      rw [List.getElem?_singleton] at hOther
      split at hOther
      · rename_i hZero
        cases hOther
        obtain rfl : i = above.length := by omega
        rw [hLast] at hIndex
        exact .inr ⟨hName, hIndex⟩
      · cases hOther
  · rintro (⟨i, other, hOther, hName, hIndex⟩ | ⟨hName, hIndex⟩)
    · have hLt := (List.getElem?_eq_some_iff.1 hOther).1
      refine ⟨i, other, ?_, hName, ?_⟩
      · rw [List.getElem?_append_left hLt, hOther]
      · rw [indexOf_append (Nat.le_of_lt hLt), hIndex]
    · exact ⟨above.length, line, List.getElem?_concat_length, hName, by rw [hLast, hIndex]⟩

theorem Knows.takes (h : Knows above draft) (hTakes : Draft.Takes (words line) draft after) :
    Knows (above ++ [line]) after := by
  refine ⟨?_, fun name index => ?_⟩
  · rw [hTakes.written, h.written, codeLines_append, codeLines_cons]
    simp [codeLines]
  · rw [exists_definition_concat, ← h.labels name index]
    rcases hDefinition : definition? (words line) with _ | new
    · simp [hTakes.labels hDefinition]
    · obtain ⟨-, hNew, hLabels⟩ := hTakes.defines new hDefinition
      rw [hLabels, Std.HashMap.getElem?_insert, h.written]
      by_cases hName : new = name
      · subst hName
        have hNone : draft.labels[new]? = none := by
          rw [← Option.not_isSome_iff_eq_none, ← Std.HashMap.contains_eq_isSome_getElem?, hNew]
          decide
        simp [hNone, eq_comm]
      · simp [hName]

theorem bind_pure_eq_error {ε α β : Type} {found : Except ε α} {change : α → β} {error : ε} :
    (found >>= fun value => pure (change value)) = .error error ↔ found = .error error := by
  cases found <;> simp [bind, Except.bind, pure, Except.pure]

/-- Whether a directive is refused does not depend on what stands above it. -/
theorem direct_eq_error {name : String} {arguments : List (List Char)} {defect : SourceDefect} :
    draft.direct name arguments = .error defect ↔
      Draft.direct {} name arguments = .error defect := by
  unfold Draft.direct
  split
  · exact bind_pure_eq_error.trans bind_pure_eq_error.symm
  · exact bind_pure_eq_error.trans bind_pure_eq_error.symm
  · exact bind_pure_eq_error.trans bind_pure_eq_error.symm
  · exact bind_pure_eq_error.trans bind_pure_eq_error.symm
  · exact Iff.rfl

theorem Knows.define_eq_error (h : Knows above draft) {name : String} {defect : SourceDefect} :
    draft.define name = .error defect ↔
      UInt16.size ≤ (codeLines above).length ∧ defect = .labelOutOfReach ∨
      (codeLines above).length < UInt16.size ∧
        (∃ other ∈ above, definition? (words other) = some name) ∧
        defect = .duplicateLabel name := by
  unfold Draft.define
  rw [← h.labels.contains_iff, ← h.written, Draft.length_written]
  simp only
  split
  · rename_i hFar
    constructor
    · rintro ⟨⟩
      exact .inl ⟨hFar, rfl⟩
    · rintro (⟨-, rfl⟩ | ⟨hNear, -⟩)
      · rfl
      · exact absurd hFar (Nat.not_le.2 hNear)
  · rename_i hNear
    split
    · rename_i hTaken
      constructor
      · rintro ⟨⟩
        exact .inr ⟨Nat.not_le.1 hNear, hTaken, rfl⟩
      · rintro (⟨hFar, -⟩ | ⟨-, -, rfl⟩)
        · exact absurd hFar hNear
        · rfl
    · rename_i hNew
      constructor
      · exact nofun
      · rintro (⟨hFar, -⟩ | ⟨-, hTaken, -⟩)
        · exact absurd hFar hNear
        · exact absurd hTaken hNew

/-- The tokens of a line are refused for a directive or for a label. -/
theorem addTokens_eq_error {head : Token} {rest : List Token} {defect : SourceDefect} :
    draft.addTokens number (head :: rest) = .error defect ↔
      head.text.head? = some '.' ∧
        Draft.direct {} head.string (rest.map Token.text) = .error defect ∨
      ∃ name, definition? ((head :: rest).map Token.text) = some name ∧
        draft.define name = .error defect := by
  rw [Draft.addTokens, List.map_cons]
  by_cases hPoint : head.text.head? = some '.'
  · rw [if_pos hPoint, direct_eq_error,
      definition?_of_isDirective ((isDirective_cons (rest.map Token.text)).2 hPoint)]
    simp [hPoint]
  · rw [if_neg hPoint, definition?_cons hPoint]
    rcases labelName? head.text with _ | name
    · simp [hPoint]
    · simp only [bind_pure_eq_error]
      simp [hPoint]

/-- The defects of a line with tokens are those that its tokens are refused with. -/
theorem Knows.draftDefect_iff (h : Knows above draft) (number : Nat) {head : Token}
    {rest : List Token} (hTokens : tokens line = .ok (head :: rest)) {column : Nat}
    {defect : SourceDefect} :
    DraftDefect above line column defect ↔
      column = head.column ∧ draft.addTokens number (head :: rest) = .error defect := by
  have hWords : words line = (head :: rest).map Token.text := by rw [words, hTokens]
  rw [addTokens_eq_error, ← hWords]
  constructor
  · intro hDefect
    cases hDefect with
    | quote hQuote => cases hTokens.symm.trans hQuote
    | directive hOk hPoint hRefused =>
      cases hTokens.symm.trans hOk
      exact ⟨rfl, .inl ⟨hPoint, hRefused⟩⟩
    | outOfReach hOk hName hFar =>
      cases hTokens.symm.trans hOk
      exact ⟨rfl, .inr ⟨_, hName, h.define_eq_error.2 (.inl ⟨hFar, rfl⟩)⟩⟩
    | duplicate hOk hName hNear hTaken =>
      cases hTokens.symm.trans hOk
      exact ⟨rfl, .inr ⟨_, hName, h.define_eq_error.2 (.inr ⟨hNear, hTaken, rfl⟩)⟩⟩
  · rintro ⟨rfl, ⟨hPoint, hRefused⟩ | ⟨name, hName, hDefine⟩⟩
    · exact .directive hTokens hPoint hRefused
    · rcases h.define_eq_error.1 hDefine with ⟨hFar, rfl⟩ | ⟨hNear, hTaken, rfl⟩
      · exact .outOfReach hTokens hName hFar
      · exact .duplicate hTokens hName hNear hTaken

/-- A line is refused for its defect. -/
theorem Knows.addLine_eq_error (h : Knows above draft) (number : Nat) (line : List Char)
    (error : Error) :
    draft.addLine number line = .error error ↔
      ∃ column defect, DraftDefect above line column defect ∧
        error = .source number column defect := by
  unfold Draft.addLine
  rcases hTokens : tokens line with column | _ | ⟨head, rest⟩
  · constructor
    · rintro ⟨⟩
      exact ⟨column, _, .quote hTokens, rfl⟩
    · rintro ⟨_, _, hDefect, rfl⟩
      cases hDefect with
      | quote hQuote =>
        cases hTokens.symm.trans hQuote
        rfl
      | directive hOk | outOfReach hOk | duplicate hOk => cases hTokens.symm.trans hOk
  · constructor
    · exact nofun
    · rintro ⟨_, _, hDefect, -⟩
      cases hDefect with
      | quote hOther | directive hOther | outOfReach hOther | duplicate hOther =>
        cases hTokens.symm.trans hOther
  · simp only [h.draftDefect_iff number hTokens]
    rcases draft.addTokens number (head :: rest) with defect | after
    · constructor
      · rintro ⟨⟩
        exact ⟨_, _, ⟨rfl, rfl⟩, rfl⟩
      · rintro ⟨_, _, ⟨rfl, ⟨⟩⟩, rfl⟩
        rfl
    · constructor
      · exact nofun
      · rintro ⟨_, _, ⟨-, ⟨⟩⟩, -⟩

end Line

/-! ## The instruction lines -/

/-- The instruction line that the first pass makes of a line, if any. -/
def instructionLine (number : Nat) (line : List Char) : List (Nat × List Token) :=
  match tokens line with
  | .ok all => if instructionTokens all = [] then [] else [(number, instructionTokens all)]
  | .error _ => []

section InstructionLines

variable {draft after : Draft} {number : Nat}

theorem instructionLines_of_addTokens {all : List Token}
    (h : draft.addTokens number all = .ok after) :
    after.instructionLines.toList = draft.instructionLines.toList ++
      if instructionTokens all = [] then [] else [(number, instructionTokens all)] := by
  rcases all with _ | ⟨head, rest⟩
  · cases h
    simp [instructionTokens]
  · rw [Draft.addTokens] at h
    rw [instructionTokens]
    by_cases hPoint : head.text.head? = some '.'
    · rw [if_pos hPoint] at h
      simp [hPoint, (Draft.direct_eq_ok h).2]
    · rw [if_neg hPoint] at h
      rcases hName : labelName? head.text with _ | name
      · rw [hName] at h
        cases h
        simp [hPoint, Draft.addInstruction]
      · rw [hName] at h
        obtain ⟨defined, hDefine, hAfter⟩ := Arena.bind_eq_ok.1 h
        obtain ⟨-, -, rfl⟩ := Draft.define_eq_ok hDefine
        cases hAfter
        rcases rest with _ | ⟨next, rest⟩ <;> simp [hPoint, Draft.addInstruction]

theorem instructionLines_of_addLine {line : List Char}
    (h : draft.addLine number line = .ok after) :
    after.instructionLines.toList
      = draft.instructionLines.toList ++ instructionLine number line := by
  unfold Draft.addLine at h
  unfold instructionLine
  rcases hTokens : tokens line with column | all
  · rw [hTokens] at h
    cases h
  · rw [hTokens] at h
    simp only at h
    rcases hAdd : draft.addTokens number all with defect | next
    · rw [hAdd] at h
      cases h
    · rw [hAdd] at h
      cases h
      exact instructionLines_of_addTokens hAdd

end InstructionLines

/-! ## One line of the second pass -/

section Instruction

variable {labels : Labels} {number : Nat}

theorem operands_eq_error {slots : List (OperandClass × Token)} {error : Error} :
    operands labels number slots = .error error ↔
      ∃ column defect, OperandDefect labels slots column defect ∧
        error = .source number column defect := by
  induction slots generalizing error with
  | nil =>
    constructor
    · exact nofun
    · rintro ⟨_, _, ⟨⟩, -⟩
  | cons slot rest ih =>
    obtain ⟨operandClass, token⟩ := slot
    rw [operands]
    rcases hOperand : operand labels operandClass token.text with refused | value
    · constructor
      · rintro ⟨⟩
        exact ⟨_, _, .here hOperand, rfl⟩
      · rintro ⟨_, _, hDefect, rfl⟩
        cases hDefect with
        | here hRefused =>
          cases hOperand.symm.trans hRefused
          rfl
        | later hRead => cases hOperand.symm.trans hRead
    · change (operands labels number rest >>= fun values => pure (value :: values)) = _ ↔ _
      rw [bind_pure_eq_error, ih]
      constructor
      · rintro ⟨column, defect, hDefect, rfl⟩
        exact ⟨column, defect, .later hOperand hDefect, rfl⟩
      · rintro ⟨_, _, hDefect, rfl⟩
        cases hDefect with
        | here hRefused => cases hOperand.symm.trans hRefused
        | later _ hDefect => exact ⟨_, _, hDefect, rfl⟩

/-- What can be wrong with an instruction whose operation is known. -/
theorem instructionDefect_iff {head : Token} {arguments : List Token} {opcode : Opcode}
    {op : Operation} (hOpcode : Opcode.ofMnemonic? head.string = some opcode)
    (hDecode : opcode.decode? = some op) {column : Nat} {defect : SourceDefect} :
    InstructionDefect labels (head :: arguments) column defect ↔
      arguments.length ≠ op.operands.length ∧ column = head.column ∧
        defect = .arityMismatch head.string op.operands.length arguments.length ∨
      arguments.length = op.operands.length ∧
        OperandDefect labels (op.operands.zip arguments) column defect := by
  constructor
  · intro h
    cases h with
    | mnemonic hNone => cases hOpcode.symm.trans hNone
    | arity hOther hDecode' hLength =>
      cases hOpcode.symm.trans hOther
      cases hDecode.symm.trans hDecode'
      exact .inl ⟨hLength, rfl, rfl⟩
    | operand hOther hDecode' hLength hDefect =>
      cases hOpcode.symm.trans hOther
      cases hDecode.symm.trans hDecode'
      exact .inr ⟨hLength, hDefect⟩
  · rintro (⟨hLength, rfl, rfl⟩ | ⟨hLength, hDefect⟩)
    · exact .arity hOpcode hDecode hLength
    · exact .operand hOpcode hDecode hLength hDefect

/-- An instruction is refused for its defect. Every opcode that is read is legal, so that it is
never refused for that. -/
theorem instruction_eq_error (labels : Labels) (number : Nat) {all : List Token}
    (hSome : all ≠ []) (error : Error) :
    instruction labels number all = .error error ↔
      ∃ column defect, InstructionDefect labels all column defect ∧
        error = .source number column defect := by
  rcases all with _ | ⟨head, arguments⟩
  · exact absurd rfl hSome
  · rw [instruction]
    rcases hOpcode : Opcode.ofMnemonic? head.string with _ | opcode
    · constructor
      · rintro ⟨⟩
        exact ⟨_, _, .mnemonic hOpcode, rfl⟩
      · rintro ⟨_, _, hDefect, rfl⟩
        cases hDefect with
        | mnemonic => rfl
        | arity hOther | operand hOther => cases hOpcode.symm.trans hOther
    · obtain ⟨⟨op, hDecode⟩, -⟩ := Opcode.ofMnemonic?_eq_some.1 hOpcode
      simp only [hDecode, instructionDefect_iff hOpcode hDecode]
      split
      · rename_i hLength
        constructor
        · rintro ⟨⟩
          exact ⟨_, _, .inl ⟨hLength, rfl, rfl⟩, rfl⟩
        · rintro ⟨_, _, ⟨-, rfl, rfl⟩ | ⟨hSame, -⟩, rfl⟩
          · rfl
          · exact absurd hSame hLength
      · rename_i hSame
        rw [bind_pure_eq_error, operands_eq_error]
        simp [not_not.1 hSame]

/-- A line makes no instruction line and has nothing that the second pass could refuse, or makes
the one whose defects are those of the line. -/
theorem instructionLine_cases (labels : Labels) (number : Nat) (line : List Char) :
    (instructionLine number line = [] ∧ ∀ column defect, ¬ CodeDefect labels line column defect) ∨
    ∃ used, used ≠ [] ∧ instructionLine number line = [(number, used)] ∧
      ∀ column defect, CodeDefect labels line column defect ↔
        InstructionDefect labels used column defect := by
  unfold instructionLine CodeDefect
  rcases tokens line with column | all
  · refine .inl ⟨rfl, ?_⟩
    rintro _ _ ⟨_, ⟨⟩, -⟩
  · by_cases hSome : instructionTokens all = []
    · refine .inl ⟨if_pos hSome, ?_⟩
      rintro _ _ ⟨_, ⟨⟩, hDefect⟩
      rw [hSome] at hDefect
      cases hDefect
    · refine .inr ⟨_, hSome, if_neg hSome, fun column defect => ?_⟩
      simp

end Instruction

/-! ## Labels -/

section Labels

variable {labels other : Labels} {lines : List (List Char)}

theorem Defines.getElem?_eq (h : Defines lines labels) (hOther : Defines lines other)
    (name : String) : labels[name]? = other[name]? :=
  Option.ext fun index => (h name index).trans (hOther name index).symm

theorem operand_congr (h : ∀ name : String, labels[name]? = other[name]?)
    (operandClass : OperandClass) (text : List Char) :
    operand labels operandClass text = operand other operandClass text := by
  cases operandClass with
  | reg | loc => rfl
  | imm => simp only [operand, immediate, h]

theorem OperandDefect.congr (h : ∀ name : String, labels[name]? = other[name]?)
    {slots : List (OperandClass × Token)} {column : Nat} {defect : SourceDefect}
    (hDefect : OperandDefect labels slots column defect) :
    OperandDefect other slots column defect := by
  induction hDefect with
  | here hRefused => exact .here ((operand_congr h _ _).symm.trans hRefused)
  | later hRead _ ih => exact .later ((operand_congr h _ _).symm.trans hRead) ih

theorem InstructionDefect.congr (h : ∀ name : String, labels[name]? = other[name]?)
    {all : List Token} {column : Nat} {defect : SourceDefect}
    (hDefect : InstructionDefect labels all column defect) :
    InstructionDefect other all column defect := by
  cases hDefect with
  | mnemonic hNone => exact .mnemonic hNone
  | arity hOpcode hDecode hLength => exact .arity hOpcode hDecode hLength
  | operand hOpcode hDecode hLength hDefect =>
    exact .operand hOpcode hDecode hLength (hDefect.congr h)

end Labels

/-! ## Columns -/

section Columns

variable {line : List Char} {column : Nat} {defect : SourceDefect}

theorem DraftDefect.startsToken {above : List (List Char)}
    (h : DraftDefect above line column defect) : StartsToken line column := by
  have hStarts := allStart_tokens line
  cases h with
  | quote hTokens =>
    rw [hTokens] at hStarts
    exact hStarts
  | directive hTokens | outOfReach hTokens | duplicate hTokens =>
    rw [hTokens] at hStarts
    exact hStarts _ List.mem_cons_self

theorem OperandDefect.exists_mem {labels : Labels} {slots : List (OperandClass × Token)}
    (h : OperandDefect labels slots column defect) : ∃ slot ∈ slots, slot.2.column = column := by
  induction h with
  | here _ => exact ⟨_, List.mem_cons_self, rfl⟩
  | later _ _ ih =>
    obtain ⟨slot, hMem, hColumn⟩ := ih
    exact ⟨slot, List.mem_cons_of_mem _ hMem, hColumn⟩

theorem InstructionDefect.exists_mem {labels : Labels} {all : List Token}
    (h : InstructionDefect labels all column defect) : ∃ token ∈ all, token.column = column := by
  cases h with
  | mnemonic | arity => exact ⟨_, List.mem_cons_self, rfl⟩
  | operand _ _ _ hDefect =>
    obtain ⟨slot, hMem, hColumn⟩ := hDefect.exists_mem
    exact ⟨slot.2, List.mem_cons_of_mem _ (List.of_mem_zip hMem).2, hColumn⟩

theorem mem_of_mem_instructionTokens {all : List Token} {token : Token}
    (h : token ∈ instructionTokens all) : token ∈ all := by
  rcases all with _ | ⟨head, rest⟩
  · exact h
  · rw [instructionTokens] at h
    split at h
    · cases h
    · split at h
      · exact List.mem_cons_of_mem head h
      · exact h

theorem CodeDefect.startsToken {labels : Labels} (h : CodeDefect labels line column defect) :
    StartsToken line column := by
  obtain ⟨all, hTokens, hDefect⟩ := h
  have hStarts := allStart_tokens line
  rw [hTokens] at hStarts
  obtain ⟨token, hMem, rfl⟩ := hDefect.exists_mem
  exact hStarts token (mem_of_mem_instructionTokens hMem)

end Columns

end RegisterMachine.Assembly

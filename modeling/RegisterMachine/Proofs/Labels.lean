-- What a label stands for. A line of a source defines a label or none and holds an instruction
-- or none; the first pass gives a label the number of instructions above it, and the second
-- pass puts this number wherever the name of the label is an immediate.
import Mathlib
import RegisterMachine.Proofs.InstructionLines
import RegisterMachine.Proofs.ValidStreams

namespace RegisterMachine.Assembly

/-! ## The parts of a line -/

/-- The words of a line. A line with a quote that is not closed has none. -/
def words (line : List Char) : List (List Char) :=
  match tokens line with
  | .ok tokens => tokens.map Token.text
  | .error _ => []

/-- Whether the words are those of a directive. -/
def isDirective (texts : List (List Char)) : Bool :=
  texts.head?.bind List.head? = some '.'

/-- The label that a line of these words defines. -/
def definition? (texts : List (List Char)) : Option String :=
  if isDirective texts then none else texts.head?.bind labelName?

/-- The words of the instruction on a line of these words: those behind the label. -/
def instructionPart (texts : List (List Char)) : List (List Char) :=
  if isDirective texts then []
  else if (definition? texts).isSome then texts.tail
  else texts

/-- The words of the instructions of a source, line after line. -/
def codeLines (lines : List (List Char)) : List (List (List Char)) :=
  (lines.map fun line => instructionPart (words line)).filter (· ≠ [])

/-- The number of instructions above a line. -/
def indexOf (lines : List (List Char)) (i : Nat) : Nat :=
  (codeLines (lines.take i)).length

/-- The words of the instruction on a line, or else of the next one below it. -/
def following? (lines : List (List Char)) (i : Nat) : Option (List (List Char)) :=
  (codeLines (lines.drop i)).head?

section Parts

variable {head : List Char} {texts : List (List Char)}

theorem isDirective_cons (rest : List (List Char)) :
    isDirective (head :: rest) = true ↔ head.head? = some '.' :=
  decide_eq_true_iff

theorem definition?_of_isDirective (h : isDirective texts = true) : definition? texts = none := by
  rw [definition?, if_pos h]

theorem instructionPart_of_isDirective (h : isDirective texts = true) :
    instructionPart texts = [] := by
  rw [instructionPart, if_pos h]

theorem definition?_cons (h : head.head? ≠ some '.') (rest : List (List Char)) :
    definition? (head :: rest) = labelName? head := by
  rw [definition?, if_neg (mt (isDirective_cons rest).1 h)]
  rfl

theorem instructionPart_of_name {name : String} (h : definition? texts = some name) :
    instructionPart texts = texts.tail := by
  have hDirective : ¬ isDirective texts = true := by
    intro hDirective
    rw [definition?_of_isDirective hDirective] at h
    cases h
  rw [instructionPart, if_neg hDirective, h]
  rfl

theorem instructionPart_of_none (hDirective : isDirective texts = false)
    (h : definition? texts = none) : instructionPart texts = texts := by
  rw [instructionPart, hDirective, h]
  rfl

end Parts

theorem codeLines_append (lines more : List (List Char)) :
    codeLines (lines ++ more) = codeLines lines ++ codeLines more := by
  simp [codeLines]

theorem codeLines_cons (line : List Char) (lines : List (List Char)) :
    codeLines (line :: lines) =
      [instructionPart (words line)].filter (· ≠ []) ++ codeLines lines :=
  codeLines_append [line] lines

theorem indexOf_succ (line : List Char) (lines : List (List Char)) (i : Nat) :
    indexOf (line :: lines) (i + 1) =
      ([instructionPart (words line)].filter (· ≠ [])).length + indexOf lines i := by
  rw [indexOf, List.take_succ_cons, codeLines_cons, List.length_append]
  rfl

/-- The instruction that follows a line stands at the index of the line. -/
theorem getElem?_codeLines (lines : List (List Char)) (i : Nat) :
    (codeLines lines)[indexOf lines i]? = following? lines i := by
  have hSplit : codeLines lines = codeLines (lines.take i) ++ codeLines (lines.drop i) := by
    rw [← codeLines_append, List.take_append_drop]
  rw [hSplit, indexOf, List.getElem?_append_right (Nat.le_refl _), Nat.sub_self, following?,
    List.head?_eq_getElem?]

theorem following?_of_getElem? {lines : List (List Char)} {i : Nat} {line : List Char}
    (hLine : lines[i]? = some line) (hCode : instructionPart (words line) ≠ []) :
    following? lines i = some (instructionPart (words line)) := by
  obtain ⟨hi, rfl⟩ := List.getElem?_eq_some_iff.1 hLine
  rw [following?, List.drop_eq_getElem_cons hi, codeLines_cons]
  simp [hCode]

theorem indexOf_of_following?_eq_none {lines : List (List Char)} {i : Nat}
    (h : following? lines i = none) : indexOf lines i = (codeLines lines).length := by
  have hRest : codeLines (lines.drop i) = [] := List.head?_eq_none_iff.1 h
  conv_rhs => rw [← List.take_append_drop i lines, codeLines_append, hRest, List.append_nil]
  rfl

/-! ## The first pass -/

/-- The words of the instruction lines that the first pass has found. -/
def Draft.written (draft : Draft) : List (List (List Char)) :=
  draft.instructionLines.toList.map fun line => line.2.map Token.text

theorem Draft.length_written (draft : Draft) :
    draft.written.length = draft.instructionLines.size := by
  simp [written]

theorem Draft.written_addInstruction (draft : Draft) (number : Nat) (tokens : List Token) :
    (draft.addInstruction number tokens).written
      = draft.written ++ [tokens.map Token.text] := by
  simp [written, addInstruction]

/-- What a line of the words `texts` does to a draft. -/
structure Draft.Takes (texts : List (List Char)) (draft after : Draft) : Prop where
  written : after.written = draft.written ++ [instructionPart texts].filter (· ≠ [])
  /-- A label is new, and gets the number of instructions so far. -/
  defines : ∀ name, definition? texts = some name →
    draft.written.length < UInt16.size ∧ draft.labels.contains name = false ∧
      after.labels = draft.labels.insert name (UInt16.ofNat draft.written.length)
  labels : definition? texts = none → after.labels = draft.labels

namespace Draft

theorem direct_eq_ok {draft after : Draft} {name : String} {arguments : List (List Char)}
    (h : draft.direct name arguments = .ok after) :
    after.labels = draft.labels ∧ after.instructionLines = draft.instructionLines := by
  unfold direct at h
  split at h
  · obtain ⟨_, -, hAfter⟩ := Arena.bind_eq_ok.1 h
    cases hAfter
    exact ⟨rfl, rfl⟩
  · obtain ⟨_, -, hAfter⟩ := Arena.bind_eq_ok.1 h
    cases hAfter
    exact ⟨rfl, rfl⟩
  · obtain ⟨_, -, hAfter⟩ := Arena.bind_eq_ok.1 h
    cases hAfter
    exact ⟨rfl, rfl⟩
  · obtain ⟨_, -, hAfter⟩ := Arena.bind_eq_ok.1 h
    cases hAfter
    exact ⟨rfl, rfl⟩
  · cases h

theorem define_eq_ok {draft after : Draft} {name : String} (h : draft.define name = .ok after) :
    draft.written.length < UInt16.size ∧ draft.labels.contains name = false ∧
      after = { draft with
        labels := draft.labels.insert name (UInt16.ofNat draft.written.length) } := by
  rw [length_written]
  unfold define at h
  simp only at h
  split at h
  · cases h
  · rename_i hReach
    split at h
    · cases h
    · rename_i hNew
      cases h
      exact ⟨Nat.lt_of_not_le hReach, by simpa using hNew, rfl⟩

/-- The words of a line, and nothing else of it, decide what it does. -/
theorem takes_of_addTokens {draft after : Draft} {number : Nat} {tokens : List Token}
    (h : draft.addTokens number tokens = .ok after) :
    Takes (tokens.map Token.text) draft after := by
  rcases tokens with _ | ⟨head, rest⟩
  · cases h
    exact ⟨by simp [instructionPart, isDirective, definition?], nofun, fun _ => rfl⟩
  · rw [addTokens] at h
    rw [List.map_cons]
    by_cases hPoint : head.text.head? = some '.'
    · rw [if_pos hPoint] at h
      obtain ⟨hLabels, hLines⟩ := direct_eq_ok h
      have hDirective := (isDirective_cons (rest.map Token.text)).2 hPoint
      refine ⟨?_, ?_, fun _ => hLabels⟩
      · simp [Draft.written, hLines, instructionPart_of_isDirective hDirective]
      · simp [definition?_of_isDirective hDirective]
    · rw [if_neg hPoint] at h
      have hDirective := Bool.eq_false_iff.2 (mt (isDirective_cons (rest.map Token.text)).1 hPoint)
      have hDefinition := definition?_cons hPoint (rest.map Token.text)
      rcases hName : labelName? head.text with _ | name
      · rw [hName] at h hDefinition
        cases h
        refine ⟨?_, by simp [hDefinition], fun _ => rfl⟩
        rw [written_addInstruction, instructionPart_of_none hDirective hDefinition]
        simp
      · rw [hName] at h hDefinition
        obtain ⟨defined, hDefine, hAfter⟩ := Arena.bind_eq_ok.1 h
        obtain ⟨hReach, hNew, rfl⟩ := define_eq_ok hDefine
        cases hAfter
        refine ⟨?_, ?_, by simp [hDefinition]⟩
        · rw [instructionPart_of_name hDefinition, List.tail_cons]
          rcases rest with _ | ⟨next, rest⟩
          · simp [Draft.written]
          · simp only [List.isEmpty_cons, Bool.false_eq_true, if_false]
            rw [written_addInstruction]
            simp [Draft.written]
        · rintro other hOther
          cases Option.some.inj (hDefinition.symm.trans hOther)
          refine ⟨hReach, hNew, ?_⟩
          split <;> rfl

theorem takes_of_addLine {draft after : Draft} {number : Nat} {line : List Char}
    (h : draft.addLine number line = .ok after) : Takes (words line) draft after := by
  unfold addLine at h
  unfold words
  split at h
  · cases h
  · rename_i tokens hTokens
    rw [hTokens]
    rcases hAdd : draft.addTokens number tokens with defect | next
    · rw [hAdd] at h
      cases h
    · rw [hAdd] at h
      cases h
      exact takes_of_addTokens hAdd

variable {draft final : Draft} {number : Nat} {lines : List (List Char)}

/-- The lines of a source are taken one by one. -/
theorem addLines_cons {line : List Char} (h : draft.addLines number (line :: lines) = .ok final) :
    ∃ next, Takes (words line) draft next ∧ next.addLines (number + 1) lines = .ok final := by
  rw [addLines] at h
  split at h
  · rename_i next hNext
    exact ⟨next, takes_of_addLine hNext, h⟩
  · cases h

theorem written_of_addLines (h : draft.addLines number lines = .ok final) :
    final.written = draft.written ++ codeLines lines := by
  induction lines generalizing draft number with
  | nil =>
    cases h
    simp [codeLines]
  | cons line rest ih =>
    obtain ⟨next, hTakes, hRest⟩ := addLines_cons h
    rw [ih hRest, hTakes.written, codeLines_cons, List.append_assoc]

/-- No later line takes a label away. -/
theorem labels_of_addLines (h : draft.addLines number lines = .ok final) {name : String}
    {index : UInt16} (hLabel : draft.labels[name]? = some index) :
    final.labels[name]? = some index := by
  induction lines generalizing draft number with
  | nil =>
    cases h
    exact hLabel
  | cons line rest ih =>
    obtain ⟨next, hTakes, hRest⟩ := addLines_cons h
    refine ih hRest ?_
    rcases hDefinition : definition? (words line) with _ | other
    · rw [hTakes.labels hDefinition]
      exact hLabel
    · obtain ⟨-, hNew, hLabels⟩ := hTakes.defines other hDefinition
      have hOther : other ≠ name := by
        rintro rfl
        rw [Std.HashMap.contains_eq_isSome_getElem?, hLabel] at hNew
        cases hNew
      rw [hLabels, Std.HashMap.getElem?_insert]
      simp [hOther, hLabel]

/-- A label gets the number of instructions above its definition. -/
theorem defined_of_addLines (h : draft.addLines number lines = .ok final) {i : Nat}
    {line : List Char} (hLine : lines[i]? = some line) {name : String}
    (hName : definition? (words line) = some name) :
    draft.written.length + indexOf lines i < UInt16.size ∧
      final.labels[name]? = some (UInt16.ofNat (draft.written.length + indexOf lines i)) := by
  induction lines generalizing draft number i with
  | nil => cases hLine
  | cons first rest ih =>
    obtain ⟨next, hTakes, hRest⟩ := addLines_cons h
    rcases i with _ | i
    · cases hLine
      obtain ⟨hReach, -, hLabels⟩ := hTakes.defines name hName
      refine ⟨hReach, labels_of_addLines hRest ?_⟩
      rw [hLabels, Std.HashMap.getElem?_insert_self]
      rfl
    · have hIndex := ih hRest hLine
      rw [hTakes.written, List.length_append, Nat.add_assoc, ← indexOf_succ] at hIndex
      exact hIndex

end Draft

/-! ## The second pass -/

/-- The value of an immediate that needs no label: a number, a keyword or a character. -/
def literal? (text : List Char) : Option UInt16 :=
  if looksNumeric text then word? text
  else (keyword? (String.ofList text)).or (charWord? text)

theorem orInvalid_eq_ok {α : Type} {text : List Char} {found : Option α} {value : α}
    (h : orInvalid text found = .ok value) : found = some value := by
  cases found with
  | none => cases h
  | some other =>
    cases h
    rfl

theorem charWord?_of_head? {text : List Char} (h : text.head? ≠ some '\'') :
    charWord? text = none := by
  have hLiteral : charLiteral? text = none := by
    unfold charLiteral?
    split
    · exact absurd rfl h
    · rfl
  rw [charWord?, hLiteral]
  rfl

/-- A literal stands for itself, and any other immediate for the label of its name. -/
theorem immediate_eq_ok {labels : Labels} {text : List Char} {value : UInt16}
    (h : immediate labels text = .ok value) :
    literal? text = some value ∨
      literal? text = none ∧ labels[String.ofList text]? = some value := by
  unfold immediate at h
  unfold literal?
  simp only at h
  split at h
  · rename_i hNumeric
    rw [if_pos hNumeric]
    exact Or.inl (orInvalid_eq_ok h)
  · rename_i hNumeric
    rw [if_neg hNumeric]
    split at h
    · rename_i word hKeyword
      cases h
      rw [hKeyword]
      exact Or.inl rfl
    · rename_i hKeyword
      rw [hKeyword, Option.none_or]
      split at h
      · exact Or.inl (orInvalid_eq_ok h)
      · rename_i hQuote
        split at h
        · rename_i index hLabel
          cases h
          exact Or.inr ⟨charWord?_of_head? hQuote, hLabel⟩
        · cases h

theorem getElem?_terminate {code : List Instruction} {k : Nat} {ins : Instruction}
    (h : code[k]? = some ins) : (terminate code.toArray)[k]? = some ins := by
  have hk : k < code.toArray.size := (List.getElem?_eq_some_iff.1 h).1
  unfold terminate
  split
  · rwa [List.getElem?_toArray]
  · rw [Array.getElem?_push, if_neg (Nat.ne_of_lt hk), List.getElem?_toArray, h]

/-- Code that does not end with the sentinel gets one. -/
theorem terminate_of_open {code : List Instruction}
    (h : ∀ last, code.getLast? = some last → last.isSentinel = false) :
    terminate code.toArray = code.toArray.push .sentinel := by
  unfold terminate
  rw [if_neg]
  rw [List.back?_toArray]
  rcases hLast : code.getLast? with _ | last
  · simp
  · simp [h last hLast]

/-- Code that ends with the sentinel stays as it is. -/
theorem terminate_of_closed {code : List Instruction} {last : Instruction}
    (hLast : code.getLast? = some last) (hSentinel : last.isSentinel = true) :
    terminate code.toArray = code.toArray := by
  unfold terminate
  rw [if_pos]
  rw [List.back?_toArray, hLast]
  exact hSentinel

/-- What it takes to assemble: labels under which the instruction lines stand for the code, and
each of which has the index of its line. -/
theorem assemble_eq_ok {source : String} {program : Program}
    (h : assemble source = .ok program) :
    ∃ (labels : Labels) (code : List Instruction),
      program.instructions = terminate code.toArray ∧
      EncodesAll labels (codeLines (lines source)) code ∧
      ∀ i line name, (lines source)[i]? = some line → definition? (words line) = some name →
        indexOf (lines source) i < UInt16.size ∧
          labels[name]? = some (UInt16.ofNat (indexOf (lines source) i)) := by
  obtain ⟨draft, hDraft, hCode⟩ := Arena.bind_eq_ok.1 h
  obtain ⟨code, hRead, hMake⟩ := Arena.bind_eq_ok.1 hCode
  obtain ⟨-, rfl⟩ := Program.make_eq_ok.1 hMake
  obtain ⟨read, rfl, hEncodes⟩ := encodes_of_instructions hRead
  have hWritten := Draft.written_of_addLines hDraft
  refine ⟨draft.labels, read, by simp, ?_, ?_⟩
  · have hLines : draft.instructionLines.toList.map (fun line => line.2.map Token.text)
        = codeLines (lines source) := hWritten
    rwa [hLines] at hEncodes
  · intro i line name hLine hName
    have hDefined := Draft.defined_of_addLines hDraft hLine hName
    rwa [show (({} : Draft).written.length) = 0 from rfl, Nat.zero_add] at hDefined

/-! ## The law -/

/-- The line holds an instruction of the opcode that has `text` as an immediate in `slot`. -/
def UsesAsImmediate (line : List Char) (opcode : Opcode) (slot : Nat) (text : List Char) : Prop :=
  ∃ mnemonic arguments op, instructionPart (words line) = mnemonic :: arguments ∧
    Opcode.ofMnemonic? (String.ofList mnemonic) = some opcode ∧ opcode.decode? = some op ∧
    op.operands[slot]? = some .imm ∧ arguments[slot]? = some text

section Use

variable {source : String} {program : Program} (hAssemble : assemble source = .ok program)
  {i j slot : Nat} {defining line : List Char} {name : String} {opcode : Opcode}
  (hDefining : (lines source)[i]? = some defining)
  (hName : definition? (words defining) = some name)

include hAssemble

/-- The instruction that follows a line is the one that stands at its index. -/
theorem opcode_of_following? {texts : List (List Char)}
    (h : following? (lines source) i = some texts) :
    ∃ target, program.instructions[indexOf (lines source) i]? = some target ∧
      texts.head?.bind (fun head => Opcode.ofMnemonic? (String.ofList head)) =
        some target.opcode := by
  obtain ⟨labels, code, hProgram, hCode, -⟩ := assemble_eq_ok hAssemble
  rw [← getElem?_codeLines] at h
  obtain ⟨ins, hIns, hEncodes⟩ := hCode.getElem? h
  exact ⟨ins, hProgram ▸ getElem?_terminate hIns, hEncodes.opcode⟩

/-- Below the last instruction there is room for the sentinel, if it is not there already. -/
theorem terminate_of_following?_eq_none (h : following? (lines source) i = none) :
    ∃ code : List Instruction, program.instructions = terminate code.toArray ∧
      indexOf (lines source) i = code.length := by
  obtain ⟨labels, code, hProgram, hCode, -⟩ := assemble_eq_ok hAssemble
  exact ⟨code, hProgram, by rw [indexOf_of_following?_eq_none h, hCode.length_eq]⟩

include hDefining hName

/-- An immediate with the name of a label is what the name reads as, else the index of the line
that defines the label. -/
theorem immediate_of_uses (hLine : (lines source)[j]? = some line)
    (hUse : UsesAsImmediate line opcode slot name.toList) :
    ∃ ins, program.instructions[indexOf (lines source) j]? = some ins ∧ ins.opcode = opcode ∧
      (∀ value, literal? name.toList = some value → ins.operand slot = value) ∧
      (literal? name.toList = none →
        (ins.operand slot).toNat = indexOf (lines source) i) := by
  obtain ⟨labels, code, hProgram, hCode, hLabels⟩ := assemble_eq_ok hAssemble
  obtain ⟨hReach, hLabel⟩ := hLabels i defining name hDefining hName
  obtain ⟨mnemonic, arguments, op, hPart, hMnemonic, hDecode, hClass, hText⟩ := hUse
  have hFollowing := following?_of_getElem? hLine (by rw [hPart]; exact List.cons_ne_nil _ _)
  rw [← getElem?_codeLines] at hFollowing
  obtain ⟨ins, hIns, hEncodes⟩ := hCode.getElem? hFollowing
  rw [hPart] at hEncodes
  have hOpcode : ins.opcode = opcode := Option.some.inj (hEncodes.opcode.symm.trans hMnemonic)
  obtain ⟨other, hOther, -, hOperands⟩ := hEncodes.operands
  rw [hOpcode, hDecode] at hOther
  cases hOther
  have hOperand := hOperands slot .imm name.toList hClass hText
  refine ⟨ins, hProgram ▸ getElem?_terminate hIns, hOpcode, ?_, ?_⟩
  · intro value hValue
    rcases immediate_eq_ok hOperand with hLiteral | ⟨hNone, -⟩
    · exact Option.some.inj (hLiteral.symm.trans hValue)
    · rw [hValue] at hNone
      cases hNone
  · intro hNone
    rcases immediate_eq_ok hOperand with hLiteral | ⟨-, hFound⟩
    · rw [hNone] at hLiteral
      cases hLiteral
    · rw [String.ofList_toList, hLabel] at hFound
      rw [← Option.some.inj hFound, UInt16.toNat_ofNat_of_lt' hReach]

end Use

/-- In a source that assembles, let a line define a label and an instruction have the name of
the label as an immediate. If the name reads as a number, a keyword or a character, this is
what the immediate is. Otherwise it is the index of the instruction on the line of the
definition or, if there is none, of the next one below it, and this index lies inside the
program. Below the last instruction this is the index of the sentinel, if the source leaves the
sentinel to the assembler. -/
theorem a_label_stands_for_the_instruction_below_it (source : String) (program : Program)
    (hAssemble : assemble source = .ok program) (i j slot : Nat) (defining line : List Char)
    (name : String) (opcode : Opcode) (hDefining : (lines source)[i]? = some defining)
    (hName : definition? (words defining) = some name) (hLine : (lines source)[j]? = some line)
    (hUse : UsesAsImmediate line opcode slot name.toList) :
    ∃ ins, program.instructions[indexOf (lines source) j]? = some ins ∧ ins.opcode = opcode ∧
      (∀ value, literal? name.toList = some value → ins.operand slot = value) ∧
      (literal? name.toList = none →
        (ins.operand slot).toNat = indexOf (lines source) i ∧
        (∀ texts, following? (lines source) i = some texts →
          ∃ target, program.instructions[indexOf (lines source) i]? = some target ∧
            texts.head?.bind (fun head => Opcode.ofMnemonic? (String.ofList head))
              = some target.opcode) ∧
        (following? (lines source) i = none →
          (∀ k last, k + 1 = indexOf (lines source) i → program.instructions[k]? = some last →
            last.isSentinel = false) →
          program.instructions[indexOf (lines source) i]? = some .sentinel ∧
            indexOf (lines source) i + 1 = program.instructions.size)) := by
  obtain ⟨ins, hIns, hOpcode, hLiteral, hLabel⟩ :=
    immediate_of_uses hAssemble hDefining hName hLine hUse
  refine ⟨ins, hIns, hOpcode, hLiteral, fun hNone => ⟨hLabel hNone, ?_, ?_⟩⟩
  · exact fun texts hTexts => opcode_of_following? hAssemble hTexts
  · intro hLast hOpen
    obtain ⟨code, hProgram, hIndex⟩ := terminate_of_following?_eq_none hAssemble hLast
    have hPushed : terminate code.toArray = code.toArray.push .sentinel := by
      refine terminate_of_open fun last hEnd => ?_
      have hPos : 0 < code.length :=
        List.length_pos_of_ne_nil (List.ne_nil_of_mem (List.mem_of_getLast? hEnd))
      rw [List.getLast?_eq_getElem?] at hEnd
      exact hOpen (code.length - 1) last (by omega) (hProgram ▸ getElem?_terminate hEnd)
    rw [hProgram, hPushed, hIndex]
    exact ⟨by simp, by simp⟩

/-- A jump goes on to the end, past a loop; the label there stands for the sentinel that the
assembler adds. -/
theorem a_label_below_the_code_stands_for_the_sentinel :
    let source := "JUMP end\nloop: JUMP loop\nend:"
    ∃ program, assemble source = .ok program ∧
      (lines source)[2]? = some "end:".toList ∧ definition? (words "end:".toList) = some "end" ∧
      (lines source)[0]? = some "JUMP end".toList ∧
      UsesAsImmediate "JUMP end".toList (.make .jump 0) 0 "end".toList ∧
      ∃ ins, program.instructions[0]? = some ins ∧ (ins.operand 0).toNat = 2 ∧
        program.instructions[2]? = some .sentinel ∧ program.instructions.size = 3 := by
  intro source
  let program : Program :=
    ⟨{}, #[], #[⟨.make .jump 0, 2, 0, 0⟩, ⟨.make .jump 0, 1, 0, 0⟩, .sentinel]⟩
  have hAssemble : assemble source = .ok program := by cbv
  have hLines : (lines source)[2]? = some "end:".toList ∧
      definition? (words "end:".toList) = some "end" ∧
      (lines source)[0]? = some "JUMP end".toList ∧ literal? "end".toList = none ∧
      following? (lines source) 2 = none ∧ indexOf (lines source) 0 = 0 ∧
      indexOf (lines source) 2 = 2 := by decide +kernel
  obtain ⟨hDefining, hName, hLine, hLiteral, hFollowing, hUseIndex, hIndex⟩ := hLines
  have hUse : UsesAsImmediate "JUMP end".toList (.make .jump 0) 0 "end".toList :=
    ⟨"JUMP".toList, ["end".toList], .jump, by decide +kernel⟩
  have hOpen : ∀ k last, k + 1 = indexOf (lines source) 2 →
      program.instructions[k]? = some last → last.isSentinel = false := by
    intro k last hk hLast
    rw [hIndex] at hk
    cases Nat.succ.inj hk
    cases hLast
    rfl
  obtain ⟨ins, hIns, -, -, hLabel⟩ := a_label_stands_for_the_instruction_below_it source program
    hAssemble 2 0 0 _ _ "end" _ hDefining hName hLine hUse
  obtain ⟨hOperand, -, hTrailing⟩ := hLabel hLiteral
  obtain ⟨hSentinel, hSize⟩ := hTrailing hFollowing hOpen
  rw [hUseIndex] at hIns
  rw [hIndex] at hOperand hSentinel
  exact ⟨program, hAssemble, hDefining, hName, hLine, hUse, ins, hIns, hOperand, hSentinel, rfl⟩

/-- A label with the name of a keyword is defined for the first instruction, but the immediate
is the value of the keyword, which is the index of another instruction. -/
theorem a_label_with_the_name_of_a_keyword_is_not_looked_up :
    let source := "true: JUMP true"
    ∃ program ins, assemble source = .ok program ∧
      (lines source)[0]? = some source.toList ∧ definition? (words source.toList) = some "true" ∧
      UsesAsImmediate source.toList (.make .jump 0) 0 "true".toList ∧
      program.instructions[indexOf (lines source) 0]? = some ins ∧
      indexOf (lines source) 0 = 0 ∧ (ins.operand 0).toNat = 1 := by
  intro source
  refine ⟨⟨{}, #[], #[⟨.make .jump 0, 1, 0, 0⟩, .sentinel]⟩, ⟨.make .jump 0, 1, 0, 0⟩, by cbv, ?_,
    ?_, ⟨"JUMP".toList, ["true".toList], .jump, ?_⟩, ?_⟩
  all_goals decide +kernel

/-- A source may write the sentinel itself. A label below it then stands for no instruction:
its index is the number of the instructions, one past the last of them. -/
theorem a_label_below_a_written_sentinel_is_out_of_range {source : String} {program : Program}
    (hAssemble : assemble source = .ok program) {i j k slot : Nat} {defining line : List Char}
    {name : String} {opcode : Opcode} {last : Instruction}
    (hDefining : (lines source)[i]? = some defining)
    (hName : definition? (words defining) = some name) (hLine : (lines source)[j]? = some line)
    (hUse : UsesAsImmediate line opcode slot name.toList) (hLiteral : literal? name.toList = none)
    (hFollowing : following? (lines source) i = none) (hk : k + 1 = indexOf (lines source) i)
    (hLast : program.instructions[k]? = some last) (hSentinel : last.isSentinel = true) :
    ∃ ins, program.instructions[indexOf (lines source) j]? = some ins ∧ ins.opcode = opcode ∧
      (ins.operand slot).toNat = program.instructions.size := by
  obtain ⟨ins, hIns, hOpcode, -, hLabel⟩ :=
    immediate_of_uses hAssemble hDefining hName hLine hUse
  obtain ⟨code, hProgram, hIndex⟩ := terminate_of_following?_eq_none hAssemble hFollowing
  have hEnd : code.getLast? = some last := by
    have hWritten := List.getElem?_eq_getElem (l := code) (i := k) (by omega)
    have hSame := getElem?_terminate hWritten
    rw [← hProgram, hLast] at hSame
    rw [List.getLast?_eq_getElem?, show code.length - 1 = k by omega, hWritten, hSame]
  refine ⟨ins, hIns, hOpcode, ?_⟩
  rw [hLabel hLiteral, hIndex, hProgram, terminate_of_closed hEnd hSentinel, List.size_toArray]

-- Index two, in a program of two instructions.
example : assemble "SET_L 0, end, 0\nABORT 0\nend:"
    = .ok ⟨{}, #[], #[⟨.make .set 0, 0, 2, 0⟩, .sentinel]⟩ := by
  cbv

end RegisterMachine.Assembly

-- Listings with labels. Instructions of a listing may get labels, on lines of their own or in
-- front of them, and instructions that name a target may name it by its label. Whatever is
-- chosen, the text assembles to the program of the listing.
import RegisterMachine.Proofs.Labels
import RegisterMachine.Proofs.Listings

namespace RegisterMachine

/-- The slot with the target of an instruction, if its operation has one. -/
def Instruction.targetSlot? (ins : Instruction) : Option Nat :=
  match ins.opcode.decode? with
  | some .jump => some 0
  | some .jumpCheck | some .label => some 1
  | _ => none

theorem Instruction.target?_of_targetSlot? {ins : Instruction} {op : Operation} {slot : Nat}
    (hDecode : ins.opcode.decode? = some op) (h : ins.targetSlot? = some slot) :
    ins.target? op = some (ins.operand slot) ∧ op.operands[slot]? = some .imm := by
  unfold targetSlot? at h
  rw [hDecode] at h
  cases op with
  | jump | jumpCheck | label =>
    cases h
    exact ⟨rfl, rfl⟩
  | _ => cases h

namespace Assembly

/-! ## Names -/

/-- A name that can be defined, and that an immediate does not read as anything else. -/
structure IsLabelName (name : String) : Prop where
  nonempty : name ≠ ""
  chars : ∀ c ∈ name.toList, c ∉ [' ', '\t', '\r', '\n', ',', '\'', '#']
  start : ∀ c ∈ name.toList.head?, c ∉ ['.', '+', '-'] ∧ c.isDigit = false
  notKeyword : name ∉ ["true", "false", "none", "all", "some"]

namespace IsLabelName

variable {name : String}

theorem isWord (h : IsLabelName name) : IsWord name.toList := by
  refine ⟨by simpa using h.nonempty, fun c hMem => ?_⟩
  have hChar := h.chars c hMem
  simp only [List.mem_cons, List.not_mem_nil, not_or, or_false] at hChar
  obtain ⟨hBlank, hTab, hReturn, hFeed, hComma, hQuote, hHash⟩ := hChar
  exact ⟨by simp [isSeparator, hComma, hBlank, hTab, hReturn], hHash, hQuote, hFeed⟩

theorem isWord_colon (h : IsLabelName name) : IsWord (name ++ ":").toList := by
  rw [String.toList_append]
  refine ⟨by simp, ?_⟩
  rw [List.forall_mem_append]
  exact ⟨h.isWord.2, isWordChar_of_all (by decide)⟩

theorem exists_cons (h : IsLabelName name) : ∃ c cs, name.toList = c :: cs ∧
    c ≠ '.' ∧ c ≠ '\'' ∧ looksNumeric name.toList = false := by
  obtain ⟨c, cs, hName⟩ := List.exists_cons_of_ne_nil h.isWord.1
  have hFirst := h.start c (by rw [hName]; rfl)
  simp only [List.mem_cons, List.not_mem_nil, not_or, or_false] at hFirst
  obtain ⟨⟨hPoint, hPlus, hMinus⟩, hDigit⟩ := hFirst
  refine ⟨c, cs, hName, hPoint, (h.isWord.2 c (by simp [hName])).2.2.1, ?_⟩
  have hNone : Numeral.digit? c = none := by
    unfold Numeral.digit?
    rw [if_neg]
    rintro ⟨hLow, hHigh⟩
    have hIsDigit : c.isDigit = true := by
      rw [Char.isDigit, Bool.and_eq_true, decide_eq_true_eq, decide_eq_true_eq]
      exact ⟨hLow, hHigh⟩
    rw [hIsDigit] at hDigit
    cases hDigit
  rw [hName, looksNumeric, hNone]
  simp [hPlus, hMinus]

theorem keyword?_eq_none (h : IsLabelName name) : keyword? name = none := by
  have hNone := h.notKeyword
  simp only [List.mem_cons, List.not_mem_nil, not_or, or_false] at hNone
  obtain ⟨hTrue, hFalse, hNoneWord, hAll, hSome⟩ := hNone
  simp [keyword?, *]

/-- The immediate of that name is the label. -/
theorem immediate (h : IsLabelName name) {labels : Labels} {index : UInt16}
    (hLabel : labels[name]? = some index) :
    Assembly.immediate labels name.toList = .ok index := by
  obtain ⟨c, cs, hName, -, hQuote, hNumeric⟩ := h.exists_cons
  have hHead : ¬ name.toList.head? = some '\'' := by
    rw [hName]
    simpa using hQuote
  unfold Assembly.immediate
  simp only [hNumeric, String.ofList_toList, h.keyword?_eq_none, hHead, hLabel, if_false,
    Bool.false_eq_true]

theorem labelName?_colon (h : IsLabelName name) : labelName? (name ++ ":").toList = some name := by
  have hSome := List.length_pos_of_ne_nil h.isWord.1
  unfold labelName?
  rw [String.toList_append, if_pos ⟨by simp, by simpa using hSome⟩]
  simp

/-- A first token with the name and a colon defines the label. -/
theorem addTokens (h : IsLabelName name) {draft next : Draft} {head : Token}
    (hHead : head.text = (name ++ ":").toList) (hDefine : draft.define name = .ok next)
    (number : Nat) (rest : List Token) :
    draft.addTokens number (head :: rest)
      = .ok (if rest.isEmpty then next else next.addInstruction number rest) := by
  obtain ⟨c, cs, hName, hPoint, -⟩ := h.exists_cons
  have hDirective : ¬ head.text.head? = some '.' := by
    rw [hHead, String.toList_append, hName]
    simpa using hPoint
  rw [Draft.addTokens, if_neg hDirective, hHead, h.labelName?_colon]
  simp only [hDefine]
  rfl

theorem written_colon (h : IsLabelName name) :
    Written (name ++ ":").toList [(name ++ ":").toList] := by
  have hWritten := Written.word h.isWord_colon (by simp) .done
  rwa [List.append_nil] at hWritten

/-- A line with nothing but a label. -/
theorem addLine (h : IsLabelName name) {draft next : Draft} (hDefine : draft.define name = .ok next)
    (number : Nat) : draft.addLine number (name ++ ":").toList = .ok next := by
  obtain ⟨tokens, hTexts, hLine⟩ := addLine_of_reads h.written_colon.reads
  rcases tokens with _ | ⟨head, rest⟩
  · cases hTexts
  · obtain ⟨hHead, hRest⟩ := List.cons.inj hTexts
    cases List.map_eq_nil_iff.1 hRest
    exact hLine _ _ _ (h.addTokens hHead hDefine number [])

end IsLabelName

/-! ## Blank lines -/

/-- Whether a line has nothing on it but separators and a comment. -/
def isBlank (line : List Char) : Bool :=
  (line.dropWhile isSeparator).head?.all (· == '#')

theorem reads_of_isBlank {line : List Char} (h : isBlank line = true) : Reads line [] := by
  have hRest : Reads (line.dropWhile isSeparator) [] := by
    unfold isBlank at h
    rcases hDrop : line.dropWhile isSeparator with _ | ⟨c, cs⟩
    · exact reads_nil
    · rw [hDrop] at h
      obtain rfl : c = '#' := by simpa using h
      exact reads_comment cs
  rw [← List.takeWhile_append_dropWhile (p := isSeparator) (l := line)]
  exact .separators (fun c hMem => List.mem_takeWhile_imp hMem) hRest

theorem isBlank_closed {line : List Char} (h : isBlank line = true) :
    isBlank (closed line) = true := by
  unfold closed closeLine
  split
  · rename_i reversed hLine
    have hSplit : line = reversed.reverse ++ ['\r'] := by
      rw [← List.reverse_cons, ← hLine, List.reverse_reverse]
    unfold isBlank at h ⊢
    rw [hSplit, List.dropWhile_append] at h
    rcases hDrop : reversed.reverse.dropWhile isSeparator with _ | ⟨c, cs⟩
    · rfl
    · rw [hDrop] at h
      exact h
  · rwa [List.reverse_reverse]

namespace Draft

variable {draft next : Draft} {number : Nat}

theorem addLine_of_isBlank {line : List Char} (h : isBlank line = true) :
    draft.addLine number line = .ok draft := by
  obtain ⟨tokens, hTexts, hLine⟩ := addLine_of_reads (reads_of_isBlank h)
  cases List.map_eq_nil_iff.1 hTexts
  exact hLine draft draft number rfl

theorem addLines_append {lines : List (List Char)} (h : draft.addLines number lines = .ok next)
    (rest : List (List Char)) :
    draft.addLines number (lines ++ rest) = next.addLines (number + lines.length) rest := by
  induction lines generalizing draft number with
  | nil =>
    cases h
    rfl
  | cons line lines ih =>
    rw [List.cons_append, addLines, List.length_cons, Nat.add_comm lines.length, ← Nat.add_assoc]
    rw [addLines] at h
    rcases hLine : draft.addLine number line with error | after
    · rw [hLine] at h
      cases h
    · rw [hLine] at h
      exact ih h

theorem addLines_of_isBlank {lines : List (List Char)} (h : ∀ line ∈ lines, isBlank line = true) :
    draft.addLines number lines = .ok draft := by
  induction lines generalizing number with
  | nil => rfl
  | cons line lines ih =>
    rw [addLines, addLine_of_isBlank (h line List.mem_cons_self)]
    exact ih fun other hMem => h other (List.mem_cons_of_mem line hMem)

end Draft

/-! ## Labellings -/

/-- Where the definition of a label stands. -/
inductive Placement
  /-- On a line of its own above the instruction, with other lines between the two. -/
  | above (between : List String)
  /-- In front of the instruction. -/
  | inFront (gap : String)

namespace Placement

/-- The lines of an instruction and of its label. -/
def lines (name line : String) : Placement → List String
  | above between => (name ++ ":") :: between ++ [line]
  | inFront gap => [name ++ ":" ++ gap ++ line]

/-- Nothing else stands between the label and the instruction. -/
def IsBlank : Placement → Prop
  | above between => ∀ line ∈ between, '\n' ∉ line.toList ∧ isBlank line.toList = true
  | inFront gap => gap ≠ "" ∧ ∀ c ∈ gap.toList, isSeparator c = true

end Placement

/-- What is chosen to label a listing. -/
structure Labelling where
  /-- The name of the label of each instruction. -/
  name : Nat → String
  /-- Where the label of an instruction is defined, if it is. -/
  placement? : Nat → Option Placement
  /-- Whether an instruction names its target by a label. -/
  isSymbolic : Nat → Bool

namespace Labelling

variable (labelling : Labelling)

def Labelled (index : Nat) : Prop := (labelling.placement? index).isSome = true

/-- A slot of the instruction at `index`: the number in it or, for a symbolic target, a label. -/
def spell (ins : Instruction) (index slot : Nat) : String :=
  if labelling.isSymbolic index = true ∧ ins.targetSlot? = some slot then
    labelling.name (ins.operand slot).toNat
  else toString (ins.operand slot).toNat

def instructionLine (ins : Instruction) (index : Nat) : String :=
  s!"{renderWith ins (labelling.spell ins index)}    # {index}"

/-- The line of the instruction at `index`, with the definition of its label. -/
def linesOf (ins : Instruction) (index : Nat) : List String :=
  let line := labelling.instructionLine ins index
  match labelling.placement? index with
  | none => [line]
  | some placement => placement.lines (labelling.name index) line

/-- The lines of a listing, with the labels put in. -/
def listingLines (program : Program) : List String :=
  { program with instructions := #[] }.listingLines
    ++ program.instructions.toList.zipIdx.flatMap fun (ins, index) => labelling.linesOf ins index

def listing (program : Program) : String :=
  String.join ((labelling.listingLines program).map (· ++ "\n"))

/-- What makes a labelling one of the code: the labels have names of their own, blanks separate
them from the instructions, and a target that is named by its label has one. -/
structure Fits (code : Array Instruction) : Prop where
  names : ∀ index, labelling.Labelled index → IsLabelName (labelling.name index)
  distinct : ∀ i j, labelling.Labelled i → labelling.Labelled j →
    labelling.name i = labelling.name j → i = j
  blank : ∀ index placement, labelling.placement? index = some placement → placement.IsBlank
  targets : ∀ (index : Nat) (ins : Instruction) (slot : Nat), code[index]? = some ins →
    labelling.isSymbolic index = true → ins.targetSlot? = some slot →
      labelling.Labelled (ins.operand slot).toNat

variable {labelling} {program : Program}

/-- Without labels it is the listing. -/
theorem listing_of_none (hNone : ∀ index, labelling.placement? index = none)
    (hSymbolic : ∀ index, labelling.isSymbolic index = false) :
    labelling.listing program = program.listing := by
  have hLines : ∀ ins index, labelling.linesOf ins index = [s!"{ins.render}    # {index}"] := by
    intro ins index
    have hSpell : labelling.spell ins index = fun slot => toString (ins.operand slot).toNat := by
      funext slot
      simp [spell, hSymbolic]
    simp only [linesOf, hNone, instructionLine, hSpell]
    rfl
  have hAll : labelling.listingLines program = program.listingLines := by
    have hCode : (program.instructions.toList.zipIdx.flatMap fun (ins, index) =>
        labelling.linesOf ins index)
        = program.instructions.toList.zipIdx.map fun (ins, index) =>
          s!"{ins.render}    # {index}" := by
      simp only [hLines]
      exact List.map_eq_flatMap.symm
    rw [listingLines, hCode]
    simp [Program.listingLines]
  rw [listing, hAll, Program.listing]

/-! ## The first pass -/

variable (labelling) in
/-- The words of the instruction at an index. -/
def words (pair : Instruction × Nat) : List (List Char) :=
  (wordsWith pair.1 (labelling.spell pair.1 pair.2)).map String.toList

variable (labelling program) in
/-- The draft when the instructions `done` are taken in, and the labels of the first `bound`
instructions are defined. -/
structure Reached (done : List Instruction) (bound : Nat) (draft : Draft) : Prop where
  header : draft.header = program.header
  constants : draft.constants = program.constants
  written : draft.written = done.zipIdx.map labelling.words
  labels : ∀ name index, draft.labels[name]? = some index ↔
    ∃ i < bound, labelling.Labelled i ∧ labelling.name i = name ∧ UInt16.ofNat i = index

theorem reached_nil :
    labelling.Reached program [] 0
      { header := program.header, constants := program.constants } :=
  ⟨rfl, rfl, rfl, by simp⟩

namespace Reached

variable {done : List Instruction} {draft : Draft}

theorem skip (h : labelling.Reached program done done.length draft)
    (hNone : labelling.placement? done.length = none) :
    labelling.Reached program done (done.length + 1) draft := by
  refine ⟨h.header, h.constants, h.written, fun name index => ?_⟩
  rw [h.labels]
  constructor
  · rintro ⟨i, hi, hLabel⟩
    exact ⟨i, Nat.lt_succ_of_lt hi, hLabel⟩
  · rintro ⟨i, hi, hLabelled, hName⟩
    refine ⟨i, ?_, hLabelled, hName⟩
    have hNe : i ≠ done.length := by
      rintro rfl
      rw [Labelled, hNone] at hLabelled
      cases hLabelled
    omega

/-- The label of the next instruction can be defined. -/
theorem define (h : labelling.Reached program done done.length draft)
    (hFits : labelling.Fits program.instructions) (hLabelled : labelling.Labelled done.length)
    (hSize : done.length < UInt16.size) :
    ∃ next, draft.define (labelling.name done.length) = .ok next ∧
      labelling.Reached program done (done.length + 1) next := by
  have hLength : draft.instructionLines.size = done.length := by
    rw [← draft.length_written, h.written]
    simp
  -- A label of an earlier instruction has another name.
  have hOther : ∀ i < done.length, labelling.Labelled i →
      labelling.name i ≠ labelling.name done.length := by
    intro i hi hOld hName
    exact Nat.ne_of_lt hi (hFits.distinct i done.length hOld hLabelled hName)
  have hNew : draft.labels.contains (labelling.name done.length) = false := by
    rw [Std.HashMap.contains_eq_isSome_getElem?, Option.isSome_eq_false_iff,
      Option.isNone_iff_eq_none, Option.eq_none_iff_forall_ne_some]
    intro index hIndex
    obtain ⟨i, hi, hOld, hName, -⟩ := (h.labels _ _).1 hIndex
    exact hOther i hi hOld hName
  refine ⟨{ draft with
      labels := draft.labels.insert (labelling.name done.length) (UInt16.ofNat done.length) },
    ?_, h.header, h.constants, h.written, fun name index => ?_⟩
  · unfold Draft.define
    simp only [hLength]
    rw [if_neg (Nat.not_le.2 hSize), hNew]
    rfl
  · rw [Std.HashMap.getElem?_insert]
    by_cases hName : labelling.name done.length = name
    · rw [if_pos (by simpa using hName)]
      constructor
      · rintro ⟨⟩
        exact ⟨done.length, Nat.lt_succ_self _, hLabelled, hName, rfl⟩
      · rintro ⟨i, -, hOld, hSame, rfl⟩
        rw [hFits.distinct i done.length hOld hLabelled (hSame.trans hName.symm)]
    · rw [if_neg (by simpa using hName), h.labels]
      constructor
      · rintro ⟨i, hi, hLabel⟩
        exact ⟨i, Nat.lt_succ_of_lt hi, hLabel⟩
      · rintro ⟨i, hi, hOld, hSame, hIndex⟩
        refine ⟨i, ?_, hOld, hSame, hIndex⟩
        have hNe : i ≠ done.length := by
          rintro rfl
          exact hName hSame
        omega

theorem addInstruction {bound : Nat} (h : labelling.Reached program done bound draft)
    {ins : Instruction} {tokens : List Token}
    (hTexts : tokens.map Token.text = labelling.words (ins, done.length)) (number : Nat) :
    labelling.Reached program (done ++ [ins]) bound (draft.addInstruction number tokens) := by
  refine ⟨h.header, h.constants, ?_, h.labels⟩
  rw [Draft.written_addInstruction, h.written, hTexts, List.zipIdx_append, List.map_append]
  simp

end Reached

/-! ## The lines of an instruction -/

section Lines

variable {done : List Instruction} {draft : Draft} {ins : Instruction} {op : Operation}

theorem isWord_spell (hFits : labelling.Fits program.instructions) {index : Nat}
    (hIns : program.instructions[index]? = some ins) (slot : Nat) :
    IsWord (labelling.spell ins index slot).toList := by
  unfold spell
  split
  · rename_i hTarget
    exact (hFits.names _ (hFits.targets index ins slot hIns hTarget.1 hTarget.2)).isWord
  · exact isWord_toString _

theorem written_instructionLine (hFits : labelling.Fits program.instructions) {index : Nat}
    (hIns : program.instructions[index]? = some ins) (hDecode : ins.opcode.decode? = some op) :
    Written (labelling.instructionLine ins index).toList (labelling.words (ins, index)) :=
  written_renderWith hDecode (fun slot _ => isWord_spell hFits hIns slot) index

/-- The line with the label of an instruction in front of it. -/
theorem reads_inFront {name gap : String} (hName : IsLabelName name)
    (hGap : (Placement.inFront gap).IsBlank) {line : String}
    {texts : List (List Char)} (hLine : Reads line.toList texts) :
    Reads (name ++ ":" ++ gap ++ line).toList ((name ++ ":").toList :: texts) := by
  rw [String.toList_append, String.toList_append, List.append_assoc]
  refine .word hName.isWord_colon ?_ (.separators hGap.2 hLine)
  obtain ⟨c, cs, hText⟩ := List.exists_cons_of_ne_nil (l := gap.toList) (by simpa using hGap.1)
  rw [hText]
  rintro d ⟨⟩
  exact .inl (hGap.2 c (by rw [hText]; exact List.mem_cons_self))

/-- No end of a line is inside this line. -/
theorem isLine_inFront {name gap : String} (hName : IsLabelName name)
    (hGap : (Placement.inFront gap).IsBlank) {line : String} (hSome : line ≠ "")
    (hLine : IsLine line.toList) : IsLine (name ++ ":" ++ gap ++ line).toList := by
  rw [String.toList_append, String.toList_append]
  constructor
  · rw [List.mem_append, List.mem_append, not_or, not_or]
    refine ⟨⟨hName.written_colon.isLine.1, fun hMem => ?_⟩, hLine.1⟩
    cases hGap.2 _ hMem
  · rw [List.getLast?_append_of_ne_nil _ (by simpa using hSome)]
    exact hLine.2

theorem ne_empty_instructionLine (ins : Instruction) (index : Nat) :
    labelling.instructionLine ins index ≠ "" := by
  simp [instructionLine]

theorem newline_not_mem_linesOf (hFits : labelling.Fits program.instructions) {index : Nat}
    (hIns : program.instructions[index]? = some ins) (hDecode : ins.opcode.decode? = some op) :
    ∀ line ∈ labelling.linesOf ins index, '\n' ∉ line.toList := by
  have hLine := (written_instructionLine hFits hIns hDecode).isLine
  unfold linesOf
  rcases hPlacement : labelling.placement? index with _ | placement
  · simpa using hLine.1
  · have hName := hFits.names index (by rw [Labelled, hPlacement]; rfl)
    have hBlank := hFits.blank index placement hPlacement
    rcases placement with between | gap
    · simp only [Placement.lines, List.cons_append, List.forall_mem_cons, List.forall_mem_append]
      exact ⟨hName.written_colon.isLine.1, fun line hMem => (hBlank line hMem).1, hLine.1, by simp⟩
    · simp only [Placement.lines, List.forall_mem_cons]
      exact ⟨(isLine_inFront hName hBlank (ne_empty_instructionLine ins index) hLine).1, by simp⟩

variable (hFits : labelling.Fits program.instructions)
  (hSize : program.instructions.size ≤ UInt16.size)
  (hIns : program.instructions[done.length]? = some ins)
  (hDecode : ins.opcode.decode? = some op)

include hFits hIns hDecode

theorem Reached.addLine {bound : Nat} (h : labelling.Reached program done bound draft)
    (number : Nat) :
    ∃ next, draft.addLine number (labelling.instructionLine ins done.length).toList = .ok next ∧
      labelling.Reached program (done ++ [ins]) bound next := by
  obtain ⟨tokens, hTexts, hLine⟩ :=
    addLine_of_reads (written_instructionLine hFits hIns hDecode).reads
  exact ⟨_, hLine _ _ _ (addTokens_instruction hDecode hTexts draft number),
    h.addInstruction hTexts number⟩

/-- The next instruction, with its label on the same line. -/
theorem Reached.addLine_inFront {gap : String} {next : Draft}
    (hName : IsLabelName (labelling.name done.length)) (hGap : (Placement.inFront gap).IsBlank)
    (hDefine : draft.define (labelling.name done.length) = .ok next)
    (h : labelling.Reached program done (done.length + 1) next) (number : Nat) :
    ∃ after, draft.addLine number (labelling.name done.length ++ ":" ++ gap
        ++ labelling.instructionLine ins done.length).toList = .ok after ∧
      labelling.Reached program (done ++ [ins]) (done.length + 1) after := by
  obtain ⟨tokens, hTexts, hLine⟩ := addLine_of_reads
    (reads_inFront hName hGap (written_instructionLine hFits hIns hDecode).reads)
  rcases tokens with _ | ⟨head, rest⟩
  · cases hTexts
  · obtain ⟨hHead, hRest⟩ := List.cons.inj hTexts
    have hSome : rest.isEmpty = false := by
      rcases rest with _ | ⟨first, rest⟩
      · cases hRest
      · rfl
    have hTokens := hName.addTokens hHead hDefine number rest
    rw [hSome, if_neg (by decide)] at hTokens
    exact ⟨_, hLine _ _ _ hTokens, h.addInstruction hRest number⟩

include hSize

/-- The lines of the next instruction. -/
theorem Reached.addLines_linesOf (h : labelling.Reached program done done.length draft)
    (number : Nat) :
    ∃ next, draft.addLines number
        ((labelling.linesOf ins done.length).map fun line => closed line.toList) = .ok next ∧
      labelling.Reached program (done ++ [ins]) (done.length + 1) next := by
  have hLine := (written_instructionLine hFits hIns hDecode).isLine
  have hReach : done.length < UInt16.size :=
    Nat.lt_of_lt_of_le (Array.getElem?_eq_some_iff.1 hIns).1 hSize
  unfold linesOf
  rcases hPlacement : labelling.placement? done.length with _ | placement
  · obtain ⟨next, hAdd, hNext⟩ := (h.skip hPlacement).addLine hFits hIns hDecode number
    refine ⟨next, ?_, hNext⟩
    simp only [List.map_cons, List.map_nil, closed_eq_self hLine.2, Draft.addLines, hAdd]
  · have hLabelled : labelling.Labelled done.length := by
      rw [Labelled, hPlacement]
      rfl
    have hName := hFits.names done.length hLabelled
    have hBlank := hFits.blank done.length placement hPlacement
    obtain ⟨defined, hDefine, hDefined⟩ := h.define hFits hLabelled hReach
    rcases placement with between | gap
    · obtain ⟨next, hAdd, hNext⟩ :=
        hDefined.addLine hFits hIns hDecode (number + 1 + between.length)
      refine ⟨next, ?_, hNext⟩
      have hBetween : defined.addLines (number + 1)
          (between.map fun line => closed line.toList) = .ok defined := by
        refine Draft.addLines_of_isBlank fun line hMem => ?_
        obtain ⟨text, hText, rfl⟩ := List.mem_map.1 hMem
        exact isBlank_closed (hBlank text hText).2
      simp only [Placement.lines, List.map_cons, List.map_append, List.map_nil, List.cons_append,
        closed_eq_self hLine.2, closed_eq_self hName.written_colon.isLine.2, Draft.addLines,
        hName.addLine hDefine number]
      rw [Draft.addLines_append hBetween, List.length_map]
      simp only [Draft.addLines, hAdd]
    · obtain ⟨next, hAdd, hNext⟩ :=
        hDefined.addLine_inFront hFits hIns hDecode hName hBlank hDefine number
      refine ⟨next, ?_, hNext⟩
      have hWhole :=
        isLine_inFront hName hBlank (ne_empty_instructionLine ins done.length) hLine
      simp only [Placement.lines, List.map_cons, List.map_nil, closed_eq_self hWhole.2,
        Draft.addLines, hAdd]

end Lines

/-! ## The text -/

section Text

variable (hFits : labelling.Fits program.instructions)
  (hValid : ValidStream program.instructions)

include hFits hValid

/-- The first pass over the instructions that are left. -/
theorem Reached.addLines_code (hSize : program.instructions.size ≤ UInt16.size)
    {done rest : List Instruction} (hCode : program.instructions.toList = done ++ rest)
    {draft : Draft} (h : labelling.Reached program done done.length draft) (number : Nat) :
    ∃ final, draft.addLines number ((rest.zipIdx done.length).flatMap fun pair =>
        (labelling.linesOf pair.1 pair.2).map fun line => closed line.toList) = .ok final ∧
      labelling.Reached program program.instructions.toList program.instructions.size final := by
  induction rest generalizing done draft number with
  | nil =>
    refine ⟨draft, rfl, ?_⟩
    rw [← Array.length_toList, hCode, List.append_nil]
    exact h
  | cons ins rest ih =>
    have hIns : program.instructions[done.length]? = some ins := by
      rw [← Array.getElem?_toList, hCode]
      simp
    obtain ⟨op, hDecode⟩ := hValid.legal done.length ins hIns
    obtain ⟨next, hLines, hNext⟩ := h.addLines_linesOf hFits hSize hIns hDecode number
    rw [← List.length_singleton (a := ins), ← List.length_append] at hNext
    obtain ⟨final, hRest, hFinal⟩ := ih (by simpa using hCode) hNext
      (number + ((labelling.linesOf ins done.length).map fun line => closed line.toList).length)
    refine ⟨final, ?_, hFinal⟩
    rw [List.length_append, List.length_singleton] at hRest
    rw [List.zipIdx_cons, List.flatMap_cons, Draft.addLines_append hLines, hRest]

theorem lines_listing (hConstants : ∀ constant ∈ program.constants, constant.isNaN = false) :
    lines (labelling.listing program)
      = { program with instructions := #[] }.listingLines.map String.toList
        ++ program.instructions.toList.zipIdx.flatMap fun pair =>
          (labelling.linesOf pair.1 pair.2).map fun line => closed line.toList := by
  have hPreamble : ∀ line ∈ { program with instructions := #[] }.listingLines,
      IsLine line.toList :=
    Program.isLine_listingLines (by simp) hConstants
  have hLines : ∀ line ∈ labelling.listingLines program, '\n' ∉ line.toList := by
    unfold listingLines
    rw [List.forall_mem_append]
    refine ⟨fun line hMem => (hPreamble line hMem).1, ?_⟩
    intro line hMem
    obtain ⟨⟨ins, index⟩, hPair, hLine⟩ := List.mem_flatMap.1 hMem
    have hIns : program.instructions[index]? = some ins := by
      rw [← Array.getElem?_toList]
      exact List.mem_zipIdx_iff_getElem?.1 hPair
    obtain ⟨op, hDecode⟩ := hValid.legal index ins hIns
    exact newline_not_mem_linesOf hFits hIns hDecode line hLine
  rw [listing, lines_join hLines, listingLines, List.map_append, List.map_flatMap]
  congr 1
  exact List.map_congr_left fun line hMem => closed_eq_self (hPreamble line hMem).2

/-- The first pass over the whole text. -/
theorem addLines_listing (hSize : program.instructions.size ≤ UInt16.size)
    (hConstants : ∀ constant ∈ program.constants, constant.isNaN = false) :
    ∃ final, Draft.addLines {} 1 (lines (labelling.listing program)) = .ok final ∧
      labelling.Reached program program.instructions.toList program.instructions.size final := by
  rw [lines_listing hFits hValid hConstants, Program.addLines_preamble hConstants]
  exact reached_nil.addLines_code hFits hValid hSize rfl _

end Text

/-! ## The second pass -/

/-- The label of an instruction that has one is the index of the instruction. -/
theorem Reached.label {done : List Instruction} {bound : Nat} {draft : Draft}
    (h : labelling.Reached program done bound draft) {index : UInt16} (hIndex : index.toNat < bound)
    (hLabelled : labelling.Labelled index.toNat) :
    draft.labels[labelling.name index.toNat]? = some index :=
  (h.labels _ _).2 ⟨index.toNat, hIndex, hLabelled, rfl, UInt16.ofNat_toNat⟩

/-- When the first pass is done, the words of each instruction stand for it. -/
theorem Reached.encodes (hFits : labelling.Fits program.instructions)
    (hValid : ValidStream program.instructions) {done : List Instruction} {draft : Draft}
    (h : labelling.Reached program done program.instructions.size draft) {index : Nat}
    {ins : Instruction} (hIns : program.instructions[index]? = some ins) :
    Encodes draft.labels (labelling.words (ins, index)) ins := by
  obtain ⟨op, hDecode⟩ := hValid.legal index ins hIns
  refine encodes_wordsWith hDecode fun slot operandClass hClass => ?_
  unfold spell
  split
  · rename_i hSymbolic
    obtain ⟨hTarget, hImm⟩ := Instruction.target?_of_targetSlot? hDecode hSymbolic.2
    cases hClass.symm.trans hImm
    have hLabelled := hFits.targets index ins slot hIns hSymbolic.1 hSymbolic.2
    exact (hFits.names _ hLabelled).immediate
      (h.label (hValid.targets index ins op _ hIns hDecode hTarget) hLabelled)
  · exact operand_toString draft.labels operandClass (ins.operand slot)

theorem Reached.encodesAll (hFits : labelling.Fits program.instructions)
    (hValid : ValidStream program.instructions) {draft : Draft}
    (h : labelling.Reached program program.instructions.toList program.instructions.size draft) :
    EncodesAll draft.labels draft.written program.instructions.toList := by
  unfold EncodesAll
  rw [h.written, List.forall₂_map_left_iff, List.forall₂_iff_get]
  refine ⟨by simp, fun i hPair hIns => ?_⟩
  have hFetch : program.instructions[i]? = some program.instructions.toList[i] := by
    rw [← Array.getElem?_toList]
    exact List.getElem?_eq_getElem _
  simpa using h.encodes hFits hValid hFetch

/-! ## The law -/

/-- Let a program have no NaN among its constants, zero in its spare slots, and no more
instructions than there are indices. With any choice of labels on top of its listing, and of
targets that are named by labels, the text assembles to the program. -/
theorem a_listing_with_labels_assembles_to_the_same_program (header : Header)
    (constants : Array Constant) (instructions : Array Instruction) (program : Program)
    (hMake : Program.make header constants instructions = .ok program)
    (hSize : program.instructions.size ≤ UInt16.size)
    (hConstants : ∀ constant ∈ program.constants, constant.isNaN = false)
    (hSpares : ∀ ins ∈ program.instructions, ins.SparesNothing)
    (labelling : Labelling) (hFits : labelling.Fits program.instructions) :
    assemble (labelling.listing program) = .ok program ∧
      ((∀ index, labelling.placement? index = none) →
        (∀ index, labelling.isSymbolic index = false) →
        labelling.listing program = program.listing) := by
  refine ⟨?_, listing_of_none⟩
  obtain ⟨⟨hValid, hConstantsFit⟩, rfl⟩ := Program.make_eq_ok.1 hMake
  have hStream := validStream_of_validate hValid
  obtain ⟨draft, hDraft, hReached⟩ := addLines_listing hFits hStream hSize hConstants
  have hCode := instructions_of_encodes (hReached.encodesAll hFits hStream) #[]
  rw [List.map_congr_left fun ins hMem =>
      Instruction.trimmed_eq_self (hSpares ins (Array.mem_toList_iff.1 hMem)),
    List.map_id', Array.toArray_toList, Array.empty_append] at hCode
  unfold assemble
  refine Arena.bind_eq_ok.2 ⟨draft, hDraft, Arena.bind_eq_ok.2 ⟨_, hCode, ?_⟩⟩
  rw [Program.terminate_of_validate hValid, hReached.header, hReached.constants]
  exact hMake

/-- A loop whose label stands in front of its first instruction, and whose exit is named by a
label further down, above a blank line and a comment. -/
theorem a_loop_with_labels_is_the_loop_with_numbers :
    let lines := [".stack 4096", ".frames 256", ".globals 64", "top: JUMP_CHECK_L 3, end    # 0",
      "JUMP top    # 1", "end:", "", "\t# done\r", "ABORT 0    # 2"]
    assemble (String.join (lines.map (· ++ "\n")))
      = .ok ⟨{}, #[], #[⟨.make .jumpCheck 0, 3, 2, 0⟩, ⟨.make .jump 0, 0, 0, 0⟩, .sentinel]⟩ := by
  intro lines
  let code : Array Instruction :=
    #[⟨.make .jumpCheck 0, 3, 2, 0⟩, ⟨.make .jump 0, 0, 0, 0⟩, .sentinel]
  let labelling : Labelling :=
    { name := fun index => if index = 0 then "top" else "end"
      placement? := fun
        | 0 => some (.inFront " ")
        | 2 => some (.above ["", "\t# done\r"])
        | _ => none
      isSymbolic := fun index => index < 2 }
  have hTop : IsLabelName "top" := ⟨by decide, by simp, by simp, by decide⟩
  have hEnd : IsLabelName "end" := ⟨by decide, by simp, by simp, by decide⟩
  have hOnly : ∀ index, labelling.Labelled index → index = 0 ∨ index = 2 := by
    rintro (_ | _ | _ | index) hLabelled
    · exact .inl rfl
    · cases hLabelled
    · exact .inr rfl
    · cases hLabelled
  have hFits : labelling.Fits code := by
    refine ⟨?_, ?_, ?_, ?_⟩
    · intro index hLabelled
      rcases hOnly index hLabelled with rfl | rfl
      · exact hTop
      · exact hEnd
    · intro i j hi hj hName
      rcases hOnly i hi with rfl | rfl <;> rcases hOnly j hj with rfl | rfl
      · rfl
      · exact absurd hName (by decide)
      · exact absurd hName (by decide)
      · rfl
    · rintro (_ | _ | _ | index) placement hPlacement
      · cases hPlacement
        exact ⟨by decide, by simp [isSeparator]⟩
      · cases hPlacement
      · cases hPlacement
        show ∀ line ∈ _, _
        decide +kernel
      · cases hPlacement
    · rintro (_ | _ | _ | index) ins slot hIns hSymbolic hSlot
      · cases hIns
        obtain rfl : slot = 1 := Option.some.inj (hSlot.symm.trans (by decide +kernel))
        rfl
      · cases hIns
        obtain rfl : slot = 0 := Option.some.inj (hSlot.symm.trans (by decide +kernel))
        rfl
      · cases hSymbolic
      · cases hIns
  have hSpares : ∀ ins ∈ code, ins.SparesNothing := by
    unfold Instruction.SparesNothing
    decide +kernel
  obtain ⟨hAssemble, -⟩ := a_listing_with_labels_assembles_to_the_same_program {} #[] code
    ⟨{}, #[], code⟩ (by decide +kernel) (by decide) (by decide +kernel) hSpares labelling hFits
  have hLines : labelling.listingLines ⟨{}, #[], code⟩ = lines := by decide +kernel
  rw [← hLines]
  exact hAssemble

end Labelling

end Assembly

end RegisterMachine

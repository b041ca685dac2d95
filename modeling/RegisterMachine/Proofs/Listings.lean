-- A listing assembles to the program that it lists, up to spare slots. Every line of it is put
-- together from words that the assembler reads one by one, and no line of it needs a label.
import Mathlib
import RegisterMachine.Program.Listing
import RegisterMachine.Proofs.DoubleText
import RegisterMachine.Proofs.InstructionLines
import RegisterMachine.Proofs.Mnemonics
import RegisterMachine.Proofs.SourceWords

namespace RegisterMachine

/-! ## Constants -/

namespace Constant

/-- The word for the kind of a constant. -/
def kindWord : Constant → String
  | .long _ => "long"
  | .float _ => "float"
  | .char _ => "char"
  | .bool _ => "bool"

/-- The word for the value of a constant. -/
def valueWord : Constant → String
  | .long value => toString value.toInt
  | .float bits => Binary64.render bits
  | .char value => toString value.toNat
  | .bool value => if value then "true" else "false"

theorem render_eq (constant : Constant) :
    constant.render = constant.kindWord ++ " " ++ constant.valueWord := by
  rcases constant with value | bits | value | value
  · rfl
  · rfl
  · rfl
  · cases value <;> rfl

def isNaN : Constant → Bool
  | .float bits => Binary64.isNaN bits
  | _ => false

theorem char?_toString (value : Char) :
    Assembly.char? (toString value.toNat).toList = some value := by
  have hLiteral : Assembly.charLiteral? (toString value.toNat).toList = none := by
    obtain ⟨c, cs, hDigits, hHead⟩ := Numeral.toDigits_eq_cons value.toNat
    rw [Numeral.toList_toString, hDigits]
    unfold Assembly.charLiteral?
    split
    · rename_i heq
      cases heq
      cases hHead
    · rfl
  have hCode : Numeral.uint32? (toString value.toNat).toList = some value.val :=
    Numeral.uint32?_toString value.val
  unfold Assembly.char?
  rw [hLiteral, hCode]
  simp [value.valid]

/-- A constant other than a NaN is read back from its words. -/
theorem constant_words {constant : Constant} (h : constant.isNaN = false) :
    Assembly.constant constant.kindWord.toList constant.valueWord.toList = .ok constant := by
  unfold Assembly.constant
  rw [String.ofList_toList]
  rcases constant with value | bits | value | value
  · simp only [kindWord, valueWord, Numeral.int64?_toString]
    rfl
  · simp only [kindWord, valueWord, Binary64.read?_render h]
    rfl
  · simp only [kindWord, valueWord, char?_toString]
    rfl
  · cases value <;> rfl

end Constant

/-! ## The words of a listing -/

namespace Assembly

theorem isWordChar_of_digits {cs : List Char} (h : Numeral.Digits cs) : ∀ c ∈ cs, IsWordChar c := by
  intro c hMem
  exact isWordChar_of_isAlphanum (by simp [Char.isAlphanum, h c hMem])

theorem isWord_toString (n : Nat) : IsWord (toString n).toList := by
  rw [Numeral.toList_toString]
  exact ⟨Nat.toDigits_ne_nil, isWordChar_of_digits (Numeral.digits_toDigits n)⟩

theorem isWord_toString_int (n : Int) : IsWord (toString n).toList := by
  rw [Numeral.toList_toString_int]
  refine ⟨List.append_ne_nil_of_right_ne_nil _ Nat.toDigits_ne_nil, ?_⟩
  intro c hMem
  rcases List.mem_append.1 hMem with hMem | hMem
  · split at hMem
    · cases List.mem_singleton.1 hMem
      decide
    · cases hMem
  · exact isWordChar_of_digits (Numeral.digits_toDigits _) c hMem

theorem isWordChar_positional {digits : List Char} (h : ∀ c ∈ digits, IsWordChar c) (point : Int) :
    ∀ c ∈ Binary64.positional digits point, IsWordChar c := by
  have hZeros : ∀ n, ∀ c ∈ List.replicate n '0', IsWordChar c :=
    fun n => isWordChar_of_digits (Numeral.digits_replicate n)
  unfold Binary64.positional
  split
  · simp only [List.forall_mem_cons, List.forall_mem_append]
    exact ⟨by decide, by decide, hZeros _, h⟩
  · simp only [List.forall_mem_cons, List.forall_mem_append]
    refine ⟨⟨fun c hMem => h c (List.mem_of_mem_take hMem), hZeros _⟩, by decide, ?_⟩
    split
    · exact isWordChar_of_all (by decide)
    · exact fun c hMem => h c (List.mem_of_mem_drop hMem)

theorem isWordChar_scientific {digits : List Char} (h : ∀ c ∈ digits, IsWordChar c)
    (exponent : Int) : ∀ c ∈ Binary64.scientific digits exponent, IsWordChar c := by
  unfold Binary64.scientific
  simp only [List.forall_mem_cons, List.forall_mem_append]
  refine ⟨⟨fun c hMem => h c (List.mem_of_mem_take hMem), ?_⟩, by decide,
    (isWord_toString_int exponent).2⟩
  split
  · exact List.forall_mem_nil _
  · rintro c (_ | ⟨_, hMem⟩)
    · decide
    · exact h c (List.mem_of_mem_drop hMem)

theorem isWordChar_renderDecimal (decimal : Binary64.Decimal) :
    ∀ c ∈ Binary64.renderDecimal decimal, IsWordChar c := by
  have hDigits : ∀ c ∈ Binary64.trimZeros (toString decimal.digits).toList, IsWordChar c := by
    intro c hMem
    obtain ⟨k, hAll⟩ := Binary64.exists_trimZeros (toString decimal.digits).toList
    refine (isWord_toString decimal.digits).2 c ?_
    rw [hAll]
    exact List.mem_append_left _ hMem
  unfold Binary64.renderDecimal
  simp only
  split
  · exact isWordChar_positional hDigits _
  · exact isWordChar_scientific hDigits _

theorem isWord_render {bits : UInt64} (h : Binary64.isNaN bits = false) :
    IsWord (Binary64.render bits).toList := by
  have hSign : ∀ c ∈ (if Binary64.isNegative bits then "-" else "").toList, IsWordChar c := by
    split <;> exact isWordChar_of_all (by decide)
  constructor
  · intro hNil
    have hRead := Binary64.read?_render h
    rw [hNil] at hRead
    cases hRead
  · unfold Binary64.render
    rw [if_neg (by rw [h]; decide)]
    simp only
    split
    · rw [String.toList_append, List.forall_mem_append]
      exact ⟨hSign, isWordChar_of_all (by decide)⟩
    · split
      · rw [String.toList_append, List.forall_mem_append]
        exact ⟨hSign, isWordChar_of_all (by decide)⟩
      · rw [String.toList_append, List.forall_mem_append, String.toList_ofList]
        exact ⟨hSign, isWordChar_renderDecimal _⟩

theorem isWord_kindWord (constant : Constant) : IsWord constant.kindWord.toList := by
  cases constant <;> simp only [Constant.kindWord] <;> decide

theorem isWord_valueWord {constant : Constant} (h : constant.isNaN = false) :
    IsWord constant.valueWord.toList := by
  cases constant with
  | long value => exact isWord_toString_int _
  | float bits => exact isWord_render h
  | char value => exact isWord_toString _
  | bool value => cases value <;> decide

theorem isWord_mnemonic {opcode : Opcode} {op : Operation} (h : opcode.decode? = some op) :
    IsWord opcode.mnemonic.toList := by
  obtain ⟨hSome, hChars⟩ := Opcode.isUpper_mnemonic h
  refine ⟨hSome, fun c hMem => ?_⟩
  rcases hChars c hMem with hUpper | rfl
  · exact isWordChar_of_isAlphanum (by simp [Char.isAlphanum, Char.isAlpha, hUpper])
  · decide

/-! ## The lines of a listing -/

theorem written_spaced {words : List String} (h : ∀ word ∈ words, IsWord word.toList) :
    Written (" ".intercalate words).toList (words.map String.toList) := by
  have hWritten : Written ([' '].intercalate (words.map String.toList) ++ [])
      (words.map String.toList ++ []) :=
    .intercalate (by decide) (by simp) (by simpa using h) (by simp) .done
  rw [List.append_nil, List.append_nil] at hWritten
  rw [String.toList_intercalate]
  exact hWritten

theorem written_size (name : String) (n : Nat) (h : IsWord name.toList) :
    Written (name ++ " " ++ toString n).toList [name.toList, (toString n).toList] := by
  have hText : name ++ " " ++ toString n = " ".intercalate [name, toString n] := by
    simp [String.append_assoc]
  have hWords : ∀ word ∈ [name, toString n], IsWord word.toList := by
    simp only [List.forall_mem_cons]
    exact ⟨h, isWord_toString n, by simp⟩
  rw [hText]
  exact written_spaced hWords

theorem written_constant {constant : Constant} (h : constant.isNaN = false) :
    Written s!".const {constant.render}".toList
      [".const".toList, constant.kindWord.toList, constant.valueWord.toList] := by
  have hText : s!".const {constant.render}"
      = " ".intercalate [".const", constant.kindWord, constant.valueWord] := by
    show ".const " ++ constant.render = _
    rw [constant.render_eq]
    simp [String.append_assoc]
  have hWords : ∀ word ∈ [".const", constant.kindWord, constant.valueWord],
      IsWord word.toList := by
    simp only [List.forall_mem_cons]
    exact ⟨by decide, isWord_kindWord constant, isWord_valueWord h, by simp⟩
  rw [hText]
  exact written_spaced hWords

/-- The words of an instruction: its mnemonic, and what `spell` gives for the slots that it
declares. -/
def wordsWith (ins : Instruction) (spell : Nat → String) : List String :=
  ins.opcode.mnemonic :: (List.range ins.operandCount).map spell

/-- An instruction whose slots are spelled by `spell`. -/
def renderWith (ins : Instruction) (spell : Nat → String) : String :=
  match (List.range ins.operandCount).map spell with
  | [] => ins.opcode.mnemonic
  | operands => ins.opcode.mnemonic ++ " " ++ ", ".intercalate operands

theorem written_renderWith {ins : Instruction} {op : Operation}
    (h : ins.opcode.decode? = some op) {spell : Nat → String}
    (hSpell : ∀ slot < ins.operandCount, IsWord (spell slot).toList) (index : Nat) :
    Written s!"{renderWith ins spell}    # {index}".toList
      ((wordsWith ins spell).map String.toList) := by
  have hTail : Written ([' ', ' ', ' ', ' '] ++ '#' :: ' ' :: (toString index).toList) [] := by
    refine .blanks (by simp) (.comment ?_)
    rintro c (_ | ⟨_, hMem⟩)
    · decide
    · have hChar := (isWord_toString index).2 c hMem
      exact ⟨hChar.ne (by decide), hChar.ne (by decide)⟩
  have hOperands : ∀ word ∈ (List.range ins.operandCount).map spell, IsWord word.toList := by
    intro word hMem
    obtain ⟨slot, hSlot, rfl⟩ := List.mem_map.1 hMem
    exact hSpell slot (List.mem_range.1 hSlot)
  unfold wordsWith renderWith
  generalize (List.range ins.operandCount).map spell = operands at hOperands
  have hMnemonic := isWord_mnemonic h
  have hLine : ∀ text : String, s!"{text}    # {index}".toList
      = text.toList ++ ([' ', ' ', ' ', ' '] ++ '#' :: ' ' :: (toString index).toList) := by
    intro text
    show (text ++ "    # " ++ toString index).toList = _
    rw [String.toList_append, String.toList_append, List.append_assoc]
    rfl
  rw [hLine]
  rcases operands with _ | ⟨first, more⟩
  · exact .word hMnemonic (by simp) hTail
  · rw [String.toList_append, String.toList_append, String.toList_intercalate, List.append_assoc,
      List.append_assoc]
    have hList : Written (", ".toList.intercalate ((first :: more).map String.toList)
        ++ ([' ', ' ', ' ', ' '] ++ '#' :: ' ' :: (toString index).toList))
        ((first :: more).map String.toList ++ []) :=
      .intercalate (by decide) (by simp) (by simpa using hOperands) (by simp) hTail
    rw [List.append_nil] at hList
    exact .word hMnemonic (by simp) (.blank (.inl rfl) hList)

/-- The words of an instruction: its mnemonic, and the numbers in the slots that it declares. -/
def instructionWords (ins : Instruction) : List String :=
  ins.opcode.mnemonic ::
    (List.range ins.operandCount).map fun slot => toString (ins.operand slot).toNat

theorem written_instruction {ins : Instruction} {op : Operation}
    (h : ins.opcode.decode? = some op) (index : Nat) :
    Written s!"{ins.render}    # {index}".toList
      ((instructionWords ins).map String.toList) :=
  written_renderWith h (fun _ _ => isWord_toString _) index

/-! ## The first pass -/

/-- What the words of a line do to a draft, the line does. -/
theorem addLine_of_reads {line : List Char} {texts : List (List Char)} (h : Reads line texts) :
    ∃ tokens, tokens.map Token.text = texts ∧ ∀ (draft next : Draft) (number : Nat),
      draft.addTokens number tokens = .ok next → draft.addLine number line = .ok next := by
  obtain ⟨tokens, hTokens, hTexts⟩ := h 1
  refine ⟨tokens, hTexts, ?_⟩
  intro draft next number hAdd
  unfold Draft.addLine Assembly.tokens
  rw [hTokens]
  simp only [hAdd]
  rfl

theorem addLine_directive {line : List Char} {name : String} {arguments : List (List Char)}
    (h : Written line (name.toList :: arguments)) (hName : name.toList.head? = some '.')
    {draft next : Draft} (hDirect : draft.direct name arguments = .ok next) (number : Nat) :
    draft.addLine number line = .ok next := by
  obtain ⟨tokens, hTexts, hLine⟩ := addLine_of_reads h.reads
  apply hLine
  rcases tokens with _ | ⟨head, rest⟩
  · cases hTexts
  · obtain ⟨hHead, hRest⟩ := List.cons.inj hTexts
    have hString : head.string = name := by
      unfold Token.string
      rw [hHead, String.ofList_toList]
    rw [Draft.addTokens, hHead, if_pos hName, hString, hRest]
    exact hDirect

theorem addLine_constant {constant : Constant} (h : constant.isNaN = false) (draft : Draft)
    (number : Nat) :
    draft.addLine number s!".const {constant.render}".toList
      = .ok { draft with constants := draft.constants.push constant } := by
  apply addLine_directive (written_constant h) (by decide)
  simp only [Draft.direct, Constant.constant_words h]
  rfl

theorem size_toString (n : UInt32) : size (toString n.toNat).toList = .ok n := by
  unfold size
  rw [Numeral.uint32?_toString]
  rfl

/-- The lines with the sizes set the header. -/
theorem addLines_header (header : Header) (rest : List (List Char)) :
    Draft.addLines {} 1 (s!".stack {header.stackSize.toNat}".toList
        :: s!".frames {header.frameLimit.toNat}".toList
        :: s!".globals {header.globalCount.toNat}".toList :: rest)
      = Draft.addLines { header } 4 rest := by
  have hStack : ∀ draft : Draft, draft.addLine 1 s!".stack {header.stackSize.toNat}".toList
      = .ok { draft with header := { draft.header with stackSize := header.stackSize } } := by
    intro draft
    apply addLine_directive (written_size ".stack" _ (by decide)) (by decide)
    simp only [Draft.direct, size_toString]
    rfl
  have hFrames : ∀ draft : Draft, draft.addLine 2 s!".frames {header.frameLimit.toNat}".toList
      = .ok { draft with header := { draft.header with frameLimit := header.frameLimit } } := by
    intro draft
    apply addLine_directive (written_size ".frames" _ (by decide)) (by decide)
    simp only [Draft.direct, size_toString]
    rfl
  have hGlobals : ∀ draft : Draft, draft.addLine 3 s!".globals {header.globalCount.toNat}".toList
      = .ok { draft with header := { draft.header with globalCount := header.globalCount } } := by
    intro draft
    apply addLine_directive (written_size ".globals" _ (by decide)) (by decide)
    simp only [Draft.direct, size_toString]
    rfl
  simp only [Draft.addLines, hStack, hFrames, hGlobals]

theorem addLines_constants {constants : List Constant}
    (h : ∀ constant ∈ constants, constant.isNaN = false)
    (draft : Draft) (number : Nat) (rest : List (List Char)) :
    draft.addLines number
        (constants.map (fun constant => s!".const {constant.render}".toList) ++ rest)
      = { draft with constants := draft.constants ++ constants.toArray }.addLines
          (number + constants.length) rest := by
  induction constants generalizing draft number with
  | nil => simp
  | cons constant more ih =>
    have hLine := addLine_constant (h constant List.mem_cons_self) draft number
    have hMore := ih (fun other hMem => h other (List.mem_cons_of_mem constant hMem))
    have hPush : draft.constants.push constant ++ more.toArray
        = draft.constants ++ (constant :: more).toArray := by
      simp
    have hNumber : number + 1 + more.length = number + (constant :: more).length := by
      rw [List.length_cons]
      omega
    rw [List.map_cons, List.cons_append, Draft.addLines, hLine]
    simp only
    rw [hMore, hPush, hNumber]

/-- Tokens that start with a mnemonic are those of an instruction. -/
theorem addTokens_instruction {ins : Instruction} {op : Operation}
    (h : ins.opcode.decode? = some op) {spell : Nat → String} {tokens : List Token}
    (hTexts : tokens.map Token.text = (wordsWith ins spell).map String.toList) (draft : Draft)
    (number : Nat) :
    draft.addTokens number tokens = .ok (draft.addInstruction number tokens) := by
  rcases tokens with _ | ⟨head, rest⟩
  · cases hTexts
  · obtain ⟨hHead, -⟩ := List.cons.inj hTexts
    obtain ⟨hSome, hChars⟩ := Opcode.isUpper_mnemonic h
    have hPoint : head.text.head? ≠ some '.' := by
      intro hDot
      rw [hHead] at hDot
      rcases hChars '.' (List.mem_of_head? hDot) with hUpper | hUpper <;> cases hUpper
    have hLabel : labelName? head.text = none := by
      unfold labelName?
      rw [if_neg]
      rintro ⟨hColon, -⟩
      rw [hHead] at hColon
      rcases hChars ':' (List.mem_of_getLast? hColon) with hUpper | hUpper <;> cases hUpper
    rw [Draft.addTokens, if_neg hPoint, hLabel]

/-- A line with an instruction. -/
theorem addLine_instruction {ins : Instruction} {op : Operation}
    (h : ins.opcode.decode? = some op) {spell : Nat → String}
    (hSpell : ∀ slot < ins.operandCount, IsWord (spell slot).toList) (draft : Draft)
    (number index : Nat) :
    ∃ tokens, tokens.map Token.text = (wordsWith ins spell).map String.toList ∧
      draft.addLine number s!"{renderWith ins spell}    # {index}".toList
        = .ok (draft.addInstruction number tokens) := by
  obtain ⟨tokens, hTexts, hLine⟩ := addLine_of_reads (written_renderWith h hSpell index).reads
  exact ⟨tokens, hTexts, hLine _ _ _ (addTokens_instruction h hTexts draft number)⟩

/-- Numbered lines hold the words of instructions, one by one. -/
def Holds (lines : List (Nat × List Token)) (code : List Instruction) : Prop :=
  lines.map (fun line => line.2.map Token.text)
    = code.map fun ins => (instructionWords ins).map String.toList

theorem addLines_instructions {code : List Instruction}
    (h : ∀ ins ∈ code, ∃ op, ins.opcode.decode? = some op) (draft : Draft) (number index : Nat) :
    ∃ lines, Holds lines code ∧
      draft.addLines number ((code.zipIdx index).map fun pair =>
          s!"{pair.1.render}    # {pair.2}".toList)
        = .ok { draft with instructionLines := draft.instructionLines ++ lines.toArray } := by
  induction code generalizing draft number index with
  | nil => exact ⟨[], rfl, by simp [Draft.addLines]⟩
  | cons ins more ih =>
    obtain ⟨op, hDecode⟩ := h ins List.mem_cons_self
    have hFirst : ∃ tokens, tokens.map Token.text = (instructionWords ins).map String.toList ∧
        draft.addLine number s!"{ins.render}    # {index}".toList
          = .ok (draft.addInstruction number tokens) :=
      addLine_instruction hDecode (fun _ _ => isWord_toString _) draft number index
    obtain ⟨tokens, hTexts, hLine⟩ := hFirst
    obtain ⟨lines, hLines, hMore⟩ := ih (fun other hMem => h other (List.mem_cons_of_mem ins hMem))
      (draft.addInstruction number tokens) (number + 1) (index + 1)
    refine ⟨(number, tokens) :: lines, ?_, ?_⟩
    · unfold Holds at hLines ⊢
      rw [List.map_cons, List.map_cons, hLines, hTexts]
    · rw [List.zipIdx_cons, List.map_cons, Draft.addLines, hLine]
      simp only
      rw [hMore]
      simp [Draft.addInstruction]

/-! ## The second pass -/

theorem register?_toString (word : UInt16) :
    register? (toString word.toNat).toList = some word := by
  have hWord := Numeral.uint16?_toString word
  obtain ⟨c, cs, hDigits, hHead⟩ := Numeral.toDigits_eq_cons word.toNat
  rw [Numeral.toList_toString, hDigits] at hWord ⊢
  unfold register?
  split
  · rename_i heq
    cases heq
    cases hHead
  · exact hWord

theorem immediate_toString (labels : Labels) (word : UInt16) :
    immediate labels (toString word.toNat).toList = .ok word := by
  have hNumeric : looksNumeric (toString word.toNat).toList = true := by
    obtain ⟨c, cs, hDigits, hHead⟩ := Numeral.toDigits_eq_cons word.toNat
    rw [Numeral.toList_toString, hDigits]
    simp [looksNumeric, Numeral.isSome_digit?_of_isDigit hHead]
  unfold immediate word?
  simp only [hNumeric, if_true, Numeral.uint16?_toString]
  rfl

theorem operand_toString (labels : Labels) (operandClass : OperandClass) (word : UInt16) :
    operand labels operandClass (toString word.toNat).toList = .ok word := by
  cases operandClass with
  | reg | loc => exact congrArg (orInvalid _) (register?_toString word)
  | imm => exact immediate_toString labels word

/-- The words of an instruction stand for it if what is spelled is the value of each slot. -/
theorem encodes_wordsWith {labels : Labels} {ins : Instruction} {op : Operation}
    (h : ins.opcode.decode? = some op) {spell : Nat → String}
    (hSpell : ∀ slot operandClass, op.operands[slot]? = some operandClass →
      operand labels operandClass (spell slot).toList = .ok (ins.operand slot)) :
    Encodes labels ((wordsWith ins spell).map String.toList) ins := by
  have hCount := Instruction.operandCount_of_decode? h
  refine ⟨?_, op, h, by simp [wordsWith, hCount], ?_⟩
  · rw [wordsWith, List.map_cons, List.head?_cons, Option.bind_some, String.ofList_toList,
      Opcode.ofMnemonic?_mnemonic h]
  · intro slot operandClass text hClass hText
    have hSlot : slot < ins.operandCount :=
      hCount ▸ (List.getElem?_eq_some_iff.1 hClass).1
    rw [wordsWith, List.map_cons, List.tail_cons, List.map_map, List.getElem?_map,
      List.getElem?_range hSlot] at hText
    cases hText
    exact hSpell slot operandClass hClass

theorem instructions_of_words {code : List Instruction}
    (h : ∀ ins ∈ code, ∃ op, ins.opcode.decode? = some op) (labels : Labels)
    {lines : List (Nat × List Token)} (hLines : Holds lines code) (done : Array Instruction) :
    instructions labels done lines = .ok (done ++ (code.map Instruction.trimmed).toArray) := by
  apply instructions_of_encodes
  unfold EncodesAll
  rw [hLines, List.forall₂_map_left_iff, List.forall₂_same]
  intro ins hMem
  obtain ⟨op, hDecode⟩ := h ins hMem
  exact encodes_wordsWith hDecode fun slot operandClass _ =>
    operand_toString labels operandClass (ins.operand slot)

/-! ## Assembled programs -/

theorem length_operands {labels : Labels} {number : Nat} {pairs : List (OperandClass × Token)}
    {values : List UInt16} (h : operands labels number pairs = .ok values) :
    values.length = pairs.length := by
  induction pairs generalizing values with
  | nil =>
    cases h
    rfl
  | cons pair rest ih =>
    obtain ⟨value, -, hRest⟩ := Arena.bind_eq_ok.1 h
    obtain ⟨more, hMore, hValues⟩ := Arena.bind_eq_ok.1 hRest
    cases hValues
    rw [List.length_cons, List.length_cons, ih hMore]

/-- The assembler leaves the slots at zero that an instruction does not declare. -/
theorem sparesNothing_instruction {labels : Labels} {number : Nat} {tokens : List Token}
    {ins : Instruction} (h : instruction labels number tokens = .ok ins) : ins.SparesNothing := by
  rcases tokens with _ | ⟨head, arguments⟩
  · cases h
  · rw [instruction] at h
    split at h
    · cases h
    · rename_i opcode _
      split at h
      · cases h
      · rename_i op hDecode
        split at h
        · cases h
        · rename_i hLength
          obtain ⟨values, hValues, hMade⟩ := Arena.bind_eq_ok.1 h
          have hCount := length_operands hValues
          rw [List.length_zip, not_not.1 hLength, Nat.min_self] at hCount
          cases hMade
          generalize hIns : Instruction.mk opcode _ _ _ = ins
          have hOpcode : ins.opcode.decode? = some op := by
            rw [← hIns]
            exact hDecode
          have hOperand : ∀ slot < 3, ins.operand slot = values[slot]?.getD 0 := by
            rw [← hIns]
            rintro (_ | _ | _ | slot) hSlot
            · rfl
            · rfl
            · rfl
            · omega
          intro slot hSlot hSpare
          rw [Instruction.operandCount_of_decode? hOpcode, ← hCount] at hSpare
          rw [hOperand slot hSlot, List.getElem?_eq_none hSpare]
          rfl

theorem sparesNothing_instructions {labels : Labels} {done code : Array Instruction}
    {lines : List (Nat × List Token)} (hDone : ∀ ins ∈ done, ins.SparesNothing)
    (h : instructions labels done lines = .ok code) : ∀ ins ∈ code, ins.SparesNothing := by
  induction lines generalizing done with
  | nil =>
    cases h
    exact hDone
  | cons line rest ih =>
    rw [instructions] at h
    split at h
    · rename_i ins hIns
      refine ih ?_ h
      intro other hMem
      rcases Array.mem_push.1 hMem with hMem | rfl
      · exact hDone other hMem
      · exact sparesNothing_instruction hIns
    · cases h

theorem sparesNothing_assemble {source : String} {program : Program}
    (h : assemble source = .ok program) : ∀ ins ∈ program.instructions, ins.SparesNothing := by
  obtain ⟨draft, -, hCode⟩ := Arena.bind_eq_ok.1 h
  obtain ⟨code, hRead, hMake⟩ := Arena.bind_eq_ok.1 hCode
  obtain ⟨-, rfl⟩ := Program.make_eq_ok.1 hMake
  have hSpare := sparesNothing_instructions (by simp) hRead
  have hSentinel : Instruction.sentinel.SparesNothing := by
    unfold Instruction.SparesNothing
    decide
  intro ins hMem
  unfold terminate at hMem
  split at hMem
  · exact hSpare ins hMem
  · rcases Array.mem_push.1 hMem with hMem | rfl
    · exact hSpare ins hMem
    · exact hSentinel

end Assembly

/-! ## The listing -/

namespace Program

open Assembly

/-- Each line of a listing is put together from words. -/
theorem isLine_listingLines {program : Program}
    (hLegal : ∀ ins ∈ program.instructions, ∃ op, ins.opcode.decode? = some op)
    (hConstants : ∀ constant ∈ program.constants, constant.isNaN = false) :
    ∀ line ∈ program.listingLines, IsLine line.toList := by
  unfold listingLines
  simp only [List.forall_mem_append, List.forall_mem_cons, List.forall_mem_map]
  refine ⟨⟨⟨?_, ?_, ?_, by simp⟩, ?_⟩, ?_⟩
  · exact (written_size ".stack" _ (by decide)).isLine
  · exact (written_size ".frames" _ (by decide)).isLine
  · exact (written_size ".globals" _ (by decide)).isLine
  · intro constant hMem
    exact (written_constant (hConstants constant (Array.mem_toList_iff.1 hMem))).isLine
  · rintro ⟨ins, index⟩ hMem
    have hPlace := List.mem_of_getElem? (List.mem_zipIdx_iff_getElem?.1 hMem)
    obtain ⟨op, hDecode⟩ := hLegal ins (Array.mem_toList_iff.1 hPlace)
    exact (written_instruction hDecode index).isLine

/-- The first pass over the part of a listing above the instructions. -/
theorem addLines_preamble {program : Program}
    (hConstants : ∀ constant ∈ program.constants, constant.isNaN = false)
    (rest : List (List Char)) :
    Draft.addLines {} 1
        ({ program with instructions := #[] }.listingLines.map String.toList ++ rest)
      = Draft.addLines { header := program.header, constants := program.constants }
          (4 + program.constants.toList.length) rest := by
  have hParts : { program with instructions := #[] }.listingLines.map String.toList ++ rest
      = s!".stack {program.header.stackSize.toNat}".toList
        :: s!".frames {program.header.frameLimit.toNat}".toList
        :: s!".globals {program.header.globalCount.toNat}".toList
        :: (program.constants.toList.map (fun constant => s!".const {constant.render}".toList)
          ++ rest) := by
    simp [listingLines]
  have hAppend : ({ header := program.header } : Draft).constants
      ++ program.constants.toList.toArray = program.constants := by
    simp
  rw [hParts, addLines_header,
    addLines_constants fun constant hMem => hConstants constant (Array.mem_toList_iff.1 hMem),
    hAppend]

/-- The first pass over a listing finds the header, the constants and the instruction lines, and
no label. -/
theorem addLines_listing {program : Program}
    (hLegal : ∀ ins ∈ program.instructions, ∃ op, ins.opcode.decode? = some op)
    (hConstants : ∀ constant ∈ program.constants, constant.isNaN = false) :
    ∃ lines, Holds lines program.instructions.toList ∧
      Draft.addLines {} 1 (Assembly.lines program.listing)
        = .ok { header := program.header, constants := program.constants
                instructionLines := lines.toArray } := by
  have hLines : Assembly.lines program.listing = program.listingLines.map String.toList :=
    lines_join_of_isLine (isLine_listingLines hLegal hConstants)
  obtain ⟨lines, hHolds, hCode⟩ := addLines_instructions
    (fun ins hMem => hLegal ins (Array.mem_toList_iff.1 hMem))
    { header := program.header, constants := program.constants }
    (4 + program.constants.toList.length) 0
  have hParts : program.listingLines.map String.toList
      = { program with instructions := #[] }.listingLines.map String.toList
        ++ program.instructions.toList.zipIdx.map fun pair =>
          s!"{pair.1.render}    # {pair.2}".toList := by
    simp [listingLines]
  refine ⟨lines, hHolds, ?_⟩
  rw [hLines, hParts, addLines_preamble hConstants, hCode]
  simp

theorem terminate_of_validate {code : Array Instruction} (h : validate code = .ok ()) :
    terminate code = code := by
  obtain ⟨last, hLast, hSentinel⟩ := (validStream_of_validate h).ends
  unfold terminate
  rw [hLast, if_pos (by simpa using hSentinel)]

/-- The listing of a valid program assembles to the program with zero in its spare slots. -/
theorem assemble_listing {program : Program} (hValid : validate program.instructions = .ok ())
    (hFits : program.constants.size ≤ program.header.globalCount.toNat)
    (hConstants : ∀ constant ∈ program.constants, constant.isNaN = false) :
    assemble program.listing
      = .ok { program with instructions := program.instructions.map Instruction.trimmed } := by
  have hLegal : ∀ ins ∈ program.instructions, ∃ op, ins.opcode.decode? = some op := by
    intro ins hMem
    obtain ⟨i, hFetch⟩ := Array.mem_iff_getElem?.1 hMem
    exact (validStream_of_validate hValid).legal i ins hFetch
  obtain ⟨lines, hHolds, hDraft⟩ := addLines_listing hLegal hConstants
  have hCode := instructions_of_words (fun ins hMem => hLegal ins (Array.mem_toList_iff.1 hMem))
    {} hHolds #[]
  rw [← Array.toList_map, Array.toArray_toList, Array.empty_append] at hCode
  rw [← validate_map_trimmed] at hValid
  unfold assemble
  refine Arena.bind_eq_ok.2 ⟨_, hDraft, Arena.bind_eq_ok.2 ⟨_, hCode, ?_⟩⟩
  rw [terminate_of_validate hValid]
  exact make_eq_ok.2 ⟨⟨hValid, hFits⟩, rfl⟩

/-! ## The law -/

/-- The listing of a program without a NaN assembles, to a program with the same header, the
same constants and the same instructions, except that the slots that an operation does not
declare are zero. That program is the listed one if these slots are zero there too, as they are
in whatever the assembler makes, and it runs like the listed one from every machine. -/
theorem a_listing_assembles_to_the_program_it_lists {σ : Type} :
    (∀ header constants instructions program,
      make header constants instructions = .ok program →
      (∀ constant ∈ program.constants, constant.isNaN = false) →
      ∃ other, assemble program.listing = .ok other ∧
        other.header = program.header ∧ other.constants = program.constants ∧
        other.instructions = program.instructions.map Instruction.trimmed ∧
        ((∀ ins ∈ program.instructions, ins.SparesNothing) → other = program) ∧
        ∀ (fuel : Nat) (machine : Machine σ),
          machine.run fuel other = machine.run fuel program) ∧
    ∀ source program, assemble source = .ok program →
      ∀ ins ∈ program.instructions, ins.SparesNothing := by
  refine ⟨?_, fun source program => sparesNothing_assemble⟩
  intro header constants instructions program hMake hConstants
  obtain ⟨⟨hValid, hFits⟩, rfl⟩ := make_eq_ok.1 hMake
  refine ⟨_, assemble_listing hValid hFits hConstants, rfl, rfl, rfl, ?_, ?_⟩
  · intro hSpares
    have hSame : instructions.map Instruction.trimmed = instructions := by
      rw [Array.map_congr_left fun ins hMem => Instruction.trimmed_eq_self (hSpares ins hMem),
        Array.map_id']
    rw [hSame]
  · intro fuel machine
    exact machine.execute_map_trimmed fuel instructions

/-- What stands in the slots of a `RETURN` and behind the code of an `ABORT` is not listed, and
a tenth and an infinity are read back. -/
theorem unused_operands_are_not_listed :
    assemble (Program.listing
        ⟨{}, #[.float 0x3FB999999999999A, .float 0xFFF0000000000000, .char 'λ'],
          #[⟨.make .ret 0, 7, 8, 9⟩, ⟨.make .abort 0, 0, 1, 2⟩]⟩)
      = .ok ⟨{}, #[.float 0x3FB999999999999A, .float 0xFFF0000000000000, .char 'λ'],
          #[⟨.make .ret 0, 0, 0, 0⟩, .sentinel]⟩ := by
  let constants : Array Constant :=
    #[.float 0x3FB999999999999A, .float 0xFFF0000000000000, .char 'λ']
  let instructions : Array Instruction := #[⟨.make .ret 0, 7, 8, 9⟩, ⟨.make .abort 0, 0, 1, 2⟩]
  have hMake : make {} constants instructions = .ok ⟨{}, constants, instructions⟩ := by
    decide +kernel
  obtain ⟨⟨header, found, code⟩, hAssemble, rfl, rfl, rfl, -⟩ :=
    (@a_listing_assembles_to_the_program_it_lists Unit).1 _ _ _ _ hMake (by decide +kernel)
  exact hAssemble.trans (by decide +kernel)

end Program

end RegisterMachine

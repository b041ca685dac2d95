-- The layout of a source: its blank lines, its comments, and the separators between its words.
-- All that the assembler takes from a line is the words of the line, and nothing from a line
-- without words. So edits of the layout leave the program as it is, and change no error but in
-- the place that it names.
import RegisterMachine.Proofs.LineScans
import RegisterMachine.Proofs.SymbolicListings

namespace RegisterMachine

/-- An error less the line and the column of a defect of the source. -/
def Error.placeless : Error → Error
  | .source _ _ defect => .source 0 0 defect
  | error => error

namespace Assembly

/-! ## Edits -/

/-- The parts of a source between its line feeds. -/
def pieces (source : String) : List (List Char) := source.toList.splitOn '\n'

/-- What may stand behind the last word of a line, in front of its line feed. -/
def IsLineEnd (stop : List Char) : Prop := stop = [] ∨ stop = ['\r']

/-- An edit inside a line that leaves its words alone. -/
inductive LineEdit : List Char → List Char → Prop
  /-- Appends a comment. -/
  | comment {line stop : List Char} (text : List Char)
      (hPlace : Place.outside.after line ≠ .literal) (hEnd : IsLineEnd stop) :
      LineEdit (line ++ stop) (line ++ '#' :: text ++ stop)
  /-- Adds a separator at the start. -/
  | start {line : List Char} {c : Char} (h : isSeparator c = true) : LineEdit line (c :: line)
  /-- Adds a separator at the end. -/
  | finish {line stop : List Char} {c : Char} (h : isSeparator c = true)
      (hEnd : IsLineEnd stop) : LineEdit (line ++ stop) (line ++ c :: stop)
  /-- Adds a separator in front of another one. -/
  | before {line rest : List Char} {c other : Char} (hPlace : Place.outside.after line ≠ .literal)
      (h : isSeparator c = true) (hOther : isSeparator other = true) :
      LineEdit (line ++ other :: rest) (line ++ c :: other :: rest)
  /-- Adds a separator behind another one. -/
  | behind {line rest : List Char} {c other : Char} (hPlace : Place.outside.after line ≠ .literal)
      (h : isSeparator c = true) (hOther : isSeparator other = true) :
      LineEdit (line ++ other :: rest) (line ++ other :: c :: rest)
  /-- Puts a separator in the place of another one. -/
  | replace {line rest : List Char} {c other : Char} (hPlace : Place.outside.after line ≠ .literal)
      (h : isSeparator c = true) (hOther : isSeparator other = true) :
      LineEdit (line ++ other :: rest) (line ++ c :: rest)

/-- An edit of the layout of a source, which is given by its pieces. -/
inductive LayoutEdit : List (List Char) → List (List Char) → Prop
  | insert (above below : List (List Char)) {line : List Char} (h : isBlank line = true) :
      LayoutEdit (above ++ below) (above ++ line :: below)
  | edit (above below : List (List Char)) {line edited : List Char} (h : LineEdit line edited) :
      LayoutEdit (above ++ line :: below) (above ++ edited :: below)

/-- The second source is the first one after an edit of its layout. -/
def LaidOut (source edited : String) : Prop := LayoutEdit (pieces source) (pieces edited)

/-! ## What is read of an edited line -/

section Readings

variable {line stop : List Char} {c : Char}

theorem reading?_of_isBlank (h : isBlank line = true) : reading? line = some [] := by
  obtain ⟨scanned, hScan, hTexts⟩ := reads_of_isBlank h 1
  rw [reading?, tokens, hScan, ← hTexts]
  rfl

/-- Separators in front say nothing. -/
theorem reading?_skip (h : ∀ c ∈ stop, isSeparator c = true) (line : List Char) :
    reading? (stop ++ line) = reading? line := by
  induction stop with
  | nil => rfl
  | cons c cs ih =>
    rw [List.forall_mem_cons] at h
    rw [List.cons_append, reading?, tokens, textsOf_scan_separator rfl h.1, ← ih h.2]
    simp [closing, reading?, tokens]

theorem reading?_separators (h : ∀ c ∈ stop, isSeparator c = true) : reading? stop = some [] := by
  rw [← List.append_nil stop, reading?_skip h]
  rfl

theorem Place.after_separators (h : ∀ c ∈ stop, isSeparator c = true) :
    Place.literal.after stop = .literal := by
  induction stop with
  | nil => rfl
  | cons c cs ih =>
    have hQuote : c ≠ '\'' := by
      rintro rfl
      cases h _ List.mem_cons_self
    rw [Place.after_cons, Place.next, if_neg hQuote]
    exact ih fun other hMem => h other (List.mem_cons_of_mem c hMem)

/-- Separators at the end of a line say nothing, not even in a char literal, which they leave
open. -/
theorem reading?_append_separators (line : List Char) (h : ∀ c ∈ stop, isSeparator c = true) :
    reading? (line ++ stop) = reading? line := by
  rcases hPlace : Place.outside.after line with _ | _ | _
  · obtain ⟨texts, hLine, -, hSeparator⟩ := reading?_of_outside hPlace
    rcases stop with _ | ⟨c, cs⟩
    · rw [List.append_nil]
    · rw [List.forall_mem_cons] at h
      rw [hSeparator c cs h.1, reading?_separators h.2, hLine]
      simp
  · have hAll : Place.outside.after (line ++ stop) = .literal := by
      rw [Place.after_append, hPlace, Place.after_separators h]
    rw [reading?_of_literal hAll, reading?_of_literal hPlace]
  · exact reading?_of_comment hPlace stop

theorem IsLineEnd.isSeparator (h : IsLineEnd stop) : ∀ c ∈ stop, isSeparator c = true := by
  rcases h with rfl | rfl
  · exact nofun
  · rintro c (_ | ⟨_, ⟨⟩⟩)
    rfl

/-- Behind a place outside of char literals it only matters of separators that there are any. -/
theorem reading?_gap {first other : Char} {gap more : List Char}
    (hPlace : Place.outside.after line ≠ .literal)
    (hGap : ∀ c ∈ first :: gap, isSeparator c = true)
    (hMore : ∀ c ∈ other :: more, isSeparator c = true) (rest : List Char) :
    reading? (line ++ first :: (gap ++ rest)) = reading? (line ++ other :: (more ++ rest)) := by
  rw [List.forall_mem_cons] at hGap hMore
  rcases hLine : Place.outside.after line with _ | _ | _
  · obtain ⟨texts, -, -, hSeparator⟩ := reading?_of_outside hLine
    rw [hSeparator first _ hGap.1, hSeparator other _ hMore.1, reading?_skip hGap.2,
      reading?_skip hMore.2]
  · exact absurd hLine hPlace
  · rw [reading?_of_comment hLine, reading?_of_comment hLine]

/-- An edit inside a line leaves what is read of it. -/
theorem LineEdit.reading?_eq {line edited : List Char} (h : LineEdit line edited) :
    reading? edited = reading? line := by
  cases h with
  | @comment line stop text hPlace hEnd =>
    rw [List.append_assoc, reading?_append_separators line hEnd.isSeparator]
    rcases hLine : Place.outside.after line with _ | _ | _
    · obtain ⟨texts, hTexts, hComment, -⟩ := reading?_of_outside hLine
      rw [List.cons_append, hComment, hTexts]
    · exact absurd hLine hPlace
    · exact reading?_of_comment hLine _
  | @start _ c h =>
    have hOne : ∀ x ∈ [c], isSeparator x = true := List.forall_mem_singleton.2 h
    exact reading?_skip hOne line
  | @finish line stop c h hEnd =>
    have hAll : ∀ other ∈ c :: stop, isSeparator other = true :=
      List.forall_mem_cons.2 ⟨h, hEnd.isSeparator⟩
    rw [reading?_append_separators line hAll, reading?_append_separators line hEnd.isSeparator]
  | @before line rest c other hPlace h hOther =>
    have hBoth : ∀ x ∈ [c, other], isSeparator x = true := by simp [h, hOther]
    exact reading?_gap hPlace hBoth (List.forall_mem_singleton.2 hOther) rest
  | @behind line rest c other hPlace h hOther =>
    have hBoth : ∀ x ∈ [other, c], isSeparator x = true := by simp [h, hOther]
    exact reading?_gap hPlace hBoth (List.forall_mem_singleton.2 hOther) rest
  | @replace line rest c other hPlace h hOther =>
    exact reading?_gap hPlace (List.forall_mem_singleton.2 h) (List.forall_mem_singleton.2 hOther)
      rest

end Readings

/-! ## What is read of a source -/

/-- What is read of the lines that hold anything. -/
def readings (lines : List (List Char)) : List (Option (List (List Char))) :=
  (lines.map reading?).filter (· ≠ some [])

theorem readings_append (lines more : List (List Char)) :
    readings (lines ++ more) = readings lines ++ readings more := by
  simp [readings]

theorem readings_cons (line : List Char) (lines : List (List Char)) :
    readings (line :: lines) = readings [line] ++ readings lines :=
  readings_append [line] lines

theorem readings_of_reading? {line : List Char} (h : reading? line = some []) :
    readings [line] = [] := by
  simp [readings, h]

theorem readings_closeLine (reversed : List Char) :
    readings [closeLine reversed] = readings [reversed.reverse] := by
  rw [readings, readings, List.map_singleton, List.map_singleton]
  unfold closeLine
  split
  · rw [List.reverse_cons, reading?_append_separators _ (IsLineEnd.isSeparator (.inr rfl))]
  · rfl

theorem readings_linesFrom (done : List (List Char)) {reversed : List Char} (h : '\n' ∉ reversed)
    (text : List Char) :
    readings (linesFrom done reversed text)
      = readings done.reverse ++ readings ((reversed.reverse ++ text).splitOn '\n') := by
  induction text generalizing done reversed with
  | nil =>
    rw [linesFrom, List.append_nil,
      List.splitOn_eq_singleton (fun hMem => h (List.mem_reverse.1 hMem))]
    rcases reversed with _ | ⟨c, cs⟩
    · rw [List.reverse_nil, readings_of_reading? rfl, List.append_nil]
      rfl
    · rw [if_neg (by simp), List.reverse_cons, readings_append]
  | cons c cs ih =>
    rw [linesFrom]
    by_cases hFeed : c = '\n'
    · subst hFeed
      rw [if_pos rfl, ih _ List.not_mem_nil, List.splitOn_append_cons_self,
        List.splitOn_eq_singleton (fun hMem => h (List.mem_reverse.1 hMem)), List.reverse_cons,
        readings_append, readings_append, List.append_assoc, readings_closeLine]
      rfl
    · have hMore : '\n' ∉ c :: reversed := by simp [Ne.symm hFeed, h]
      rw [if_neg hFeed, ih _ hMore, List.reverse_cons, List.append_assoc]
      rfl

/-- The carriage returns at the ends of lines say nothing, and nor does the end of the text. -/
theorem readings_lines (source : String) : readings (lines source) = readings (pieces source) :=
  readings_linesFrom [] List.not_mem_nil source.toList

theorem LayoutEdit.readings_eq {lines edited : List (List Char)} (h : LayoutEdit lines edited) :
    readings edited = readings lines := by
  cases h with
  | @insert above below line hBlank =>
    rw [readings_append, readings_append, readings_cons line,
      readings_of_reading? (reading?_of_isBlank hBlank), List.nil_append]
  | @edit above below line edited hEdit =>
    have hOne : readings [edited] = readings [line] := by
      rw [readings, readings, List.map_singleton, List.map_singleton, hEdit.reading?_eq]
    rw [readings_append, readings_append, readings_cons edited, readings_cons line, hOne]

/-! ## Assembly without places -/

/-- The token, nowhere. -/
def Token.bare (token : Token) : Token := { token with column := 0 }

theorem Token.text_bare (token : Token) : token.bare.text = token.text := rfl

theorem Token.string_bare (token : Token) : token.bare.string = token.string := rfl

theorem Token.map_text_bare (tokens : List Token) :
    (tokens.map Token.bare).map Token.text = tokens.map Token.text := by
  rw [List.map_map]
  rfl

/-- A draft that has forgotten where its instructions stand. -/
def Draft.bare (draft : Draft) : Draft :=
  { draft with
    instructionLines := draft.instructionLines.map fun line => (0, line.2.map Token.bare) }

/-- Takes in what is read of a line. -/
def Draft.read (draft : Draft) : Option (List (List Char)) → Except Error Draft
  | none => .error (.source 0 0 .unterminatedChar)
  | some texts => (draft.addTokens 0 (texts.map (Token.mk · 0))).mapError (.source 0 0)

/-- The second pass. -/
def Draft.program (draft : Draft) : Except Error Program := do
  let code ← instructions draft.labels #[] draft.instructionLines.toList
  Program.make draft.header draft.constants (terminate code)

namespace Draft

variable (draft : Draft) (number : Nat)

theorem direct_bare (name : String) (arguments : List (List Char)) :
    draft.bare.direct name arguments = (draft.direct name arguments).map bare := by
  unfold direct
  split
  · rename_i n
    cases size n <;> rfl
  · rename_i n
    cases size n <;> rfl
  · rename_i n
    cases size n <;> rfl
  · rename_i kind value
    cases constant kind value <;> rfl
  · rfl

theorem define_bare (name : String) : draft.bare.define name = (draft.define name).map bare := by
  unfold define
  simp only [bare, Array.size_map]
  split
  · rfl
  · split <;> rfl

theorem addInstruction_bare (tokens : List Token) :
    draft.bare.addInstruction 0 (tokens.map Token.bare)
      = (draft.addInstruction number tokens).bare := by
  simp [bare, addInstruction]

/-- The tokens of a line are taken in for their texts. -/
theorem addTokens_bare (tokens : List Token) :
    draft.bare.addTokens 0 (tokens.map Token.bare) = (draft.addTokens number tokens).map bare := by
  rcases tokens with _ | ⟨head, rest⟩
  · rfl
  · rw [List.map_cons, addTokens, addTokens, Token.text_bare, Token.string_bare,
      Token.map_text_bare]
    split
    · exact draft.direct_bare head.string _
    · rcases labelName? head.text with _ | name
      · exact congrArg Except.ok (draft.addInstruction_bare number (head :: rest))
      · simp only [define_bare]
        rcases draft.define name with defect | defined
        · rfl
        · rcases rest with _ | ⟨next, rest⟩
          · rfl
          · exact congrArg Except.ok (defined.addInstruction_bare number (next :: rest))

/-- A line is taken in for what is read of it. -/
theorem addLine_bare (line : List Char) :
    draft.bare.read (reading? line)
      = ((draft.addLine number line).map bare).mapError Error.placeless := by
  unfold addLine reading?
  rcases tokens line with column | tokens
  · rfl
  · have hTokens := draft.addTokens_bare number tokens
    have hRead : draft.bare.read (textsOf (.ok tokens))
        = (draft.bare.addTokens 0 (tokens.map Token.bare)).mapError (.source 0 0) := by
      change (draft.bare.addTokens 0 ((tokens.map Token.text).map _)).mapError _ = _
      rw [List.map_map]
      rfl
    rw [hRead, hTokens]
    simp only
    rcases draft.addTokens number tokens with defect | next <;> rfl

/-- The first pass goes over what is read of the lines. -/
theorem addLines_bare (lines : List (List Char)) :
    (readings lines).foldlM read draft.bare
      = ((draft.addLines number lines).map bare).mapError Error.placeless := by
  induction lines generalizing draft number with
  | nil => rfl
  | cons line rest ih =>
    have hLine := draft.addLine_bare number line
    have hFirst : (readings [line]).foldlM read draft.bare = draft.bare.read (reading? line) := by
      by_cases hEmpty : reading? line = some []
      · rw [readings_of_reading? hEmpty, hEmpty]
        rfl
      · simp [readings, hEmpty]
    rw [readings_cons, List.foldlM_append, hFirst, hLine, addLines]
    rcases draft.addLine number line with error | next
    · rfl
    · exact ih next (number + 1)

end Draft

/-! ## The second pass -/

/-- Steps that agree but for the places in their errors. -/
theorem mapError_bind {α β : Type} {x y : Except Error α} {f g : α → Except Error β}
    (h : x.mapError Error.placeless = y.mapError Error.placeless)
    (hNext : ∀ a, (f a).mapError Error.placeless = (g a).mapError Error.placeless) :
    (x >>= f).mapError Error.placeless = (y >>= g).mapError Error.placeless := by
  rcases x with error | a <;> rcases y with other | b
  · exact congrArg Except.error (Except.error.inj h)
  · cases h
  · cases h
  · cases h
    exact hNext a

theorem mapError_source {α : Type} (found : Except SourceDefect α) (number column : Nat) :
    (found.mapError (.source 0 0)).mapError Error.placeless
      = (found.mapError (.source number column)).mapError Error.placeless := by
  cases found <;> rfl

theorem operands_bare (labels : Labels) (number : Nat) (slots : List (OperandClass × Token)) :
    (operands labels 0 (slots.map (Prod.map id Token.bare))).mapError Error.placeless
      = (operands labels number slots).mapError Error.placeless := by
  induction slots with
  | nil => rfl
  | cons slot rest ih =>
    obtain ⟨operandClass, token⟩ := slot
    refine mapError_bind (mapError_source _ number token.column) fun value => ?_
    exact mapError_bind ih fun values => rfl

theorem instruction_bare (labels : Labels) (number : Nat) (tokens : List Token) :
    (instruction labels 0 (tokens.map Token.bare)).mapError Error.placeless
      = (instruction labels number tokens).mapError Error.placeless := by
  rcases tokens with _ | ⟨head, arguments⟩
  · rfl
  · rw [List.map_cons, instruction, instruction, Token.string_bare]
    rcases Opcode.ofMnemonic? head.string with _ | opcode
    · rfl
    · simp only [List.length_map]
      rcases opcode.decode? with _ | op
      · rfl
      · simp only
        split
        · rfl
        · rw [List.zip_map_right]
          exact mapError_bind (operands_bare labels number _) fun values => rfl

theorem instructions_cons (labels : Labels) (done : Array Instruction) (number : Nat)
    (tokens : List Token) (rest : List (Nat × List Token)) :
    instructions labels done ((number, tokens) :: rest)
      = instruction labels number tokens >>= fun ins =>
          instructions labels (done.push ins) rest := by
  rw [instructions]
  cases instruction labels number tokens <;> rfl

theorem instructions_bare (labels : Labels) (done : Array Instruction)
    (lines : List (Nat × List Token)) :
    (instructions labels done (lines.map fun line => (0, line.2.map Token.bare))).mapError
        Error.placeless
      = (instructions labels done lines).mapError Error.placeless := by
  induction lines generalizing done with
  | nil => rfl
  | cons line rest ih =>
    obtain ⟨number, tokens⟩ := line
    rw [List.map_cons, instructions_cons, instructions_cons]
    exact mapError_bind (instruction_bare labels number tokens) fun ins => ih (done.push ins)

theorem Draft.program_bare (draft : Draft) :
    draft.bare.program.mapError Error.placeless = draft.program.mapError Error.placeless := by
  refine mapError_bind ?_ fun code => rfl
  have hLines := instructions_bare draft.labels #[] draft.instructionLines.toList
  rwa [← Array.toList_map] at hLines

/-- But for places, all that assembly takes from a source is what is read of its lines. -/
theorem assemble_readings (source : String) :
    (assemble source).mapError Error.placeless
      = ((readings (lines source)).foldlM Draft.read {} >>= Draft.program).mapError
          Error.placeless := by
  have hLines := Draft.addLines_bare {} 1 (lines source)
  rw [show Draft.bare {} = {} by simp [Draft.bare]] at hLines
  change (Draft.addLines {} 1 (lines source) >>= Draft.program).mapError Error.placeless = _
  rw [hLines]
  rcases Draft.addLines {} 1 (lines source) with error | draft
  · cases error <;> rfl
  · exact draft.program_bare.symm

/-! ## The law -/

/-- Let a source be edited any number of times, each time by a blank line that is inserted or
deleted, a comment that is appended to a line outside of a char literal or taken from there, or a
separator that is added, deleted or replaced where there is another one or the line begins or
ends. It assembles to the same program, or to an error that differs at most in its place. -/
theorem layout_does_not_matter (source edited : String)
    (hEdits : Relation.EqvGen LaidOut source edited) :
    (assemble edited).mapError Error.placeless = (assemble source).mapError Error.placeless := by
  induction hEdits with
  | rel source edited hEdit =>
    rw [assemble_readings, assemble_readings, readings_lines, readings_lines, hEdit.readings_eq]
  | refl source => rfl
  | symm source edited _ ih => exact ih.symm
  | trans source middle edited _ _ ih ih' => exact ih'.trans ih

/-- A blank line is deleted, a blank in front of a char literal becomes a comma, and a comment
goes behind the literal, in which the hash is none. -/
theorem a_hash_in_quotes_is_no_comment :
    Relation.EqvGen LaidOut "top: SET_L 0 '#', 0\n,\nJUMP top"
        "top: SET_L 0,'#', 0# a hash\nJUMP top" ∧
      ∃ program, assemble "top: SET_L 0 '#', 0\n,\nJUMP top" = .ok program ∧
        program.instructions
          = #[⟨.make .set 0, 0, 35, 0⟩, ⟨.make .jump 0, 0, 0, 0⟩, .sentinel] ∧
        (assemble "top: SET_L 0,'#', 0# a hash\nJUMP top").mapError Error.placeless
          = .ok program := by
  let start := "top: SET_L 0".toList
  let jump := "JUMP top".toList
  have hBlank : LayoutEdit ([start ++ " '#', 0".toList] ++ [jump])
      ([start ++ " '#', 0".toList] ++ ",".toList :: [jump]) := .insert _ _ rfl
  have hComma : LayoutEdit ([] ++ (start ++ ' ' :: "'#', 0".toList) :: [jump])
      ([] ++ (start ++ ',' :: "'#', 0".toList) :: [jump]) :=
    .edit _ _ (.replace (by decide) rfl rfl)
  have hComment : LayoutEdit ([] ++ (start ++ ",'#', 0".toList ++ []) :: [jump])
      ([] ++ (start ++ ",'#', 0".toList ++ '#' :: " a hash".toList ++ []) :: [jump]) :=
    .edit _ _ (.comment _ (by decide) (.inl rfl))
  have hEdits : Relation.EqvGen LaidOut "top: SET_L 0 '#', 0\n,\nJUMP top"
      "top: SET_L 0,'#', 0# a hash\nJUMP top" :=
    .trans _ "top: SET_L 0 '#', 0\nJUMP top" _ (.symm _ _ (.rel _ _ hBlank))
      (.trans _ "top: SET_L 0,'#', 0\nJUMP top" _ (.rel _ _ hComma) (.rel _ _ hComment))
  have hAssemble : assemble "top: SET_L 0 '#', 0\n,\nJUMP top"
      = .ok ⟨{}, #[], #[⟨.make .set 0, 0, 35, 0⟩, ⟨.make .jump 0, 0, 0, 0⟩, .sentinel]⟩ := by
    cbv
  have hSame := layout_does_not_matter _ _ hEdits
  rw [hAssemble] at hSame
  exact ⟨hEdits, _, hAssemble, rfl, hSame⟩

end Assembly

end RegisterMachine

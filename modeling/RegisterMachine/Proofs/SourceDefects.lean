-- The first defect of a source. The assembler reports the first line that is wrong in the first
-- pass; if none is, the first line that is wrong in the second pass; and if none is, it has a
-- stream whose only possible faults are a target outside of it and too many constants.
import RegisterMachine.Assembly.Diagnostic
import RegisterMachine.Proofs.LineDefects

namespace RegisterMachine.Assembly

/-! ## Which failure comes first -/

/-- The first pass fails at the line of this index. -/
def FailsInDraft (lines : List (List Char)) (i column : Nat) (defect : SourceDefect) : Prop :=
  ∃ line, lines[i]? = some line ∧ DraftDefect (lines.take i) line column defect

/-- The second pass fails at the line of this index, when the labels are these. -/
def FailsWith (labels : Labels) (lines : List (List Char)) (i column : Nat)
    (defect : SourceDefect) : Prop :=
  ∃ line, lines[i]? = some line ∧ CodeDefect labels line column defect

/-- The second pass fails at the line of this index. -/
def FailsInCode (lines : List (List Char)) (i column : Nat) (defect : SourceDefect) : Prop :=
  ∃ labels, Defines lines labels ∧ FailsWith labels lines i column defect

/-- A failure at the line of this index, and none at a line before it. -/
def FailsFirst (fails : Nat → Nat → SourceDefect → Prop) (i column : Nat)
    (defect : SourceDefect) : Prop :=
  fails i column defect ∧ ∀ j < i, ∀ column defect, ¬ fails j column defect

/-- The failure that is reported: the first one of the first pass or, if that pass does not fail,
the first one of the second pass. -/
def ComesFirst (lines : List (List Char)) (i column : Nat) (defect : SourceDefect) : Prop :=
  FailsFirst (FailsInDraft lines) i column defect ∨
    (∀ j column defect, ¬ FailsInDraft lines j column defect) ∧
      FailsFirst (FailsInCode lines) i column defect

section First

variable {fails : Nat → Nat → SourceDefect → Prop} {i j column column' : Nat}
  {defect defect' : SourceDefect}

theorem FailsFirst.unique (h : FailsFirst fails i column defect)
    (h' : FailsFirst fails j column' defect') : i = j := by
  rcases Nat.lt_trichotomy i j with hLt | hEq | hLt
  · exact absurd h.1 (h'.2 i hLt _ _)
  · exact hEq
  · exact absurd h'.1 (h.2 j hLt _ _)

/-- Where a line fails behind lines that do not, the first failure is there. -/
theorem failsFirst_here (hClean : ∀ j < i, ∀ column defect, ¬ fails j column defect)
    (hHere : ∃ column defect, fails i column defect) {error : Error} :
    (∃ j column defect, FailsFirst fails j column defect ∧ error = .source (j + 1) column defect) ↔
      ∃ column defect, fails i column defect ∧ error = .source (i + 1) column defect := by
  constructor
  · rintro ⟨j, column, defect, hFirst, rfl⟩
    obtain ⟨_, _, hFails⟩ := hHere
    obtain rfl : j = i := hFirst.unique ⟨hFails, hClean⟩
    exact ⟨column, defect, hFirst.1, rfl⟩
  · rintro ⟨column, defect, hFails, rfl⟩
    exact ⟨i, column, defect, ⟨hFails, hClean⟩, rfl⟩

theorem exists_failsFirst (h : fails i column defect) :
    ∃ i column defect, FailsFirst fails i column defect := by
  induction i using Nat.strong_induction_on generalizing column defect with
  | _ i ih =>
    by_cases hEarlier : ∃ j < i, ∃ column defect, fails j column defect
    · obtain ⟨j, hLt, _, _, hFails⟩ := hEarlier
      exact ih j hLt hFails
    · refine ⟨i, column, defect, h, fun j hLt column defect hFails => ?_⟩
      exact hEarlier ⟨j, hLt, column, defect, hFails⟩

end First

/-! ## The first pass -/

section FirstPass

variable {above : List (List Char)} {draft final : Draft}

theorem FailsInDraft.lt_length {lines : List (List Char)} {i column : Nat} {defect : SourceDefect}
    (h : FailsInDraft lines i column defect) : i < lines.length := by
  obtain ⟨line, hLine, -⟩ := h
  exact (List.getElem?_eq_some_iff.1 hLine).1

theorem failsInDraft_length {line : List Char} (below : List (List Char)) {column : Nat}
    {defect : SourceDefect} :
    FailsInDraft (above ++ line :: below) above.length column defect ↔
      DraftDefect above line column defect := by
  simp [FailsInDraft]

/-- The first pass over the lines below those that have been taken in. -/
theorem Knows.addLines_eq_error (h : Knows above draft) (lines : List (List Char))
    (hClean : ∀ j < above.length, ∀ column defect,
      ¬ FailsInDraft (above ++ lines) j column defect) {error : Error} :
    draft.addLines (above.length + 1) lines = .error error ↔
      ∃ i column defect, FailsFirst (FailsInDraft (above ++ lines)) i column defect ∧
        error = .source (i + 1) column defect := by
  induction lines generalizing above draft with
  | nil =>
    constructor
    · exact nofun
    · rintro ⟨i, column, defect, ⟨hFails, -⟩, -⟩
      have hLt := hFails.lt_length
      rw [List.append_nil] at hLt
      exact absurd hFails (hClean i hLt column defect)
  | cons line below ih =>
    -- The first line is the one at `above.length`: it fails there, or nothing has failed so far.
    have hLine := h.addLine_eq_error (above.length + 1) line
    simp only [← failsInDraft_length below] at hLine
    rw [Draft.addLines]
    rcases hAdd : draft.addLine (above.length + 1) line with other | next
    · obtain ⟨column, defect, hFails, -⟩ := (hLine other).1 hAdd
      rw [failsFirst_here hClean ⟨column, defect, hFails⟩, ← hLine, hAdd]
    · have hHere : ∀ column defect,
          ¬ FailsInDraft (above ++ line :: below) above.length column defect := by
        intro column defect hFails
        cases hAdd.symm.trans ((hLine _).2 ⟨column, defect, hFails, rfl⟩)
      have hMore := ih (h.takes (Draft.takes_of_addLine hAdd))
      rw [← List.append_cons, List.length_append] at hMore
      exact hMore (Nat.forall_lt_succ_right.2 ⟨hClean, hHere⟩)

theorem Knows.addLines (h : Knows above draft) {number : Nat} {lines : List (List Char)}
    (hLines : draft.addLines number lines = .ok final) : Knows (above ++ lines) final := by
  induction lines generalizing above draft number with
  | nil =>
    cases hLines
    rwa [List.append_nil]
  | cons line below ih =>
    obtain ⟨next, hTakes, hRest⟩ := Draft.addLines_cons hLines
    rw [List.append_cons]
    exact ih (h.takes hTakes) hRest

end FirstPass

/-! ## The second pass -/

/-- The instruction lines of lines that are numbered from `number` on. -/
def instructionLines (number : Nat) : List (List Char) → List (Nat × List Token)
  | [] => []
  | line :: below => instructionLine number line ++ instructionLines (number + 1) below

theorem instructionLines_of_addLines {draft after : Draft} {number : Nat}
    {lines : List (List Char)} (h : draft.addLines number lines = .ok after) :
    after.instructionLines.toList
      = draft.instructionLines.toList ++ instructionLines number lines := by
  induction lines generalizing draft number with
  | nil =>
    cases h
    simp [instructionLines]
  | cons line below ih =>
    rw [Draft.addLines] at h
    split at h
    · rename_i next hNext
      rw [ih h, instructionLines_of_addLine hNext, instructionLines, List.append_assoc]
    · cases h

section SecondPass

variable {labels : Labels}

theorem FailsWith.lt_length {lines : List (List Char)} {i column : Nat} {defect : SourceDefect}
    (h : FailsWith labels lines i column defect) : i < lines.length := by
  obtain ⟨line, hLine, -⟩ := h
  exact (List.getElem?_eq_some_iff.1 hLine).1

theorem failsWith_length (above : List (List Char)) (line : List Char) (below : List (List Char))
    (column : Nat) (defect : SourceDefect) :
    FailsWith labels (above ++ line :: below) above.length column defect ↔
      CodeDefect labels line column defect := by
  simp [FailsWith]

/-- The second pass over the instruction lines below those that have been read. -/
theorem instructions_eq_error (above lines : List (List Char)) (done : Array Instruction)
    (hClean : ∀ j < above.length, ∀ column defect,
      ¬ FailsWith labels (above ++ lines) j column defect) {error : Error} :
    instructions labels done (instructionLines (above.length + 1) lines) = .error error ↔
      ∃ i column defect, FailsFirst (FailsWith labels (above ++ lines)) i column defect ∧
        error = .source (i + 1) column defect := by
  induction lines generalizing above done with
  | nil =>
    constructor
    · exact nofun
    · rintro ⟨i, column, defect, ⟨hFails, -⟩, -⟩
      have hLt := hFails.lt_length
      rw [List.append_nil] at hLt
      exact absurd hFails (hClean i hLt column defect)
  | cons line below ih =>
    have hMore := fun done => ih (above ++ [line]) done
    rw [← List.append_cons, List.length_append] at hMore
    rw [instructionLines]
    -- A line without an instruction has no defect here; any other has those of its instruction.
    rcases instructionLine_cases labels (above.length + 1) line with
      ⟨hLine, hNone⟩ | ⟨used, hSome, hLine, hDefects⟩
    · have hHere : ∀ column defect,
          ¬ FailsWith labels (above ++ line :: below) above.length column defect := by
        intro column defect
        rw [failsWith_length]
        exact hNone column defect
      rw [hLine, List.nil_append]
      exact hMore done (Nat.forall_lt_succ_right.2 ⟨hClean, hHere⟩)
    · simp only [← failsWith_length above line below] at hDefects
      have hUsed := instruction_eq_error labels (above.length + 1) hSome
      simp only [← hDefects] at hUsed
      rw [hLine, List.singleton_append, instructions]
      rcases hRead : instruction labels (above.length + 1) used with other | ins
      · obtain ⟨column, defect, hFails, -⟩ := (hUsed other).1 hRead
        rw [failsFirst_here hClean ⟨column, defect, hFails⟩, ← hUsed, hRead]
        simp only [Except.error.injEq]
      · have hHere : ∀ column defect,
            ¬ FailsWith labels (above ++ line :: below) above.length column defect := by
          intro column defect hFails
          cases hRead.symm.trans ((hUsed _).2 ⟨column, defect, hFails, rfl⟩)
        exact hMore (done.push ins) (Nat.forall_lt_succ_right.2 ⟨hClean, hHere⟩)

/-- Lines define their labels once and for all. -/
theorem Defines.failsInCode_iff {lines : List (List Char)} (h : Defines lines labels)
    {i column : Nat} {defect : SourceDefect} :
    FailsInCode lines i column defect ↔ FailsWith labels lines i column defect := by
  constructor
  · rintro ⟨other, hOther, line, hLine, all, hTokens, hDefect⟩
    exact ⟨line, hLine, all, hTokens, hDefect.congr (hOther.getElem?_eq h)⟩
  · intro hFails
    exact ⟨labels, h, hFails⟩

end SecondPass

/-! ## The stream -/

section Stream

variable {code : Array Instruction} {error : Error}

theorem endsWithSentinel_terminate (code : Array Instruction) :
    EndsWithSentinel (terminate code) := by
  unfold terminate
  split
  · rename_i hLast
    exact any_isSentinel.1 hLast
  · exact ⟨.sentinel, Array.back?_push, rfl, rfl⟩

theorem legal_terminate (h : ∀ ins ∈ code, ∃ op, ins.opcode.decode? = some op) :
    ∀ ins ∈ terminate code, ∃ op, ins.opcode.decode? = some op := by
  unfold terminate
  split
  · exact h
  · intro ins hMem
    rcases Array.mem_push.1 hMem with hMem | rfl
    · exact h ins hMem
    · exact ⟨.abort, by decide⟩

/-- Of a legal instruction only the target can be wrong. -/
theorem target_of_legal {ins : Instruction} {op : Operation} {length index : Nat}
    (hDecode : ins.opcode.decode? = some op) (h : ins.Defective length index error) :
    ∃ target, error = .invalidJumpTarget target index := by
  obtain ⟨hCode, hMask⟩ := Opcode.decode?_eq_some.1 hDecode
  cases h with
  | opcode hUnknown => exact absurd hCode (hUnknown op)
  | addressing hKnown hMasked =>
    have hBase := Opcode.base?_eq_some.2 hKnown
    rw [Opcode.base?_eq_some.2 hCode] at hBase
    cases hBase
    exact absurd hMask hMasked
  | target _ _ _ _ => exact ⟨_, rfl⟩

/-- Of legal code that the assembler ends with the sentinel, only a target can be wrong. -/
theorem target_of_validate (hLegal : ∀ ins ∈ code, ∃ op, ins.opcode.decode? = some op)
    (h : validate (terminate code) = .error error) :
    ∃ target index, error = .invalidJumpTarget target index := by
  rw [validate_of_ends (endsWithSentinel_terminate code)] at h
  split at h
  · rename_i found hFound
    cases h
    obtain ⟨index, ins, hIns, hDefect, -⟩ := findSome?_defect?_eq_some.1 hFound
    obtain ⟨op, hDecode⟩ := legal_terminate hLegal ins (Array.mem_of_getElem? hIns)
    obtain ⟨target, rfl⟩ := target_of_legal hDecode hDefect
    exact ⟨target, index, rfl⟩
  · cases h

theorem legal_of_encodesAll {labels : Labels} {lines : List (List (List Char))}
    {code : List Instruction} (h : EncodesAll labels lines code) :
    ∀ ins ∈ code, ∃ op, ins.opcode.decode? = some op := by
  unfold EncodesAll at h
  induction h with
  | nil => exact nofun
  | cons hFirst _ ih =>
    obtain ⟨op, hDecode, -⟩ := hFirst.operands
    rw [List.forall_mem_cons]
    exact ⟨⟨op, hDecode⟩, ih⟩

theorem error_of_make {header : Header} {constants : Array Constant}
    (hLegal : ∀ ins ∈ code, ∃ op, ins.opcode.decode? = some op)
    (h : Program.make header constants (terminate code) = .error error) :
    (∃ target index, error = .invalidJumpTarget target index) ∨
      error = .invalidConfig .constantsPastGlobals := by
  unfold Program.make at h
  rcases hValid : validate (terminate code) with refused | ⟨⟩
  · rw [hValid] at h
    cases h
    exact .inl (target_of_validate hLegal hValid)
  · rw [hValid] at h
    by_cases hFit : header.globalCount.toNat < constants.size
    · simp [bind, Except.bind, throw, throwThe, MonadExceptOf.throw, hFit] at h
      exact .inr h.symm
    · simp [bind, Except.bind, pure, Except.pure, hFit] at h

end Stream

/-! ## The whole source -/

section Source

variable {source : String}

/-- A source whose lines pass the first pass, and the two passes over it. -/
theorem assemble_of_addLines {draft : Draft} (h : Draft.addLines {} 1 (lines source) = .ok draft) :
    assemble source = instructions draft.labels #[] draft.instructionLines.toList >>= fun code =>
      Program.make draft.header draft.constants (terminate code) := by
  rw [assemble, h]
  rfl

theorem addLines_eq_error {error : Error} :
    Draft.addLines {} 1 (lines source) = .error error ↔
      ∃ i column defect, FailsFirst (FailsInDraft (lines source)) i column defect ∧
        error = .source (i + 1) column defect :=
  knows_nil.addLines_eq_error (lines source) nofun

/-- The second pass over a source that passes the first one. -/
theorem instructions_eq_error_of_addLines {draft : Draft}
    (h : Draft.addLines {} 1 (lines source) = .ok draft) (error : Error) :
    instructions draft.labels #[] draft.instructionLines.toList = .error error ↔
      ∃ i column defect, FailsFirst (FailsInCode (lines source)) i column defect ∧
        error = .source (i + 1) column defect := by
  have hKnows : Knows (lines source) draft := knows_nil.addLines h
  have hLines : draft.instructionLines.toList = instructionLines 1 (lines source) :=
    instructionLines_of_addLines h
  have hFails : FailsInCode (lines source) = FailsWith draft.labels (lines source) := by
    funext i column defect
    exact propext hKnows.labels.failsInCode_iff
  rw [hLines, hFails]
  exact instructions_eq_error [] (lines source) #[] nofun

/-- Which error a source has. -/
theorem assemble_eq_error {error : Error} (h : assemble source = .error error) :
    (∃ i column defect, ComesFirst (lines source) i column defect ∧
      error = .source (i + 1) column defect) ∨
    (∀ j column defect, ¬ FailsInDraft (lines source) j column defect ∧
        ¬ FailsInCode (lines source) j column defect) ∧
      ((∃ target index, error = .invalidJumpTarget target index) ∨
        error = .invalidConfig .constantsPastGlobals) := by
  rcases hDraft : Draft.addLines {} 1 (lines source) with other | draft
  · rw [assemble, hDraft] at h
    cases h
    obtain ⟨i, column, defect, hFirst, rfl⟩ := addLines_eq_error.1 hDraft
    exact .inl ⟨i, column, defect, .inl hFirst, rfl⟩
  · have hNoDraft : ∀ j column defect, ¬ FailsInDraft (lines source) j column defect := by
      intro j column defect hFails
      obtain ⟨i, column, defect, hFirst⟩ := exists_failsFirst hFails
      cases hDraft.symm.trans (addLines_eq_error.2 ⟨i, column, defect, hFirst, rfl⟩)
    have hSecond := instructions_eq_error_of_addLines hDraft
    rw [assemble_of_addLines hDraft] at h
    rcases hCode : instructions draft.labels #[] draft.instructionLines.toList with other | code
    · rw [hCode] at h
      cases h
      obtain ⟨i, column, defect, hFirst, rfl⟩ := (hSecond _).1 hCode
      exact .inl ⟨i, column, defect, .inr ⟨hNoDraft, hFirst⟩, rfl⟩
    · rw [hCode] at h
      refine .inr ⟨fun j column defect => ⟨hNoDraft j column defect, fun hFails => ?_⟩, ?_⟩
      · obtain ⟨i, column, defect, hFirst⟩ := exists_failsFirst hFails
        cases hCode.symm.trans ((hSecond _).2 ⟨i, column, defect, hFirst, rfl⟩)
      · obtain ⟨read, rfl, hEncodes⟩ := encodes_of_instructions hCode
        refine error_of_make (fun ins hMem => ?_) h
        refine legal_of_encodesAll hEncodes ins ?_
        simpa using hMem

/-- The failure that comes first is the error of the source. -/
theorem assemble_of_comesFirst {i column : Nat} {defect : SourceDefect}
    (h : ComesFirst (lines source) i column defect) :
    assemble source = .error (.source (i + 1) column defect) := by
  rcases h with hFirst | ⟨hNoDraft, hFirst⟩
  · rw [assemble, addLines_eq_error.2 ⟨i, column, defect, hFirst, rfl⟩]
    rfl
  · rcases hDraft : Draft.addLines {} 1 (lines source) with other | draft
    · obtain ⟨j, column, defect, hOther, -⟩ := addLines_eq_error.1 hDraft
      exact absurd hOther.1 (hNoDraft j column defect)
    · rw [assemble_of_addLines hDraft,
        (instructions_eq_error_of_addLines hDraft _).2 ⟨i, column, defect, hFirst, rfl⟩]
      rfl

theorem ComesFirst.startsToken {lines : List (List Char)} {i column : Nat} {defect : SourceDefect}
    (h : ComesFirst lines i column defect) :
    ∃ line, lines[i]? = some line ∧ StartsToken line column := by
  rcases h with ⟨⟨line, hLine, hDefect⟩, -⟩ | ⟨-, ⟨_, _, line, hLine, hDefect⟩, -⟩
  · exact ⟨line, hLine, hDefect.startsToken⟩
  · exact ⟨line, hLine, hDefect.startsToken⟩

end Source

/-! ## The law -/

/-- An error of a source that has a place is the first failure of the first pass or, if that pass
does not fail, the first failure of the second pass. Its place is a line of the source and a column
at which a token of the line starts, so that the diagnostic shows the line. Any other error is a
target outside of the stream or too many constants, and then neither pass fails at any line. -/
theorem assembly_reports_the_first_failure_of_the_first_failing_pass (source : String) :
    (∀ number column defect, assemble source = .error (.source number column defect) ↔
      ∃ i, number = i + 1 ∧ ComesFirst (lines source) i column defect) ∧
    (∀ number column defect, assemble source = .error (.source number column defect) →
      1 ≤ number ∧ number ≤ (lines source).length ∧
        ∃ line, (lines source)[number - 1]? = some line ∧ StartsToken line column ∧
          ∀ file, diagnostic file source (.source number column defect)
            = s!"error: {defect.message}\n --> {file}:{number}:{column}\n"
              ++ excerpt number column line) ∧
    (∀ error, assemble source = .error error →
      (∃ number column defect, error = .source number column defect) ∨
      (∀ i column defect, ¬ FailsInDraft (lines source) i column defect ∧
          ¬ FailsInCode (lines source) i column defect) ∧
        ((∃ target index, error = .invalidJumpTarget target index) ∨
          error = .invalidConfig .constantsPastGlobals)) := by
  have hLocated : ∀ number column defect,
      assemble source = .error (.source number column defect) →
        ∃ i, number = i + 1 ∧ ComesFirst (lines source) i column defect := by
    intro number column defect hError
    rcases assemble_eq_error hError with ⟨i, _, _, hFirst, hSame⟩ | ⟨-, hNowhere⟩
    · cases hSame
      exact ⟨i, rfl, hFirst⟩
    · rcases hNowhere with ⟨_, _, hOther⟩ | hOther <;> cases hOther
  refine ⟨fun number column defect => ⟨hLocated number column defect, ?_⟩, ?_, ?_⟩
  · rintro ⟨i, rfl, hFirst⟩
    exact assemble_of_comesFirst hFirst
  · intro number column defect hError
    obtain ⟨i, rfl, hFirst⟩ := hLocated number column defect hError
    obtain ⟨line, hLine, hStarts⟩ := hFirst.startsToken
    refine ⟨Nat.succ_pos i, (List.getElem?_eq_some_iff.1 hLine).1, line, hLine, hStarts, ?_⟩
    intro file
    simp only [diagnostic, Nat.add_sub_cancel, hLine]
  · intro error hError
    rcases assemble_eq_error hError with ⟨i, column, defect, -, hSame⟩ | hNowhere
    · exact .inl ⟨i + 1, column, defect, hSame⟩
    · exact .inr hNowhere

/-- The undefined label stands further up, but the open quote fails the first pass. Its column
counts the bytes of the label in front. -/
theorem an_open_quote_is_reported_before_an_undefined_label :
    assemble "JUMP nowhere\né: JUMP 'b" = .error (.source 2 10 .unterminatedChar) ∧
      ComesFirst (lines "JUMP nowhere\né: JUMP 'b") 1 10 .unterminatedChar ∧
      ∃ line, (lines "JUMP nowhere\né: JUMP 'b")[1]? = some line ∧ StartsToken line 10 := by
  have hError : assemble "JUMP nowhere\né: JUMP 'b" = .error (.source 2 10 .unterminatedChar) := by
    cbv
  obtain ⟨hFirst, hPlace, -⟩ :=
    assembly_reports_the_first_failure_of_the_first_failing_pass "JUMP nowhere\né: JUMP 'b"
  obtain ⟨i, hNumber, hComes⟩ := (hFirst 2 10 .unterminatedChar).1 hError
  obtain ⟨-, -, line, hLine, hStarts, -⟩ := hPlace 2 10 .unterminatedChar hError
  obtain rfl : i = 1 := by omega
  exact ⟨hError, hComes, line, hLine, hStarts⟩

end RegisterMachine.Assembly


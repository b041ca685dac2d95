-- Streams that pass validation. They end with the sentinel, every opcode of them is legal,
-- and every target that an instruction names is an instruction of the stream. Every way
-- to a program goes through this check.
import RegisterMachine.Assembly.Source
import RegisterMachine.Program.Image
import RegisterMachine.Proofs.SlotStates
import RegisterMachine.Proofs.StreamDefects

namespace RegisterMachine

/-- What validation makes sure of. -/
structure ValidStream (code : Array Instruction) : Prop where
  ends : ∃ last, code.back? = some last ∧ last.isSentinel = true
  legal : ∀ (i : Nat) (ins : Instruction), code[i]? = some ins →
    ∃ op, ins.opcode.decode? = some op
  targets : ∀ (i : Nat) (ins : Instruction) (op : Operation) (target : UInt16),
    code[i]? = some ins → ins.opcode.decode? = some op → ins.target? op = some target →
      target.toNat < code.size

theorem Instruction.decode?_of_isSentinel {ins : Instruction} (h : ins.isSentinel = true) :
    ins.opcode.decode? = some .abort ∧ ins.a = 0 := by
  unfold isSentinel at h
  simp only [Bool.and_eq_true, decide_eq_true_eq, beq_iff_eq] at h
  refine ⟨?_, h.2⟩
  rw [h.1]
  decide

theorem validStream_of_validate {code : Array Instruction} (h : validate code = .ok ()) :
    ValidStream code := by
  obtain ⟨hEnds, hValid⟩ := validate_eq_ok.1 h
  refine ⟨?_, ?_, ?_⟩
  · exact (Option.any_eq_true _ _).1 (any_isSentinel.2 hEnds)
  · intro i ins hFetch
    obtain ⟨op, hCode, hMask, -⟩ := hValid i ins hFetch
    exact ⟨op, Opcode.decode?_eq_some.2 ⟨hCode, hMask⟩⟩
  · intro i ins op target hFetch hDecode hTarget
    obtain ⟨known, hCode, hMask, hTargets⟩ := hValid i ins hFetch
    have hDecoded := Opcode.decode?_eq_some.2 ⟨hCode, hMask⟩
    rw [hDecode] at hDecoded
    cases hDecoded
    exact hTargets target (Instruction.target?_eq_some.1 hTarget)

/-! ## Programs -/

/-- A program that was put together, read from an image, or assembled. -/
inductive Program.Accepted : Program → Prop
  | make {header : Header} {constants : Array Constant} {instructions : Array Instruction}
      {program : Program} (h : Program.make header constants instructions = .ok program) :
      Accepted program
  | ofBytes {input : List UInt8} {program : Program} (h : Program.ofBytes input = .ok program) :
      Accepted program
  | assemble {source : String} {program : Program} (h : Assembly.assemble source = .ok program) :
      Accepted program

/-- What follows a check that has passed. -/
theorem Program.check_eq_ok {α : Type} {defective : Prop} [Decidable defective] {error : Error}
    {next : PUnit → Except Error α} {result : α}
    (h : (if defective then throw error >>= next else next ()) = .ok result) :
    next () = .ok result := by
  split at h
  · cases h
  · exact h

theorem Program.make_eq_ok {header : Header} {constants : Array Constant}
    {instructions : Array Instruction} {program : Program} :
    make header constants instructions = .ok program ↔
      (validate instructions = .ok () ∧ constants.size ≤ header.globalCount.toNat) ∧
        program = ⟨header, constants, instructions⟩ := by
  unfold make
  rcases validate instructions with error | ⟨⟩
  · simp [bind, Except.bind]
  · by_cases hFit : header.globalCount.toNat < constants.size
    · simp [bind, Except.bind, hFit, throw, throwThe, MonadExceptOf.throw, Nat.not_le.2 hFit]
    · simp [bind, Except.bind, hFit, pure, Except.pure, Nat.not_lt.1 hFit, eq_comm]

theorem Program.validStream_of_make {header : Header} {constants : Array Constant}
    {instructions : Array Instruction} {program : Program}
    (h : make header constants instructions = .ok program) :
    ValidStream program.instructions := by
  obtain ⟨_, hValid, hFits⟩ := Arena.bind_eq_ok.1 h
  cases check_eq_ok hFits
  exact validStream_of_validate hValid

theorem Program.validStream_of_ofBytes {input : List UInt8} {program : Program}
    (h : ofBytes input = .ok program) : ValidStream program.instructions := by
  unfold ofBytes at h
  obtain ⟨_, _, hMagic⟩ := Arena.bind_eq_ok.1 (check_eq_ok h)
  obtain ⟨_, _, hVersion⟩ := Arena.bind_eq_ok.1 (check_eq_ok hMagic)
  obtain ⟨_, _, hBody⟩ := Arena.bind_eq_ok.1 (check_eq_ok hVersion)
  exact validStream_of_make (check_eq_ok hBody)

theorem Program.Accepted.validStream {program : Program} (h : program.Accepted) :
    ValidStream program.instructions := by
  cases h with
  | make hMake => exact validStream_of_make hMake
  | ofBytes hBytes => exact validStream_of_ofBytes hBytes
  | assemble hAssemble =>
    obtain ⟨_, _, hCode⟩ := Arena.bind_eq_ok.1 hAssemble
    obtain ⟨_, _, hMake⟩ := Arena.bind_eq_ok.1 hCode
    exact validStream_of_make hMake

end RegisterMachine

-- The defects of an instruction stream. What is wrong with an instruction is said here by its
-- bits and by its target alone; validation accepts the streams without a defect, and of the
-- others it reports a missing sentinel first and then the first instruction that has a defect.
import RegisterMachine.Proofs.Opcodes
import RegisterMachine.Program.Validation

namespace RegisterMachine

/-! ## What a stream must be like -/

/-- The last instruction is an `ABORT` that masks nothing and whose code is 0. -/
def EndsWithSentinel (code : Array Instruction) : Prop :=
  ∃ last, code.back? = some last ∧ last.opcode = .make .abort 0 ∧ last.a = 0

namespace Instruction

/-- The operand that is the index of another instruction. -/
inductive Names (ins : Instruction) : Operation → UInt16 → Prop
  | jump : Names ins .jump ins.a
  | jumpCheck : Names ins .jumpCheck ins.b
  | label : Names ins .label ins.b

/-- An instruction that a stream of `length` instructions may hold. -/
def Valid (length : Nat) (ins : Instruction) : Prop :=
  ∃ op, ins.opcode.HasCode op ∧ ins.opcode.MasksOnlyRegisters op ∧
    ∀ target, ins.Names op target → target.toNat < length

/-- The error for the instruction at `index` of a stream of `length` instructions. A code that
no operation has comes before a mask, and a mask before a target. -/
inductive Defective (length index : Nat) (ins : Instruction) : Error → Prop
  | opcode (unknown : ∀ op, ¬ ins.opcode.HasCode op) :
      Defective length index ins (.invalidOpcode ins.opcode index)
  | addressing {op : Operation} (known : ins.opcode.HasCode op)
      (masked : ¬ ins.opcode.MasksOnlyRegisters op) :
      Defective length index ins (.invalidAddressing op index)
  | target {op : Operation} {target : UInt16} (known : ins.opcode.HasCode op)
      (masked : ins.opcode.MasksOnlyRegisters op) (named : ins.Names op target)
      (outside : length ≤ target.toNat) :
      Defective length index ins (.invalidJumpTarget target index)

/-! ## One instruction -/

variable {ins : Instruction} {length index : Nat}

theorem target?_eq_some {op : Operation} {target : UInt16} :
    ins.target? op = some target ↔ ins.Names op target := by
  constructor
  · intro h
    cases op with
    | jump => cases h; exact .jump
    | jumpCheck => cases h; exact .jumpCheck
    | label => cases h; exact .label
    | _ => cases h
  · intro h
    cases h <;> rfl

theorem defect?_of_unknown (h : ∀ op, ¬ ins.opcode.HasCode op) :
    ins.defect? length index = some (.invalidOpcode ins.opcode index) := by
  have hBase : ins.opcode.base? = none := by
    apply Option.eq_none_iff_forall_not_mem.2
    intro op hOp
    exact h op (Opcode.base?_eq_some.1 hOp)
  unfold defect?
  rw [hBase]

theorem defect?_of_masked {op : Operation} (hCode : ins.opcode.HasCode op)
    (h : ¬ ins.opcode.MasksOnlyRegisters op) :
    ins.defect? length index = some (.invalidAddressing op index) := by
  have hBase := Opcode.base?_eq_some.2 hCode
  have hDecode : ins.opcode.decode? = none := by
    apply Option.eq_none_iff_forall_not_mem.2
    intro other hOther
    have hSame := Opcode.base?_of_decode? hOther
    rw [hBase] at hSame
    cases hSame
    exact h (Opcode.decode?_eq_some.1 hOther).2
  unfold defect?
  simp [hBase, hDecode]

/-- Of a legal instruction only the target is looked at. -/
theorem defect?_of_legal {op : Operation} (hCode : ins.opcode.HasCode op)
    (hMask : ins.opcode.MasksOnlyRegisters op) :
    ins.defect? length index = (ins.target? op).bind fun target =>
      if length ≤ target.toNat then some (.invalidJumpTarget target index) else none := by
  have hBase := Opcode.base?_eq_some.2 hCode
  have hDecode := Opcode.decode?_eq_some.2 ⟨hCode, hMask⟩
  unfold defect?
  simp only [hBase, hDecode, Option.isNone_some, Bool.false_eq_true, if_false]
  cases ins.target? op <;> rfl

theorem defect?_eq_some {error : Error} :
    ins.defect? length index = some error ↔ ins.Defective length index error := by
  constructor
  · intro h
    by_cases hKnown : ∃ op, ins.opcode.HasCode op
    · obtain ⟨op, hCode⟩ := hKnown
      by_cases hMask : ins.opcode.MasksOnlyRegisters op
      · rw [defect?_of_legal hCode hMask] at h
        obtain ⟨target, hTarget, hFar⟩ := Option.bind_eq_some_iff.1 h
        split at hFar
        · rename_i hOutside
          cases hFar
          exact .target hCode hMask (target?_eq_some.1 hTarget) hOutside
        · cases hFar
      · rw [defect?_of_masked hCode hMask] at h
        cases h
        exact .addressing hCode hMask
    · have hUnknown : ∀ op, ¬ ins.opcode.HasCode op := not_exists.1 hKnown
      rw [defect?_of_unknown hUnknown] at h
      cases h
      exact .opcode hUnknown
  · intro h
    cases h with
    | opcode hUnknown => exact defect?_of_unknown hUnknown
    | addressing hCode hMask => exact defect?_of_masked hCode hMask
    | target hCode hMask hNamed hOutside =>
      rw [defect?_of_legal hCode hMask, target?_eq_some.2 hNamed]
      exact if_pos hOutside

theorem defect?_eq_none : ins.defect? length index = none ↔ ins.Valid length := by
  constructor
  · intro h
    have hNot : ∀ error, ¬ ins.Defective length index error := by
      intro error hDefect
      rw [defect?_eq_some.2 hDefect] at h
      cases h
    by_cases hKnown : ∃ op, ins.opcode.HasCode op
    · obtain ⟨op, hCode⟩ := hKnown
      have hMask : ins.opcode.MasksOnlyRegisters op :=
        Classical.byContradiction fun hMask => hNot _ (.addressing hCode hMask)
      refine ⟨op, hCode, hMask, ?_⟩
      intro target hNamed
      exact Nat.lt_of_not_le fun hOutside => hNot _ (.target hCode hMask hNamed hOutside)
    · exact (hNot _ (.opcode (not_exists.1 hKnown))).elim
  · rintro ⟨op, hCode, hMask, hTargets⟩
    rw [defect?_of_legal hCode hMask]
    cases hTarget : ins.target? op with
    | none => rfl
    | some target => exact if_neg (Nat.not_le.2 (hTargets target (target?_eq_some.1 hTarget)))

end Instruction

/-! ## The whole stream -/

theorem any_isSentinel {code : Array Instruction} :
    code.back?.any Instruction.isSentinel = true ↔ EndsWithSentinel code := by
  have hSentinel : ∀ last : Instruction,
      last.isSentinel = true ↔ last.opcode = .make .abort 0 ∧ last.a = 0 := by
    intro last
    rw [Instruction.isSentinel, Bool.and_eq_true, decide_eq_true_eq, beq_iff_eq]
    rfl
  simp [Option.any_eq_true, EndsWithSentinel, hSentinel]

/-- What is found in a list is found at the first place where something is found. -/
theorem findSome?_eq_some_at {α β : Type} {find : α → Option β} {items : List α} {found : β} :
    items.findSome? find = some found ↔
      ∃ (index : Nat) (item : α), items[index]? = some item ∧ find item = some found ∧
        ∀ earlier < index, ∀ other, items[earlier]? = some other → find other = none := by
  induction items with
  | nil => simp
  | cons first items ih =>
    rw [List.findSome?_cons]
    cases hFirst : find first with
    | some here =>
      constructor
      · intro h
        exact ⟨0, first, rfl, hFirst.trans h, by simp⟩
      · rintro ⟨_ | index, item, hItem, hFound, hEarlier⟩
        · cases hItem
          exact hFirst.symm.trans hFound
        · rw [hEarlier 0 (Nat.succ_pos index) first rfl] at hFirst
          cases hFirst
    | none =>
      simp only [ih]
      constructor
      · rintro ⟨index, item, hItem, hFound, hEarlier⟩
        refine ⟨index + 1, item, hItem, hFound, ?_⟩
        rintro (_ | earlier) hLt other hOther
        · cases hOther
          exact hFirst
        · exact hEarlier earlier (Nat.lt_of_succ_lt_succ hLt) other hOther
      · rintro ⟨_ | index, item, hItem, hFound, hEarlier⟩
        · cases hItem
          rw [hFirst] at hFound
          cases hFound
        · refine ⟨index, item, hItem, hFound, ?_⟩
          intro earlier hLt other hOther
          exact hEarlier (earlier + 1) (Nat.succ_lt_succ hLt) other hOther

section Stream

variable {code : Array Instruction} {error : Error}

theorem getElem?_zipIdx_toList {index place : Nat} {ins : Instruction} :
    code.toList.zipIdx[index]? = some (ins, place) ↔ code[index]? = some ins ∧ place = index := by
  rw [List.getElem?_zipIdx, Array.getElem?_toList]
  cases code[index]? <;> simp [eq_comm]

theorem findSome?_defect?_eq_some :
    (code.toList.zipIdx.findSome? fun (ins, index) => ins.defect? code.size index) = some error ↔
      ∃ (index : Nat) (ins : Instruction), code[index]? = some ins ∧
        ins.Defective code.size index error ∧
        ∀ (earlier : Nat) (other : Instruction), earlier < index → code[earlier]? = some other →
          other.Valid code.size := by
  rw [findSome?_eq_some_at]
  simp only [Prod.exists, Prod.forall, getElem?_zipIdx_toList, Instruction.defect?_eq_some,
    Instruction.defect?_eq_none]
  constructor
  · rintro ⟨_, ins, index, ⟨hIns, rfl⟩, hDefect, hEarlier⟩
    refine ⟨index, ins, hIns, hDefect, ?_⟩
    intro earlier other hLt hOther
    exact hEarlier earlier hLt other earlier ⟨hOther, rfl⟩
  · rintro ⟨index, ins, hIns, hDefect, hEarlier⟩
    refine ⟨index, ins, index, ⟨hIns, rfl⟩, hDefect, ?_⟩
    rintro _ hLt other earlier ⟨hOther, rfl⟩
    exact hEarlier earlier other hLt hOther

theorem findSome?_defect?_eq_none :
    (code.toList.zipIdx.findSome? fun (ins, index) => ins.defect? code.size index) = none ↔
      ∀ (index : Nat) (ins : Instruction), code[index]? = some ins → ins.Valid code.size := by
  rw [List.findSome?_eq_none_iff]
  simp only [Prod.forall, List.mem_zipIdx_iff_getElem?, Array.getElem?_toList,
    Instruction.defect?_eq_none]
  exact forall_comm

/-- The first defect of a stream that ends with the sentinel is its result. -/
theorem validate_of_ends (h : EndsWithSentinel code) :
    validate code =
      match code.toList.zipIdx.findSome? fun (ins, index) => ins.defect? code.size index with
      | some defect => .error defect
      | none => .ok () := if_pos (any_isSentinel.2 h)

theorem validate_of_not_ends (h : ¬ EndsWithSentinel code) :
    validate code = .error .missingSentinel := if_neg fun hEnds => h (any_isSentinel.1 hEnds)

theorem validate_eq_ok : validate code = .ok () ↔ EndsWithSentinel code ∧
    ∀ (index : Nat) (ins : Instruction), code[index]? = some ins → ins.Valid code.size := by
  by_cases hEnds : EndsWithSentinel code
  · rw [validate_of_ends hEnds, ← findSome?_defect?_eq_none]
    cases code.toList.zipIdx.findSome? fun (ins, index) => ins.defect? code.size index <;>
      simp [hEnds]
  · simp [validate_of_not_ends hEnds, hEnds]

end Stream

/-! ## The law -/

/-- A stream is accepted when it ends with the sentinel, each of its opcodes is an operation
with a mask on registers of either addressing only, and each target is an instruction of it.
Otherwise the sentinel is missing, or the error is that of the first instruction that has one.
And an opcode passes when it can be decoded, which is all that a machine asks of it. -/
theorem validation_reports_the_first_defect (code : Array Instruction) :
    (validate code = .ok () ↔ EndsWithSentinel code ∧
      ∀ (index : Nat) (ins : Instruction), code[index]? = some ins → ins.Valid code.size) ∧
    (∀ error, validate code = .error error ↔
      (¬ EndsWithSentinel code ∧ error = .missingSentinel) ∨
      (EndsWithSentinel code ∧ ∃ (index : Nat) (ins : Instruction), code[index]? = some ins ∧
        ins.Defective code.size index error ∧
        ∀ (earlier : Nat) (other : Instruction), earlier < index → code[earlier]? = some other →
          other.Valid code.size)) ∧
    ∀ (opcode : Opcode) (op : Operation), opcode.decode? = some op ↔
      opcode.HasCode op ∧ opcode.MasksOnlyRegisters op := by
  refine ⟨validate_eq_ok, fun error => ?_, fun opcode op => Opcode.decode?_eq_some⟩
  by_cases hEnds : EndsWithSentinel code
  · rw [validate_of_ends hEnds, ← findSome?_defect?_eq_some]
    cases code.toList.zipIdx.findSome? fun (ins, index) => ins.defect? code.size index <;>
      simp [hEnds]
  · simp [validate_of_not_ends hEnds, hEnds, eq_comm]

/-- The unknown opcode is reported, and not the jump out of the stream that comes after it. -/
example : validate #[⟨.make .jump 0, 1, 0, 0⟩, ⟨⟨0x1D0⟩, 0, 0, 0⟩, ⟨.make .jump 0, 9, 0, 0⟩,
    .sentinel] = .error (.invalidOpcode ⟨0x1D0⟩ 1) := by
  rfl

end RegisterMachine

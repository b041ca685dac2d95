-- An opcode is an operation and a mask. The mask alone chooses the addressing of the three
-- slots, one bit for each, and it is legal when all its bits belong to registers of the
-- operation that can be addressed either way.
import RegisterMachine.Isa.Opcode

namespace RegisterMachine

namespace Operation

theorem code_lt (op : Operation) : op.code < 58 := by
  cases op <;> decide

theorem ofCode?_eq_some {code : Nat} {op : Operation} :
    ofCode? code = some op ↔ op.code = code := by
  constructor
  · intro h
    have hAll : ∀ place : Fin 58, (ofCode? place).map Operation.code = some place.val := by
      decide
    obtain ⟨hSmall, -⟩ := Array.getElem?_eq_some_iff.1 h
    have hPlace := hAll ⟨code, hSmall⟩
    rw [h] at hPlace
    exact Option.some.inj hPlace
  · rintro rfl
    exact ofCode?_code op

theorem length_operands_le (op : Operation) : op.operands.length ≤ 3 := by
  cases op <;> decide

theorem testBit_slotBit {slot : Nat} (h : slot < 3) (bit : Nat) :
    (slotBit slot).toNat.testBit bit = decide (slot = bit) := by
  have hPower : (slotBit slot).toNat = 2 ^ slot := by
    rcases slot with _ | _ | _ | slot
    · rfl
    · rfl
    · rfl
    · omega
  rw [hPower, Nat.testBit_two_pow]

/-- The bits that can be chosen are those of the registers of either addressing. -/
theorem testBit_choosableFrom {slot bit : Nat} {operands : List OperandClass}
    (h : slot + operands.length ≤ 3) :
    (choosableFrom slot operands).toNat.testBit bit = true ↔
      ∃ place, bit = slot + place ∧ operands[place]? = some .reg := by
  induction operands generalizing slot with
  | nil => simp [choosableFrom]
  | cons operand operands ih =>
    rw [List.length_cons] at h
    have hHead : (∃ place, bit = slot + place ∧ (operand :: operands)[place]? = some .reg) ↔
        (slot = bit ∧ operand = .reg) ∨
          ∃ place, bit = slot + 1 + place ∧ operands[place]? = some .reg := by
      constructor
      · rintro ⟨_ | place, hBit, hOperand⟩
        · exact Or.inl ⟨by omega, by simpa using hOperand⟩
        · exact Or.inr ⟨place, by omega, by simpa using hOperand⟩
      · rintro (⟨rfl, rfl⟩ | ⟨place, hBit, hOperand⟩)
        · exact ⟨0, rfl, rfl⟩
        · exact ⟨place + 1, by omega, by simpa using hOperand⟩
    rw [hHead, ← ih (show slot + 1 + operands.length ≤ 3 by omega), choosableFrom]
    by_cases hReg : operand = .reg
    · simp [hReg, testBit_slotBit (show slot < 3 by omega)]
    · simp [hReg]

end Operation

namespace Opcode

/-! ## The two parts of an opcode -/

theorem toNat_low (word : UInt16) : (word &&& 7).toNat = word.toNat % 8 := by
  rw [UInt16.toNat_and]
  exact Nat.and_two_pow_sub_one_eq_mod word.toNat 3

theorem toNat_make (op : Operation) (mask : UInt16) :
    (make op mask).raw.toNat = op.code * 8 + mask.toNat % 8 := by
  have hCode := op.code_lt
  have hShift : (UInt16.ofNat op.code <<< 3).toNat = op.code <<< 3 := by
    rw [UInt16.toNat_shiftLeft, UInt16.toNat_ofNat_of_lt' (by simp [UInt16.size]; omega)]
    simp only [Nat.shiftLeft_eq, UInt16.reduceToNat, Nat.reduceMod, Nat.reducePow]
    omega
  unfold make
  rw [UInt16.toNat_or, hShift, toNat_low, ← Nat.shiftLeft_add_eq_or_of_lt (by omega),
    Nat.shiftLeft_eq]

theorem base?_make (op : Operation) (mask : UInt16) : (make op mask).base? = some op := by
  have hCode : ((make op mask).raw >>> 3).toNat = op.code := by
    rw [UInt16.toNat_shiftRight, toNat_make]
    simp only [UInt16.reduceToNat, Nat.reduceMod, Nat.shiftRight_eq_div_pow, Nat.reducePow]
    omega
  unfold base?
  rw [hCode]
  exact Operation.ofCode?_code op

theorem mask_make (op : Operation) (mask : UInt16) : (make op mask).mask = mask &&& 7 := by
  apply UInt16.toNat_inj.1
  unfold Opcode.mask
  rw [toNat_low, toNat_low, toNat_make]
  omega

theorem mask_make_mask (op : Operation) (opcode : Opcode) :
    (make op opcode.mask).mask = opcode.mask := by
  rw [mask_make]
  unfold Opcode.mask
  rw [UInt16.and_assoc]
  rfl

/-! ## What the mask decides -/

theorem decode?_of_base? {opcode : Opcode} {op : Operation} (h : opcode.base? = some op) :
    opcode.decode? = if opcode.mask &&& ~~~ op.choosableMask = 0 then some op else none := by
  unfold decode?
  rw [h]
  by_cases hMask : opcode.mask &&& ~~~ op.choosableMask = 0 <;> simp [hMask]

theorem base?_of_decode? {opcode : Opcode} {op : Operation} (h : opcode.decode? = some op) :
    opcode.base? = some op := by
  unfold decode? at h
  exact (Option.filter_eq_some_iff.1 h).1

/-- Opcodes with the same mask address every slot alike. -/
theorem mode_of_mask {x y : Opcode} (h : x.mask = y.mask) {slot : Nat} (hSlot : slot < 3) :
    x.mode slot = y.mode slot := by
  have hBit : Operation.slotBit slot = 7 &&& Operation.slotBit slot := by
    rcases slot with _ | _ | _ | slot
    · decide
    · decide
    · decide
    · omega
  have hRaw : ∀ opcode : Opcode,
      opcode.raw &&& Operation.slotBit slot = opcode.mask &&& Operation.slotBit slot := by
    intro opcode
    unfold Opcode.mask
    rw [UInt16.and_assoc, ← hBit]
  unfold mode
  rw [hRaw x, hRaw y, h]

/-! ## The bits of the mask -/

theorem and_eq_zero {x y : UInt16} : x &&& y = 0 ↔
    ∀ bit, x.toNat.testBit bit = true → y.toNat.testBit bit = false := by
  rw [← UInt16.toNat_inj, UInt16.toNat_and, UInt16.toNat_zero]
  constructor
  · intro h bit hBit
    have hBoth := congrArg (Nat.testBit · bit) h
    simpa [hBit] using hBoth
  · intro h
    apply Nat.eq_of_testBit_eq
    intro bit
    rw [Nat.testBit_and, Nat.zero_testBit]
    cases hBit : x.toNat.testBit bit with
    | false => rfl
    | true => rw [h bit hBit, Bool.and_false]

/-- A word has no bit outside of `allowed`. -/
theorem and_not_eq_zero {word allowed : UInt16} : word &&& ~~~ allowed = 0 ↔
    ∀ bit, word.toNat.testBit bit = true → allowed.toNat.testBit bit = true := by
  have hNot : ∀ bit, word.toNat.testBit bit = true →
      ((~~~ allowed).toNat.testBit bit = false ↔ allowed.toNat.testBit bit = true) := by
    intro bit hBit
    have hRange : bit < 16 :=
      BitVec.lt_of_getLsbD (show word.toBitVec.getLsbD bit = true from hBit)
    show (~~~ allowed.toBitVec).getLsbD bit = false ↔ allowed.toBitVec.getLsbD bit = true
    simp [hRange]
  rw [and_eq_zero]
  exact forall₂_congr hNot

theorem testBit_mask (opcode : Opcode) (bit : Nat) :
    opcode.mask.toNat.testBit bit = (decide (bit < 3) && opcode.raw.toNat.testBit bit) := by
  unfold mask
  rw [toNat_low]
  exact Nat.testBit_mod_two_pow _ 3 bit

theorem testBit_make {op : Operation} {mask : UInt16} {slot : Nat} (h : slot < 3) :
    (make op mask).raw.toNat.testBit slot = mask.toNat.testBit slot := by
  have hLow : ∀ word : UInt16, (word &&& 7).toNat.testBit slot = word.toNat.testBit slot := by
    intro word
    rw [toNat_low, show 8 = 2 ^ 3 from rfl, Nat.testBit_mod_two_pow]
    simp [h]
  have hMask := congrArg (fun word : UInt16 => word.toNat.testBit slot) (mask_make op mask)
  simpa only [Opcode.mask, hLow] using hMask

theorem mode_eq_absolute {opcode : Opcode} {slot : Nat} (h : slot < 3) :
    opcode.mode slot = .absolute ↔ opcode.raw.toNat.testBit slot = true := by
  have hZero : opcode.raw &&& Operation.slotBit slot = 0 ↔
      opcode.raw.toNat.testBit slot = false := by
    rw [and_eq_zero]
    simp only [Operation.testBit_slotBit h, decide_eq_false_iff_not]
    constructor
    · intro hNone
      cases hBit : opcode.raw.toNat.testBit slot with
      | false => rfl
      | true => exact absurd rfl (hNone slot hBit)
    · rintro hSlot bit hBit rfl
      rw [hSlot] at hBit
      cases hBit
  unfold mode
  simp only [hZero]
  cases opcode.raw.toNat.testBit slot <;> simp

/-! ## Legal opcodes -/

/-- The number above the three mask bits is the code of `op`. -/
def HasCode (opcode : Opcode) (op : Operation) : Prop := opcode.raw.toNat / 8 = op.code

/-- The mask bits that are set belong to operands of `op` that are registers of either
addressing. -/
def MasksOnlyRegisters (opcode : Opcode) (op : Operation) : Prop :=
  ∀ slot < 3, opcode.raw.toNat.testBit slot = true → op.operands[slot]? = some .reg

theorem base?_eq_some {opcode : Opcode} {op : Operation} :
    opcode.base? = some op ↔ opcode.HasCode op := by
  have hHigh : (opcode.raw >>> 3).toNat = opcode.raw.toNat / 8 := by
    rw [UInt16.toNat_shiftRight]
    simp only [UInt16.reduceToNat, Nat.reduceMod, Nat.shiftRight_eq_div_pow, Nat.reducePow]
  unfold base? HasCode
  rw [Operation.ofCode?_eq_some, hHigh, eq_comm]

theorem decode?_eq_some {opcode : Opcode} {op : Operation} :
    opcode.decode? = some op ↔ opcode.HasCode op ∧ opcode.MasksOnlyRegisters op := by
  have hMask : opcode.mask &&& ~~~ op.choosableMask = 0 ↔ opcode.MasksOnlyRegisters op := by
    have hOperands : 0 + op.operands.length ≤ 3 := by
      rw [Nat.zero_add]
      exact op.length_operands_le
    unfold Operation.choosableMask MasksOnlyRegisters
    rw [and_not_eq_zero]
    simp [testBit_mask, Operation.testBit_choosableFrom hOperands]
  unfold decode?
  rw [Option.filter_eq_some_iff, base?_eq_some, decide_eq_true_eq, hMask]

/-- The mask leaves alone an operand that is always relative. -/
theorem mode_eq_relative {opcode : Opcode} {op : Operation} {slot : Nat}
    (hDecode : opcode.decode? = some op) (hLoc : op.operands[slot]? = some .loc) :
    opcode.mode slot = .relative := by
  have hSlot : slot < 3 :=
    Nat.lt_of_lt_of_le (List.getElem?_eq_some_iff.1 hLoc).1 op.length_operands_le
  cases hMode : opcode.mode slot with
  | relative => rfl
  | absolute =>
    have hReg := (decode?_eq_some.1 hDecode).2 slot hSlot ((mode_eq_absolute hSlot).1 hMode)
    rw [hLoc] at hReg
    cases hReg

end Opcode

end RegisterMachine

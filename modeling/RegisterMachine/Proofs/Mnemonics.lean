-- The mnemonic of a legal opcode names that opcode and no other, and no other text names an
-- opcode. The letters behind the last underscore are the addressing, and what stands before
-- them is the name of one operation.
import Mathlib.Data.List.Nodup
import RegisterMachine.Proofs.Opcodes

namespace RegisterMachine

/-! ## Names -/

namespace Operation

theorem mem_all (op : Operation) : op ∈ all.toList := by
  cases op <;> decide

theorem name_injective {x y : Operation} (h : x.name = y.name) : x = y := by
  have hDistinct : (all.toList.map name).Nodup := by decide +kernel
  exact List.inj_on_of_nodup_map hDistinct x.mem_all y.mem_all h

theorem isUpper_name (op : Operation) :
    op.name ≠ "" ∧ ∀ c ∈ op.name.toList, c.isUpper = true ∨ c = '_' := by
  have hAll : ∀ op ∈ all.toList, op.name ≠ "" ∧
      op.name.toList.all (fun c => c.isUpper || c == '_') = true := by
    decide +kernel
  obtain ⟨hSome, hChars⟩ := hAll op op.mem_all
  exact ⟨hSome, by simpa using hChars⟩

/-- No name of an operation without registers can be taken for one with letters. -/
theorem getLast?_name {op : Operation} (h : op.registerSlots = []) (mode : Addressing) :
    op.name.toList.getLast? ≠ some mode.letter := by
  have hAll : ∀ op ∈ all.toList, op.registerSlots = [] →
      op.name.toList.getLast? ≠ some 'L' ∧ op.name.toList.getLast? ≠ some 'G' := by
    decide +kernel
  obtain ⟨hLocal, hGlobal⟩ := hAll op op.mem_all h
  cases mode
  · exact hLocal
  · exact hGlobal

/-! ## The registers of an operation -/

theorem mem_registerSlots {op : Operation} {slot : Nat} {operand : OperandClass} :
    (slot, operand) ∈ op.registerSlots ↔
      op.operands[slot]? = some operand ∧ operand.isRegister = true := by
  simp [registerSlots, List.mem_zipIdx_iff_getElem?]

theorem slot_lt {op : Operation} {entry : Nat × OperandClass} (h : entry ∈ op.registerSlots) :
    entry.1 < 3 := by
  have hPlace := (List.getElem?_eq_some_iff.1 (mem_registerSlots.1 h).1).1
  have hLength := op.length_operands_le
  omega

theorem nodup_registerSlots (op : Operation) : (op.registerSlots.map Prod.fst).Nodup := by
  have hSlots : op.registerSlots.map Prod.fst =
      (op.operands.zipIdx.filter fun entry => entry.1.isRegister).map Prod.snd := by
    simp [registerSlots]
  have hAll : (op.operands.zipIdx.map Prod.snd).Nodup := by
    rw [List.zipIdx_map_snd]
    exact List.nodup_range'
  rw [hSlots]
  exact hAll.sublist (List.filter_sublist.map Prod.snd)

end Operation

namespace Opcode

/-! ## Letters -/

/-- The letter that a mask gives to the register in a slot. -/
def letterAt (mask : UInt16) (entry : Nat × OperandClass) : Char :=
  if mask.toNat.testBit entry.1 then Addressing.absolute.letter else Addressing.relative.letter

theorem letterAt_inj {mask other : UInt16} {entry : Nat × OperandClass} :
    letterAt mask entry = letterAt other entry ↔
      mask.toNat.testBit entry.1 = other.toNat.testBit entry.1 := by
  unfold letterAt
  cases mask.toNat.testBit entry.1 <;> cases other.toNat.testBit entry.1 <;>
    simp [Addressing.letter]

theorem letters_eq (opcode : Opcode) (op : Operation) :
    opcode.letters op = op.registerSlots.map (letterAt opcode.mask) := by
  unfold letters
  apply List.map_congr_left
  intro entry hEntry
  have hSlot := Operation.slot_lt hEntry
  have hMode := @mode_eq_absolute opcode _ hSlot
  unfold letterAt
  simp only [testBit_mask, hSlot, decide_true, Bool.true_and, ← hMode]
  cases opcode.mode entry.1 <;> rfl

theorem length_letters (opcode : Opcode) (op : Operation) :
    (opcode.letters op).length = op.registerSlots.length :=
  List.length_map _

theorem mode_of_mem_letters {opcode : Opcode} {op : Operation} (c : Char)
    (h : c ∈ opcode.letters op) : ∃ mode : Addressing, c = mode.letter := by
  obtain ⟨⟨slot, _⟩, -, rfl⟩ := List.mem_map.1 h
  exact ⟨opcode.mode slot, rfl⟩

section Letters

variable {slots : List (Nat × OperandClass)} {letters : List Char} {mask : UInt16}

/-- A mask that was read has bits of free registers only. -/
theorem mem_of_testBit (h : readLetters? slots letters = some mask)
    (hSlots : ∀ entry ∈ slots, entry.1 < 3) {bit : Nat} (hBit : mask.toNat.testBit bit = true) :
    (bit, .reg) ∈ slots := by
  fun_induction readLetters? slots letters generalizing mask with
  | case1 =>
    cases h
    simp at hBit
  | case2 slot operand slots c cs hMode ih =>
    exact List.mem_cons_of_mem _ (ih h (List.forall_mem_cons.1 hSlots).2 hBit)
  | case3 slot slots c cs hMode ih =>
    obtain ⟨rest, hRest, rfl⟩ := Option.map_eq_some_iff.1 h
    obtain ⟨hSlot, hSlots⟩ := List.forall_mem_cons.1 hSlots
    rw [UInt16.toNat_or, Nat.testBit_or, Operation.testBit_slotBit hSlot, Bool.or_eq_true] at hBit
    rcases hBit with hBit | hBit
    · exact List.mem_cons_of_mem _ (ih hRest hSlots hBit)
    · cases of_decide_eq_true hBit
      exact List.mem_cons_self
  | case4 => cases h
  | case5 => cases h

/-- The letters that choose a mask are the letters of that mask. -/
theorem eq_map_letterAt (h : readLetters? slots letters = some mask)
    (hSlots : ∀ entry ∈ slots, entry.1 < 3) (hNodup : (slots.map Prod.fst).Nodup) :
    letters = slots.map (letterAt mask) := by
  fun_induction readLetters? slots letters generalizing mask with
  | case1 => rfl
  | case2 slot operand slots c cs hMode ih =>
    obtain ⟨hNew, hNodup⟩ := List.nodup_cons.1 hNodup
    obtain ⟨-, hRest⟩ := List.forall_mem_cons.1 hSlots
    have hClear : mask.toNat.testBit slot = false := by
      apply Bool.eq_false_iff.2
      intro hBit
      exact hNew (List.mem_map.2 ⟨_, mem_of_testBit h hRest hBit, rfl⟩)
    rw [List.map_cons, ← ih h hRest hNodup, Addressing.ofLetter?_eq_some.1 hMode]
    simp [letterAt, hClear]
  | case3 slot slots c cs hMode ih =>
    obtain ⟨rest, hRead, rfl⟩ := Option.map_eq_some_iff.1 h
    obtain ⟨hNew, hNodup⟩ := List.nodup_cons.1 hNodup
    obtain ⟨hSlot, hRest⟩ := List.forall_mem_cons.1 hSlots
    have hBits : ∀ bit, (rest ||| Operation.slotBit slot).toNat.testBit bit =
        (rest.toNat.testBit bit || decide (slot = bit)) := by
      intro bit
      rw [UInt16.toNat_or, Nat.testBit_or, Operation.testBit_slotBit hSlot]
    have hOwn : letterAt (rest ||| Operation.slotBit slot) (slot, .reg) =
        Addressing.absolute.letter := by
      unfold letterAt
      rw [hBits]
      simp
    -- The bit of this slot is no bit of a later slot.
    have hOthers : slots.map (letterAt (rest ||| Operation.slotBit slot)) =
        slots.map (letterAt rest) := by
      apply List.map_congr_left
      intro entry hEntry
      have hNe : slot ≠ entry.1 := by
        rintro rfl
        exact hNew (List.mem_map.2 ⟨_, hEntry, rfl⟩)
      rw [letterAt_inj, hBits]
      simp [hNe]
    rw [List.map_cons, hOwn, hOthers, ← ih hRead hRest hNodup,
      Addressing.ofLetter?_eq_some.1 hMode]
  | case4 => cases h
  | case5 => cases h

/-- The letters of a mask can be read when it has bits of free registers only. -/
theorem exists_readLetters?
    (h : ∀ entry ∈ slots, mask.toNat.testBit entry.1 = true → entry.2 = .reg) :
    ∃ found, readLetters? slots (slots.map (letterAt mask)) = some found := by
  induction slots with
  | nil => exact ⟨0, rfl⟩
  | cons entry slots ih =>
    obtain ⟨hEntry, hRest⟩ := List.forall_mem_cons.1 h
    obtain ⟨found, hFound⟩ := ih hRest
    obtain ⟨slot, operand⟩ := entry
    rw [List.map_cons]
    cases hBit : mask.toNat.testBit slot with
    | false =>
      refine ⟨found, ?_⟩
      simp [letterAt, hBit, readLetters?, Addressing.ofLetter?, Addressing.letter, hFound]
    | true =>
      obtain rfl : operand = .reg := hEntry hBit
      refine ⟨found ||| Operation.slotBit slot, ?_⟩
      simp [letterAt, hBit, readLetters?, Addressing.ofLetter?, Addressing.letter, hFound]

end Letters

/-- The letters of a legal opcode choose its mask. -/
theorem readLetters?_letters {opcode : Opcode} {op : Operation} (h : opcode.decode? = some op) :
    readLetters? op.registerSlots (opcode.letters op) = some opcode.mask := by
  have hSlots : ∀ entry ∈ op.registerSlots, entry.1 < 3 := fun _ => Operation.slot_lt
  have hMask : ∀ bit, opcode.mask.toNat.testBit bit = true → op.operands[bit]? = some .reg := by
    intro bit hBit
    rw [testBit_mask, Bool.and_eq_true, decide_eq_true_eq] at hBit
    exact (decode?_eq_some.1 h).2 bit hBit.1 hBit.2
  have hReg : ∀ entry ∈ op.registerSlots,
      opcode.mask.toNat.testBit entry.1 = true → entry.2 = .reg := by
    intro entry hEntry hBit
    have hOperand := (Operation.mem_registerSlots.1 hEntry).1
    rw [hMask _ hBit] at hOperand
    exact (Option.some.inj hOperand).symm
  obtain ⟨found, hFound⟩ := exists_readLetters? hReg
  have hLetters := eq_map_letterAt hFound hSlots op.nodup_registerSlots
  have hSame : found = opcode.mask := by
    apply UInt16.toNat_inj.1
    apply Nat.eq_of_testBit_eq
    intro bit
    by_cases hMem : (bit, OperandClass.reg) ∈ op.registerSlots
    · exact (letterAt_inj.1 (List.map_inj_left.1 hLetters _ hMem)).symm
    · have hFound : found.toNat.testBit bit = false := by
        apply Bool.eq_false_iff.2
        intro hBit
        exact hMem (mem_of_testBit hFound hSlots hBit)
      have hOwn : opcode.mask.toNat.testBit bit = false := by
        apply Bool.eq_false_iff.2
        intro hBit
        exact hMem (Operation.mem_registerSlots.2 ⟨hMask bit hBit, rfl⟩)
      rw [hFound, hOwn]
  rw [letters_eq, hFound, hSame]

/-- Letters that can be read make a legal opcode, of which they are the letters. -/
theorem decode?_of_readLetters? {op : Operation} {letters : List Char} {mask : UInt16}
    (h : readLetters? op.registerSlots letters = some mask) :
    (make op mask).decode? = some op ∧ (make op mask).letters op = letters := by
  have hSlots : ∀ entry ∈ op.registerSlots, entry.1 < 3 := fun _ => Operation.slot_lt
  refine ⟨?_, ?_⟩
  · refine decode?_eq_some.2 ⟨base?_eq_some.1 (base?_make op mask), ?_⟩
    intro slot hSlot hBit
    rw [testBit_make hSlot] at hBit
    exact (Operation.mem_registerSlots.1 (mem_of_testBit h hSlots hBit)).1
  · rw [letters_eq, eq_map_letterAt h hSlots op.nodup_registerSlots]
    apply List.map_congr_left
    intro entry hEntry
    have hSlot := hSlots entry hEntry
    rw [letterAt_inj, testBit_mask, testBit_make hSlot]
    simp [hSlot]

/-! ## The form of a mnemonic -/

/-- The end of a mnemonic, in which letters stand behind an underscore. -/
def suffix : List Char → List Char
  | [] => []
  | letters => '_' :: letters

theorem afterStart?_eq_some {start cs rest : List Char} :
    afterStart? start cs = some rest ↔ cs = start ++ rest := by
  fun_induction afterStart? start cs with
  | case1 cs => simp [eq_comm]
  | case2 => simp
  | case3 p start cs ih => simp [ih]
  | case4 p start c cs hNe =>
    simp only [List.cons_append, List.cons.injEq, reduceCtorEq, false_iff]
    rintro ⟨rfl, -⟩
    exact hNe rfl

/-- A text that is read as a mnemonic is a name and letters that can be read. -/
theorem eq_of_readFor? {op : Operation} {cs : List Char} {opcode : Opcode}
    (h : readFor? op cs = some opcode) :
    ∃ letters mask, cs = op.name.toList ++ suffix letters ∧
      readLetters? op.registerSlots letters = some mask ∧ opcode = make op mask := by
  unfold readFor? at h
  split at h
  · rename_i hSlots hStart
    cases h
    refine ⟨[], 0, afterStart?_eq_some.1 hStart, ?_, rfl⟩
    rw [hSlots]
    rfl
  · rename_i slot slots letters hSlots hStart
    obtain ⟨mask, hMask, rfl⟩ := Option.map_eq_some_iff.1 h
    refine ⟨letters, mask, ?_, by rw [hSlots]; exact hMask, rfl⟩
    rw [afterStart?_eq_some.1 hStart]
    rcases letters with _ | ⟨c, cs⟩
    · cases hMask
    · rfl
  · cases h

theorem underscore_not_mem {letters : List Char}
    (h : ∀ c ∈ letters, ∃ mode : Addressing, c = mode.letter) : '_' ∉ letters := by
  intro hMem
  obtain ⟨mode, hMode⟩ := h '_' hMem
  cases mode <;> cases hMode

/-- The last place of a character tells what stands before it. -/
theorem eq_of_append_cons {xs ys as bs : List Char} {c : Char}
    (h : xs ++ c :: as = ys ++ c :: bs) (ha : c ∉ as) (hb : c ∉ bs) : xs = ys := by
  rcases List.append_eq_append_iff.1 h with ⟨more, rfl, hMore⟩ | ⟨more, rfl, hMore⟩
  · rcases more with _ | ⟨d, ds⟩
    · rw [List.append_nil]
    · cases hMore
      exact absurd (List.mem_append_right ds List.mem_cons_self) ha
  · rcases more with _ | ⟨d, ds⟩
    · rw [List.append_nil]
    · cases hMore
      exact absurd (List.mem_append_right ds List.mem_cons_self) hb

/-- No name of an operation without registers ends like one with letters. -/
theorem not_letter_of_no_slots {x y : Operation} {c : Char} {cs : List Char}
    (hSlots : x.registerSlots.length = 0)
    (hText : x.name.toList ++ suffix [] = y.name.toList ++ suffix (c :: cs))
    (hLetters : ∀ d ∈ c :: cs, ∃ mode : Addressing, d = mode.letter) : False := by
  obtain ⟨mode, hMode⟩ := hLetters _ (List.getLast_mem (List.cons_ne_nil c cs))
  apply x.getLast?_name (List.eq_nil_of_length_eq_zero hSlots) mode
  rw [← hMode, ← List.append_nil x.name.toList]
  show (x.name.toList ++ suffix []).getLast? = _
  have hLast := List.getLast?_eq_some_getLast (List.cons_ne_nil c cs)
  rw [hText, suffix, List.getLast?_append_cons, List.getLast?_cons_cons, hLast]
  exact List.cons_ne_nil c cs

/-- Two names with letters behind them are the same text only if they are the same name. -/
theorem eq_of_name_append {x y : Operation} {xs ys : List Char}
    (hText : x.name.toList ++ suffix xs = y.name.toList ++ suffix ys)
    (hx : xs.length = x.registerSlots.length) (hy : ys.length = y.registerSlots.length)
    (hxs : ∀ c ∈ xs, ∃ mode : Addressing, c = mode.letter)
    (hys : ∀ c ∈ ys, ∃ mode : Addressing, c = mode.letter) : x = y := by
  apply Operation.name_injective
  apply String.toList_inj.1
  rcases xs with _ | ⟨a, as⟩
  · rcases ys with _ | ⟨b, bs⟩
    · simpa [suffix] using hText
    · exact (not_letter_of_no_slots hx.symm hText hys).elim
  · rcases ys with _ | ⟨b, bs⟩
    · exact (not_letter_of_no_slots hy.symm hText.symm hxs).elim
    · exact eq_of_append_cons hText (underscore_not_mem hxs) (underscore_not_mem hys)

/-! ## Reading mnemonics -/

theorem toList_mnemonic {opcode : Opcode} {op : Operation} (h : opcode.decode? = some op) :
    opcode.mnemonic.toList = op.name.toList ++ suffix (opcode.letters op) := by
  unfold mnemonic
  rw [h]
  simp only
  split
  · rename_i hLetters
    rw [hLetters, suffix, List.append_nil]
  · rename_i letters hLetters
    rw [String.toList_append, String.toList_append, List.append_assoc]
    rcases hCases : opcode.letters op with _ | ⟨c, cs⟩
    · exact absurd hCases hLetters
    · simp only [String.toList_ofList]
      rfl

/-- A mnemonic is made of capital letters and underscores. -/
theorem isUpper_mnemonic {opcode : Opcode} {op : Operation} (h : opcode.decode? = some op) :
    opcode.mnemonic.toList ≠ [] ∧
      ∀ c ∈ opcode.mnemonic.toList, c.isUpper = true ∨ c = '_' := by
  obtain ⟨hSome, hName⟩ := op.isUpper_name
  have hSuffix : ∀ c ∈ suffix (opcode.letters op), c.isUpper = true ∨ c = '_' := by
    have hLetters : ∀ c ∈ opcode.letters op, c.isUpper = true ∨ c = '_' := by
      intro c hMem
      obtain ⟨mode, rfl⟩ := mode_of_mem_letters c hMem
      cases mode <;> decide
    generalize opcode.letters op = letters at hLetters ⊢
    rcases letters with _ | ⟨first, more⟩
    · simp [suffix]
    · rintro c (_ | ⟨_, hMem⟩)
      · exact .inr rfl
      · exact hLetters c hMem
  rw [toList_mnemonic h]
  refine ⟨List.append_ne_nil_of_left_ne_nil (by simpa using hSome) _, ?_⟩
  intro c hMem
  rcases List.mem_append.1 hMem with hMem | hMem
  · exact hName c hMem
  · exact hSuffix c hMem

/-- A legal opcode is its operation with its mask. -/
theorem eq_make {opcode : Opcode} {op : Operation} (h : opcode.decode? = some op) :
    opcode = make op opcode.mask := by
  have hCode : opcode.raw.toNat / 8 = op.code := (decode?_eq_some.1 h).1
  have hRaw : opcode.raw = (make op opcode.mask).raw := by
    apply UInt16.toNat_inj.1
    rw [toNat_make, ← hCode]
    unfold Opcode.mask
    rw [toNat_low]
    omega
  cases opcode
  exact congrArg Opcode.mk hRaw

theorem readFor?_mnemonic {opcode : Opcode} {op : Operation} (h : opcode.decode? = some op) :
    readFor? op opcode.mnemonic.toList = some opcode := by
  have hStart := afterStart?_eq_some.2 (toList_mnemonic h)
  have hRead := readLetters?_letters h
  have hMake := eq_make h
  unfold readFor?
  rw [hStart]
  unfold letters at hRead ⊢
  rcases hSlots : op.registerSlots with _ | ⟨slot, slots⟩
  · rw [hSlots] at hRead
    have hMask : opcode.mask = 0 := (Option.some.inj hRead).symm
    rw [hMask] at hMake
    exact congrArg some hMake.symm
  · rw [hSlots, List.map_cons] at hRead
    simp only [suffix, List.map_cons, hRead, Option.map_some]
    exact congrArg some hMake.symm

/-- The text of a mnemonic tells the opcode that it was read as. -/
theorem mnemonic_of_readFor? {op : Operation} {cs : List Char} {opcode : Opcode}
    (h : readFor? op cs = some opcode) :
    opcode.decode? = some op ∧ opcode.mnemonic.toList = cs := by
  obtain ⟨letters, mask, rfl, hRead, rfl⟩ := eq_of_readFor? h
  obtain ⟨hDecode, hLetters⟩ := decode?_of_readLetters? hRead
  exact ⟨hDecode, by rw [toList_mnemonic hDecode, hLetters]⟩

theorem mnemonic_injective {opcode other : Opcode} {op op' : Operation}
    (h : opcode.decode? = some op) (h' : other.decode? = some op')
    (hText : opcode.mnemonic = other.mnemonic) : opcode = other := by
  have hOp : op = op' := by
    have hChars := congrArg String.toList hText
    rw [toList_mnemonic h, toList_mnemonic h'] at hChars
    exact eq_of_name_append hChars (length_letters opcode op) (length_letters other op')
      mode_of_mem_letters mode_of_mem_letters
  subst hOp
  have hRead := readFor?_mnemonic h
  rw [hText, readFor?_mnemonic h'] at hRead
  exact (Option.some.inj hRead).symm

theorem ofMnemonic?_eq_some {text : String} {opcode : Opcode} :
    ofMnemonic? text = some opcode ↔
      (∃ op, opcode.decode? = some op) ∧ opcode.mnemonic = text := by
  have hFound : ∀ {found : Opcode}, ofMnemonic? text = some found →
      (∃ op, found.decode? = some op) ∧ found.mnemonic = text := by
    intro found hFound
    obtain ⟨op, -, hRead⟩ := List.exists_of_findSome?_eq_some hFound
    obtain ⟨hDecode, hText⟩ := mnemonic_of_readFor? hRead
    exact ⟨⟨op, hDecode⟩, String.toList_inj.1 hText⟩
  refine ⟨hFound, ?_⟩
  rintro ⟨⟨op, hDecode⟩, rfl⟩
  cases hRead : ofMnemonic? opcode.mnemonic with
  | none =>
    have hNone := List.findSome?_eq_none_iff.1 hRead op op.mem_all
    rw [readFor?_mnemonic hDecode] at hNone
    cases hNone
  | some found =>
    obtain ⟨⟨op', hDecode'⟩, hText⟩ := hFound hRead
    rw [mnemonic_injective hDecode' hDecode hText]

/-- The mnemonic of a legal opcode names that opcode. -/
theorem ofMnemonic?_mnemonic {opcode : Opcode} {op : Operation} (h : opcode.decode? = some op) :
    ofMnemonic? opcode.mnemonic = some opcode :=
  ofMnemonic?_eq_some.2 ⟨⟨op, h⟩, rfl⟩

/-! ## The law -/

/-- A text is read as an opcode when the opcode is legal and the text is its mnemonic. So two
legal opcodes never have the same mnemonic, and what is no mnemonic is read as nothing. -/
theorem a_text_is_read_as_the_opcode_that_it_names :
    (∀ (text : String) (opcode : Opcode), ofMnemonic? text = some opcode ↔
      (∃ op, opcode.decode? = some op) ∧ opcode.mnemonic = text) ∧
    (∀ opcode other : Opcode, (∃ op, opcode.decode? = some op) →
      (∃ op, other.decode? = some op) → opcode.mnemonic = other.mnemonic → opcode = other) ∧
    ∀ text : String, ofMnemonic? text = none ↔
      ∀ opcode : Opcode, (∃ op, opcode.decode? = some op) → opcode.mnemonic ≠ text := by
  refine ⟨fun text opcode => ofMnemonic?_eq_some, ?_, ?_⟩
  · rintro opcode other ⟨op, hDecode⟩ ⟨op', hDecode'⟩ hText
    exact mnemonic_injective hDecode hDecode' hText
  · intro text
    rw [Option.eq_none_iff_forall_ne_some]
    constructor
    · rintro hNone opcode hLegal hText
      exact hNone opcode (ofMnemonic?_eq_some.2 ⟨hLegal, hText⟩)
    · intro hNone opcode hRead
      obtain ⟨hLegal, hText⟩ := ofMnemonic?_eq_some.1 hRead
      exact hNone opcode hLegal hText

/-- The name of one load is the start of the name of another, and their mnemonics differ. -/
theorem a_bound_load_is_told_from_a_plain_one :
    ofMnemonic? "LOAD_ALLOC_I_BOUND_GL" = some (make .loadAllocIBound 1) ∧
      (make .loadAllocIBound 1).mnemonic ≠ (make .loadAllocI 1).mnemonic := by
  have hBound : (make .loadAllocIBound 1).decode? = some .loadAllocIBound := by decide
  have hPlain : (make .loadAllocI 1).decode? = some .loadAllocI := by decide
  obtain ⟨hRead, hInjective, -⟩ := a_text_is_read_as_the_opcode_that_it_names
  refine ⟨(hRead _ _).2 ⟨⟨_, hBound⟩, by decide +kernel⟩, ?_⟩
  intro hText
  have hSame := hInjective _ _ ⟨_, hBound⟩ ⟨_, hPlain⟩ hText
  revert hSame
  decide

end Opcode

end RegisterMachine

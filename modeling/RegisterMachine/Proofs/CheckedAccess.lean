-- Unchecked and checked access. Where a checked access has no fault of its own, the
-- unchecked one does the same. So a program whose fixed accesses are made checked ones,
-- and none of them then faults, runs as before.
import RegisterMachine.Proofs.Opcodes
import RegisterMachine.Proofs.Runs

namespace RegisterMachine

/-! ## Checks -/

/-- The faults of a checked access alone: an index past the limit, and a cell that was not
written. -/
def Fault.OfCheck (fault : Fault) : Prop :=
  fault = .indexOutOfRange ∨ fault = .uninitializedRead

/-- `checked` gives what `plain` gives, or a fault of its check. -/
def Guards {α : Type} (checked plain : Except Fault α) : Prop :=
  checked = plain ∨ ∃ fault : Fault, fault.OfCheck ∧ checked = .error fault

theorem guards_bind {α β : Type} {first : Except Fault α} {checked plain : α → Except Fault β}
    (h : ∀ value, first = .ok value → Guards (checked value) (plain value)) :
    Guards (first >>= checked) (first >>= plain) := by
  cases first with
  | error fault => exact Or.inl rfl
  | ok value => exact h value rfl

theorem Guards.bind {α β : Type} {checked plain : Except Fault α} (h : Guards checked plain)
    (next : α → Except Fault β) : Guards (checked >>= next) (plain >>= next) := by
  rcases h with rfl | ⟨fault, hFault, rfl⟩
  · exact Or.inl rfl
  · exact Or.inr ⟨fault, hFault, rfl⟩

/-! ## Access to the heap -/

theorem toInt_ofNat_word (word : UInt16) : (Int64.ofNat word.toNat).toInt = word.toNat := by
  have hWord := word.toNat_lt
  apply Int64.toInt_ofNat_of_lt
  omega

namespace Allocation

theorem position_word (alloc : Allocation) (word : UInt16) :
    alloc.position (Int64.ofNat word.toNat) =
      if word.toNat < alloc.limit then .ok word.toNat else .error .indexOutOfRange := by
  unfold position
  rw [toInt_ofNat_word]
  by_cases hLimit : word.toNat < alloc.limit <;> simp [hLimit]

theorem guards_load {alloc : Allocation} (h : alloc.Uniform) (word : UInt16) :
    Guards (alloc.load (Int64.ofNat word.toNat)) (alloc.loadUnchecked word.toNat) := by
  unfold load loadUnchecked
  rw [position_word]
  by_cases hLimit : word.toNat < alloc.limit
  · rw [if_pos hLimit]
    have hValues : word.toNat < alloc.values.size := Nat.lt_of_lt_of_le hLimit h.limit_le
    have hWritten : word.toNat < alloc.written.size := h.written.symm ▸ hValues
    simp only [bind, Except.bind, Array.getElem?_eq_getElem hValues,
      Array.getElem?_eq_getElem hWritten]
    cases alloc.written[word.toNat] with
    | true => exact Or.inl rfl
    | false => exact Or.inr ⟨.uninitializedRead, Or.inr rfl, rfl⟩
  · rw [if_neg hLimit]
    exact Or.inr ⟨.indexOutOfRange, Or.inl rfl, rfl⟩

theorem guards_position {alloc : Allocation} (hCapacity : alloc.limit ≤ alloc.capacity)
    (word : UInt16) :
    Guards (alloc.position (Int64.ofNat word.toNat)) (alloc.positionUnchecked word.toNat) := by
  unfold positionUnchecked
  rw [position_word]
  by_cases hLimit : word.toNat < alloc.limit
  · left
    rw [if_pos hLimit, if_pos (by omega)]
  · right
    exact ⟨.indexOutOfRange, Or.inl rfl, if_neg hLimit⟩

end Allocation

theorem Arena.guards_load {heap : Arena} (hs : heap.Sound) (handle : Handle) (word : UInt16) :
    Guards (heap.load handle (Int64.ofNat word.toNat)) (heap.loadUnchecked handle word.toNat) :=
  guards_bind fun alloc hGet =>
    Allocation.guards_load (hs.uniform handle alloc (get_eq_ok.1 hGet)) word

theorem Arena.guards_position {heap : Arena} (hs : heap.Sound) (handle : Handle)
    (word : UInt16) :
    Guards (heap.position handle (Int64.ofNat word.toNat))
      (heap.positionUnchecked handle word.toNat) :=
  guards_bind fun alloc hGet =>
    Allocation.guards_position (hs.limit_le handle alloc (get_eq_ok.1 hGet)) word

/-! ## Instructions with their access made checked -/

namespace Instruction

/-- Whether the instruction is a load or a store at a fixed index that is not checked. -/
def isUnchecked (ins : Instruction) : Bool :=
  ins.opcode.base? = some .loadAllocI || ins.opcode.base? = some .storeAllocI

/-- The instruction with its access made a checked one. The mask and the operands stay. -/
def checked (ins : Instruction) : Instruction :=
  match ins.opcode.base? with
  | some .loadAllocI => { ins with opcode := .make .loadAllocIBound ins.opcode.mask }
  | some .storeAllocI => { ins with opcode := .make .storeAllocIBound ins.opcode.mask }
  | _ => ins

theorem checked_of_isUnchecked {ins : Instruction} (h : ins.isUnchecked = false) :
    ins.checked = ins := by
  unfold isUnchecked at h
  unfold checked
  split <;> simp_all

end Instruction

namespace Machine

variable {σ : Type} {machine : Machine σ} {ins : Instruction}

theorem locate_make (op : Operation) {slot : Nat} (hSlot : slot < 3) :
    machine.locate { ins with opcode := .make op ins.opcode.mask } slot =
      machine.locate ins slot := by
  unfold locate
  rw [Opcode.mode_of_mask (Opcode.mask_make_mask op ins.opcode) hSlot]
  rfl

/-- The plans of two operations that leave the same slots to the mask. -/
theorem plan_make (machine : Machine σ) {op : Operation} (op' : Operation)
    (hBase : ins.opcode.base? = some op) (hSlots : op'.choosableMask = op.choosableMask) :
    machine.plan { ins with opcode := .make op' ins.opcode.mask } = machine.plan ins ∨
    (machine.plan ins = machine.planFor ins op ∧
      machine.plan { ins with opcode := .make op' ins.opcode.mask } =
        machine.planFor { ins with opcode := .make op' ins.opcode.mask } op') := by
  have hMask := Opcode.mask_make_mask op' ins.opcode
  have hOld := Opcode.decode?_of_base? hBase
  have hNew := Opcode.decode?_of_base? (Opcode.base?_make op' ins.opcode.mask)
  rw [hMask, hSlots] at hNew
  unfold plan
  by_cases hLegal : ins.opcode.mask &&& ~~~ op.choosableMask = 0
  · rw [if_pos hLegal] at hOld hNew
    right
    simp [hOld, hNew]
  · rw [if_neg hLegal] at hOld hNew
    left
    simp [hOld, hNew]

theorem guards_plan (hs : machine.memory.Sound) (ins : Instruction) :
    Guards (machine.plan ins.checked) (machine.plan ins) := by
  unfold Instruction.checked
  split
  · rename_i hBase
    rcases machine.plan_make .loadAllocIBound hBase rfl with hSame | ⟨hOld, hNew⟩
    · exact Or.inl hSame
    · rw [hOld, hNew]
      unfold planFor
      simp only
      rw [locate_make _ (by decide : 0 < 3), locate_make _ (by decide : 1 < 3)]
      refine guards_bind fun _ _ => guards_bind fun _ _ => guards_bind fun handle _ => ?_
      exact (Arena.guards_load hs.heap handle ins.c).bind _
  · rename_i hBase
    rcases machine.plan_make .storeAllocIBound hBase rfl with hSame | ⟨hOld, hNew⟩
    · exact Or.inl hSame
    · rw [hOld, hNew]
      unfold planFor
      simp only
      rw [locate_make _ (by decide : 0 < 3), locate_make _ (by decide : 1 < 3)]
      refine guards_bind fun _ _ => guards_bind fun _ _ => guards_bind fun handle _ => ?_
      refine guards_bind fun value _ => ?_
      exact (Arena.guards_position hs.heap handle ins.c).bind _
  · exact Or.inl rfl

/-! ## Runs -/

/-- A step of the checked stream is the step of the plain one, or the check of an access
that was made checked has failed. -/
theorem step_checked (hs : machine.memory.Sound) (code : Array Instruction) :
    machine.step (code.map Instruction.checked) = machine.step code ∨
      ∃ ins fault, code[machine.ip]? = some ins ∧ ins.isUnchecked = true ∧
        Fault.OfCheck fault ∧
        machine.step (code.map Instruction.checked) = .faulted fault none machine := by
  unfold step
  by_cases hAsked : machine.haltRequested = true
  · exact Or.inl (by simp [hAsked])
  · rw [if_neg hAsked, if_neg hAsked, Array.getElem?_map]
    rcases hFetch : code[machine.ip]? with _ | ins
    · exact Or.inl rfl
    · simp only [Option.map_some, exec]
      rcases guards_plan hs ins with hSame | ⟨fault, hFault, hError⟩
      · rw [hSame]
        exact Or.inl rfl
      · by_cases hUnchecked : ins.isUnchecked = true
        · right
          refine ⟨ins, fault, rfl, hUnchecked, hFault, ?_⟩
          rw [hError]
        · rw [Instruction.checked_of_isUnchecked (by simpa using hUnchecked)]
          exact Or.inl rfl

/-- When no access that was made checked fails its check, the plain stream goes through the
same machines and comes to the same end. -/
theorem unchecked_access_agrees_with_checked (config : Config) (host : σ)
    (first machine : Machine σ) (hMake : make config host = .ok first)
    (hReached : Relation.ReflTransGen Undergoes first machine) (code : Array Instruction)
    (hChecks : ∀ fuel execution halt ins,
      machine.execute fuel (code.map Instruction.checked) = some execution →
      execution.halt = some halt → code[halt.ip]? = some ins → ins.isUnchecked = true →
      halt.fault ≠ .indexOutOfRange ∧ halt.fault ≠ .uninitializedRead) :
    (∀ n, after code n machine.start = after (code.map Instruction.checked) n machine.start) ∧
      ∀ fuel, machine.execute fuel code =
        machine.execute fuel (code.map Instruction.checked) := by
  have hs : machine.start.memory.Sound := by
    refine sound_of_reached ?_ (hReached.tail (.becomes .start))
    rw [memory_make hMake]
    exact Memory.sound_make _ _ _
  have hSteps : ∀ n last, after (code.map Instruction.checked) n machine.start = some last →
      last.step (code.map Instruction.checked) = last.step code := by
    intro n last hAfter
    rcases step_checked (sound_after hs hAfter) code with
      hSame | ⟨ins, fault, hFetch, hUnchecked, hFault, hStep⟩
    · exact hSame
    · have hRun : machine.execute (n + 1) (code.map Instruction.checked) =
          some (conclude (.faulted fault none last)) := by
        refine execute_eq_some.2 ⟨n, last, by omega, hAfter, ?_, ?_⟩
        · rw [hStep]
          trivial
        · rw [hStep]
      obtain ⟨hIndex, hRead⟩ := hChecks _ _ ⟨fault, last.ip⟩ ins hRun rfl hFetch hUnchecked
      exact (hFault.elim hIndex hRead).elim
  constructor
  · intro n
    exact (after_congr hSteps n).symm
  · intro fuel
    unfold execute
    rw [steps_congr hSteps fuel]

/-- A program that stores the handle of an array in the array and loads it again. -/
def smallAccess : Array Instruction :=
  #[⟨.make .allocI 0, 0, 1, 1⟩, ⟨.make .storeAllocI 0, 0, 0, 0⟩, ⟨.make .loadAllocI 0, 0, 0, 0⟩,
    .sentinel]

/-- With its two accesses made checked, the program comes to its normal end, so it does the
same as it stands. -/
theorem a_stored_handle_is_loaded_unchecked :
    (∀ fuel execution halt ins,
      small.execute fuel (smallAccess.map Instruction.checked) = some execution →
      execution.halt = some halt → smallAccess[halt.ip]? = some ins → ins.isUnchecked = true →
      halt.fault ≠ .indexOutOfRange ∧ halt.fault ≠ .uninitializedRead) ∧
    (∀ n, after smallAccess n small.start =
      after (smallAccess.map Instruction.checked) n small.start) ∧
    ∀ fuel, small.execute fuel smallAccess =
      small.execute fuel (smallAccess.map Instruction.checked) := by
  let array : Handle := ⟨0, 0⟩
  let made := (small.start.allocateInto 1 1 .always).advance
  let stored := (made.changeHeap (·.write array 0 (.handle array))).advance
  let loaded := (stored.writeRegister 1 (.handle array)).advance
  have hFetch : (smallAccess.map Instruction.checked) =
      #[⟨.make .allocI 0, 0, 1, 1⟩, ⟨.make .storeAllocIBound 0, 0, 0, 0⟩,
        ⟨.make .loadAllocIBound 0, 0, 0, 0⟩, .sentinel] := by decide +kernel
  have hPlans :
      small.start.plan ⟨.make .allocI 0, 0, 1, 1⟩ = .ok (.allocate 1 1 .always) ∧
      made.plan ⟨.make .storeAllocIBound 0, 0, 0, 0⟩ = .ok (.store array 0 (.handle array)) ∧
      stored.plan ⟨.make .loadAllocIBound 0, 0, 0, 0⟩ = .ok (.write 1 (.handle array)) ∧
      loaded.plan .sentinel = .ok .finish := by decide +kernel
  have hAfter : after (smallAccess.map Instruction.checked) 3 small.start = some loaded := by
    rw [hFetch]
    refine after_succ.2 ⟨made, step_of_plan rfl rfl hPlans.1, ?_⟩
    refine after_succ.2 ⟨stored, step_of_plan rfl rfl hPlans.2.1, ?_⟩
    exact after_succ.2 ⟨loaded, step_of_plan rfl rfl hPlans.2.2.1, rfl⟩
  have hFinish : loaded.step (smallAccess.map Instruction.checked) = .finished loaded.advance := by
    rw [hFetch]
    exact step_of_plan rfl rfl hPlans.2.2.2
  have hChecks : ∀ fuel execution halt ins,
      small.execute fuel (smallAccess.map Instruction.checked) = some execution →
      execution.halt = some halt → smallAccess[halt.ip]? = some ins → ins.isUnchecked = true →
      halt.fault ≠ .indexOutOfRange ∧ halt.fault ≠ .uninitializedRead := by
    intro fuel execution halt ins hRun hHalt
    obtain ⟨n, last, -, hLast, hEnds, rfl⟩ := execute_eq_some.1 hRun
    have hSame : loaded = last := end_unique hAfter hLast (by rw [hFinish]; trivial) hEnds
    rw [← hSame, hFinish] at hHalt
    cases hHalt
  exact ⟨hChecks, unchecked_access_agrees_with_checked small.config () small small make_small .refl
    smallAccess hChecks⟩

end Machine

end RegisterMachine

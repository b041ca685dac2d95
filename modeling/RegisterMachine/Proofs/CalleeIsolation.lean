-- Registers below the base. An instruction writes one register at most, the one that the operand
-- of its destination names. So as long as destinations are relative to the base, what lies below
-- every base of a run stays as it is: a callee leaves the frames of its callers alone, and a
-- stream without an absolute destination leaves the globals alone, even when it faults.
import RegisterMachine.Proofs.MachineBounds

namespace RegisterMachine

/-! ## Destinations -/

/-- The slot of the operand that names the register which an operation writes. -/
def Operation.destination? : Operation → Option Nat
  | .abort | .jump | .jumpCheck | .call | .ret
  | .storeAlloc | .storeAllocI | .storeAllocIBound | .confTrace | .dynamicConf | .dynamicConfAll
  | .stackOffset | .stackDeoffset | .free | .dynamicFree
  | .gcNewFrame | .gcTrace | .dynamicTrace | .gcClean => none
  | .move | .set | .label | .alloc | .allocI => some 0
  | .loadAllocI | .loadAllocIBound | .not | .length | .longNegate | .floatNegate => some 1
  | .foreign | .loadAlloc | .and | .or
  | .boolEqual | .charEqual | .longEqual | .floatEqual
  | .longMore | .longLess | .longMoreEqual | .longLessEqual
  | .longAdd | .longSubtract | .longMultiply | .longDivide | .longModulo | .longExponentiate
  | .floatMore | .floatLess | .floatMoreEqual | .floatLessEqual
  | .floatAdd | .floatSubtract | .floatMultiply | .floatDivide | .floatModulo
  | .floatExponentiate => some 2

/-- Whether the register that an instruction writes is counted from the bottom of the stack. -/
def Instruction.writesAbsolute (ins : Instruction) : Bool :=
  (ins.opcode.decode?.bind Operation.destination?).any fun slot =>
    ins.opcode.mode slot = .absolute

theorem Instruction.mode_of_relative {ins : Instruction} {op : Operation} {slot : Nat}
    (h : ins.writesAbsolute = false) (hDecode : ins.opcode.decode? = some op)
    (hSlot : op.destination? = some slot) : ins.opcode.mode slot = .relative := by
  simp only [writesAbsolute, hDecode, Option.bind_some, hSlot, Option.any_some,
    decide_eq_false_iff_not] at h
  cases hMode : ins.opcode.mode slot with
  | relative => rfl
  | absolute => exact absurd hMode h

theorem Operation.destination?_of_binary {op : Operation}
    {f : Value → Value → Except Fault Value} (h : op.binary? = some f) :
    op.destination? = some 2 := by
  cases op with
  | and | or | boolEqual | charEqual | longEqual | floatEqual | longMore | longLess
  | longMoreEqual | longLessEqual | longAdd | longSubtract | longMultiply | longDivide
  | longModulo | longExponentiate | floatMore | floatLess | floatMoreEqual | floatLessEqual
  | floatAdd | floatSubtract | floatMultiply | floatDivide | floatModulo
  | floatExponentiate => rfl
  | _ => cases h

theorem Operation.destination?_of_unary {op : Operation} {f : Value → Except Fault Value}
    (h : op.unary? = some f) : op.destination? = some 1 := by
  cases op with
  | not | longNegate | floatNegate => rfl
  | _ => cases h

namespace Registers

theorem base_le_of_locate {registers : Registers} {index : UInt16} {address : Nat}
    (h : registers.locate .relative index = .ok address) : registers.base ≤ address := by
  unfold locate at h
  simp only at h
  split at h
  · cases h
    exact Nat.le_add_right _ _
  · cases h

theorem getElem?_write {registers : Registers} {address other : Nat} (value : Value)
    (h : address ≠ other) :
    (registers.write address value).cells[other]? = registers.cells[other]? :=
  Array.getElem?_setIfInBounds_ne h

end Registers

namespace Machine

variable {σ : Type} {machine last : Machine σ} {code : Array Instruction} {floor address : Nat}

/-! ## What a plan writes -/

/-- The register that an effect writes is the one that the destination names. -/
def Targets (machine : Machine σ) (ins : Instruction) (op : Operation) (effect : Effect) : Prop :=
  ∀ address, written? effect = some address →
    ∃ slot, op.destination? = some slot ∧ machine.locate ins slot = .ok address

section Targets

variable {ins : Instruction} {op : Operation}

theorem targets_of_none {effect : Effect} (h : written? effect = none) :
    machine.Targets ins op effect := by
  intro address hWritten
  rw [h] at hWritten
  cases hWritten

theorem targets_of_some {effect : Effect} {target slot : Nat}
    (hTarget : machine.locate ins slot = .ok target) (hSlot : op.destination? = some slot)
    (h : written? effect = some target) : machine.Targets ins op effect := by
  intro address hWritten
  rw [h] at hWritten
  cases hWritten
  exact ⟨slot, hSlot, hTarget⟩

theorem targets_planAllocate {target slot : Nat} (hTarget : machine.locate ins slot = .ok target)
    (hSlot : op.destination? = some slot) (size mode : UInt16) :
    Gives (machine.Targets ins op) (machine.planAllocate target size mode) :=
  gives_bind fun _ _ => gives_bind fun _ _ => gives_ok (targets_of_some hTarget hSlot rfl)

theorem targets_planFree (array : Nat) :
    Gives (machine.Targets ins op) (machine.planFree array) :=
  gives_bind fun _ _ => gives_bind fun _ _ => gives_ok (targets_of_none rfl)

theorem targets_planTrace (array : Nat) :
    Gives (machine.Targets ins op) (machine.planTrace array) :=
  gives_bind fun _ _ => gives_bind fun _ _ => gives_ok (targets_of_none rfl)

theorem targets_planCompute :
    Gives (machine.Targets ins op) (machine.planCompute ins op) := by
  unfold planCompute
  split
  · rename_i hBinary
    refine gives_bind fun _ _ => gives_bind fun _ _ => gives_bind fun target hTarget => ?_
    refine gives_bind fun _ _ => gives_bind fun _ _ => gives_bind fun _ _ => gives_ok ?_
    exact targets_of_some hTarget (Operation.destination?_of_binary hBinary) rfl
  · rename_i hUnary
    refine gives_bind fun _ _ => gives_bind fun target hTarget => ?_
    refine gives_bind fun _ _ => gives_bind fun _ _ => gives_ok ?_
    exact targets_of_some hTarget (Operation.destination?_of_unary hUnary) rfl
  · exact gives_error _

/-- Every plan writes through the destination of its operation only. -/
theorem targets_planFor (machine : Machine σ) (ins : Instruction) (op : Operation) :
    Gives (machine.Targets ins op) (machine.planFor ins op) := by
  unfold planFor
  cases op with
  | abort =>
    simp only [planAbort]
    split
    · exact gives_ok (targets_of_none rfl)
    · exact gives_error _
    · exact gives_error _
  | move | set | label =>
    -- The destination is located first.
    refine gives_bind fun target hTarget => ?_
    repeat refine gives_bind fun _ _ => ?_
    exact gives_ok (targets_of_some hTarget rfl rfl)
  | alloc =>
    refine gives_bind fun target hTarget => gives_bind fun _ _ => gives_bind fun _ _ => ?_
    exact gives_bind fun _ _ => targets_planAllocate hTarget rfl _ _
  | allocI => exact gives_bind fun target hTarget => targets_planAllocate hTarget rfl _ _
  | loadAllocI | loadAllocIBound | length =>
    refine gives_bind fun _ _ => gives_bind fun target hTarget => ?_
    repeat refine gives_bind fun _ _ => ?_
    exact gives_ok (targets_of_some hTarget rfl rfl)
  | foreign | loadAlloc =>
    refine gives_bind fun _ _ => gives_bind fun _ _ => gives_bind fun target hTarget => ?_
    repeat refine gives_bind fun _ _ => ?_
    exact gives_ok (targets_of_some hTarget rfl rfl)
  | jump | call | ret | storeAlloc | storeAllocI | storeAllocIBound | confTrace | dynamicConf
  | dynamicConfAll | stackOffset | stackDeoffset | gcNewFrame | gcClean =>
    repeat refine gives_bind fun _ _ => ?_
    exact gives_ok (targets_of_none rfl)
  | jumpCheck =>
    refine gives_bind fun _ _ => gives_bind fun taken _ => gives_ok (targets_of_none ?_)
    cases taken <;> rfl
  | free => exact gives_bind fun _ _ => targets_planFree _
  | gcTrace => exact gives_bind fun _ _ => targets_planTrace _
  | dynamicFree =>
    repeat refine gives_bind fun _ _ => ?_
    split
    · exact targets_planFree _
    · exact gives_ok (targets_of_none rfl)
  | dynamicTrace =>
    repeat refine gives_bind fun _ _ => ?_
    split
    · exact targets_planTrace _
    · exact gives_ok (targets_of_none rfl)
  | _ => exact targets_planCompute

end Targets

/-! ## One instruction -/

/-- An effect changes no register but the one that it writes. -/
theorem getElem?_commit {effect : Effect} (h : written? effect ≠ some address) :
    (machine.commit effect).machine.registers.cells[address]? =
      machine.registers.cells[address]? := by
  cases effect with
  | write target value => exact Registers.getElem?_write value fun hEq => h (congrArg some hEq)
  | allocate target size mode => exact Registers.getElem?_write _ fun hEq => h (congrArg some hEq)
  | foreign id input target =>
    have hNe : target ≠ address := fun hEq => h (congrArg some hEq)
    rw [commit]
    rcases machine.callForeign_cases id input target with ⟨-, warning, hCall⟩ |
      ⟨script, world, -, ⟨value, -, hCall⟩ | ⟨reason, warning, -, hCall⟩⟩
    · rw [hCall]
      rfl
    · rw [hCall]
      exact Registers.getElem?_write value hNe
    · rw [hCall]
      rfl
  | _ => rfl

theorem step_of_unplanned {ins : Instruction} {fault : Fault}
    (hHalt : machine.haltRequested = false) (hFetch : code[machine.ip]? = some ins)
    (hPlan : machine.plan ins = .error fault) :
    machine.step code = .faulted fault none machine := by
  unfold step exec
  rw [hHalt, if_neg (by simp), hFetch]
  simp only [hPlan]

/-- The instruction that the next step executes; none when the host asked to stop. -/
def executed? (machine : Machine σ) (code : Array Instruction) : Option Instruction :=
  if machine.haltRequested then none else code[machine.ip]?

/-- The base is at `floor` or above, and the next instruction writes relative to it. -/
def WritesAbove (floor : Nat) (code : Array Instruction) (machine : Machine σ) : Prop :=
  floor ≤ machine.registers.base ∧
    ∀ ins, machine.executed? code = some ins → ins.writesAbsolute = false

theorem getElem?_step (h : machine.WritesAbove floor code) (hAddress : address < floor) :
    (machine.step code).machine.registers.cells[address]? =
      machine.registers.cells[address]? := by
  obtain ⟨hBase, hRelative⟩ := h
  by_cases hHalt : machine.haltRequested = true
  · unfold step
    rw [if_pos hHalt]
    rfl
  · rcases machine.step_cases code with ⟨fault, hStep⟩ |
      ⟨ins, op, effect, hFetch, hDecode, -, hFor, hStep⟩
    · rw [hStep]
      rfl
    · rw [hStep]
      apply getElem?_commit
      intro hWritten
      obtain ⟨slot, hSlot, hLocate⟩ := machine.targets_planFor ins op effect hFor address hWritten
      have hExecuted : machine.executed? code = some ins := by
        unfold executed?
        rw [if_neg hHalt, hFetch]
      have hMode := Instruction.mode_of_relative (hRelative ins hExecuted) hDecode hSlot
      rw [locate, hMode] at hLocate
      have hAbove := Registers.base_le_of_locate hLocate
      omega

/-! ## Segments of runs -/

/-- Before each of the first `n` instructions of a run, the base is at `floor` or above, and the
instruction writes relative to it. -/
def KeepsAbove (floor : Nat) (code : Array Instruction) (n : Nat) (machine : Machine σ) : Prop :=
  ∀ k < n, ∀ reached, after code k machine = some reached → reached.WritesAbove floor code

theorem getElem?_after {n : Nat} (h : machine.KeepsAbove floor code n)
    (hAfter : after code n machine = some last) (hAddress : address < floor) :
    last.registers.cells[address]? = machine.registers.cells[address]? := by
  induction n generalizing last with
  | zero =>
    cases hAfter
    rfl
  | succ n ih =>
    obtain ⟨before, hBefore, hStep⟩ := after_succ_last.1 hAfter
    have hLast := getElem?_step (h n (Nat.lt_succ_self n) before hBefore) hAddress
    rw [hStep] at hLast
    exact hLast.trans (ih (fun k hk => h k (Nat.lt_succ_of_lt hk)) hBefore)

/-- The unwinding after a fault keeps every register. -/
theorem cells_conclude (turn : Turn σ) :
    (conclude turn).machine.registers.cells = turn.machine.registers.cells := by
  cases turn <;> rfl

/-- A machine in use runs above its globals. -/
theorem keepsAbove_globals {config : Config} {host : σ} {first : Machine σ}
    (hMake : make config host = .ok first)
    (hReached : Relation.ReflTransGen Undergoes first machine)
    (hStream : ∀ ins ∈ code, ins.writesAbsolute = false) (n : Nat) :
    machine.start.KeepsAbove config.globalCount code n := by
  intro k _ reached hAfter
  have hLater : Relation.ReflTransGen Undergoes machine reached :=
    .head (.becomes .start) (undergoes_after hAfter)
  have hBounded := bounded_of_reached hMake (hReached.trans hLater)
  have hSizes := hBounded.sizes
  simp only [sizes, Prod.mk.injEq] at hSizes
  refine ⟨hSizes.2.1 ▸ hBounded.inBounds.base.1, ?_⟩
  intro ins hExecuted
  unfold executed? at hExecuted
  split at hExecuted
  · cases hExecuted
  · exact hStream ins (Array.mem_of_getElem? hExecuted)

/-! ## The law -/

/-- A callee leaves alone what lies below its base. Take any machine and any instructions that
go on with the next one, and then one more, which may also end the run or fault. If before each
of them the base is at `floor` or above, and none of them writes a register counted from the
bottom of the stack, the registers below `floor` hold at the end what they held at the start.
So a stream in which no destination is absolute never changes the globals of a machine in use,
at no point of its run and not by the unwinding after a fault. -/
theorem a_callee_leaves_alone_what_lies_below_its_base (code : Array Instruction) :
    (∀ (machine last : Machine σ) (floor n : Nat), after code n machine = some last →
      machine.KeepsAbove floor code (n + 1) → ∀ address < floor,
        last.registers.cells[address]? = machine.registers.cells[address]? ∧
        (last.step code).machine.registers.cells[address]? =
          machine.registers.cells[address]?) ∧
    ∀ (config : Config) (host : σ) (first machine : Machine σ), make config host = .ok first →
      Relation.ReflTransGen Undergoes first machine →
      (∀ ins ∈ code, ins.writesAbsolute = false) → ∀ address < config.globalCount,
        (∀ n last, after code n machine.start = some last →
          last.registers.cells[address]? = machine.registers.cells[address]?) ∧
        ∀ fuel execution, machine.execute fuel code = some execution →
          execution.machine.registers.cells[address]? = machine.registers.cells[address]? := by
  constructor
  · intro machine last floor n hAfter hKeeps address hAddress
    have hLast := getElem?_after (fun k hk => hKeeps k (Nat.lt_succ_of_lt hk)) hAfter hAddress
    have hStep := getElem?_step (hKeeps n (Nat.lt_succ_self n) last hAfter) hAddress
    exact ⟨hLast, hStep.trans hLast⟩
  · intro config host first machine hMake hReached hStream address hAddress
    have hKeeps := keepsAbove_globals hMake hReached hStream
    have hAfterwards (n : Nat) (last : Machine σ)
        (hAfter : after code n machine.start = some last) :
        last.registers.cells[address]? = machine.registers.cells[address]? := by
      have hLast := getElem?_after (hKeeps n) hAfter hAddress
      exact hLast
    refine ⟨hAfterwards, ?_⟩
    intro fuel execution hExecute
    obtain ⟨n, last, -, hAfter, -, rfl⟩ := execute_eq_some.1 hExecute
    have hStep := getElem?_step (hKeeps (n + 1) n (Nat.lt_succ_self n) last hAfter) hAddress
    rw [cells_conclude]
    exact hStep.trans (hAfterwards n last hAfter)

/-- Sets the only local register of the small machine, and then moves the base off the stack. -/
def smallOverrun : Array Instruction :=
  #[⟨.make .set 0, 0, 5, 0⟩, ⟨.make .stackOffset 0, 1, 0, 0⟩]

/-- The global register of the small machine holds 7; the local one is written above it, and
the run then faults, which leaves the 7 in its place. -/
theorem an_overrun_leaves_the_global_alone :
    ∃ written : Machine Unit, Relation.ReflTransGen Undergoes small written ∧
      (∀ ins ∈ smallOverrun, ins.writesAbsolute = false) ∧
      ∃ last, after smallOverrun 1 written.start = some last ∧
        written.start.KeepsAbove 1 smallOverrun 2 ∧ last.registers.cells[1]? = some (.long 5) ∧
        last.registers.cells[0]? = some (.long 7) ∧
        ∃ execution, written.execute 2 smallOverrun = some execution ∧
          execution.halt = some ⟨.stackOverflow, 1⟩ ∧
          execution.machine.registers.cells[0]? = some (.long 7) := by
  let written : Machine Unit := { small with registers := small.registers.write 0 (.long 7) }
  let last := (written.start.writeRegister 1 (.long 5)).advance
  have hSet : small.setRegister .absolute 0 (.long 7) = .ok written := rfl
  have hReached : Relation.ReflTransGen Undergoes small written :=
    .single (.becomes (.setRegister hSet))
  have hPlan : written.start.plan ⟨.make .set 0, 0, 5, 0⟩ = .ok (.write 1 (.long 5)) := by
    decide +kernel
  have hAfter : after smallOverrun 1 written.start = some last :=
    after_succ.2 ⟨last, step_of_plan rfl rfl hPlan, rfl⟩
  have hOverrun : last.plan ⟨.make .stackOffset 0, 1, 0, 0⟩ = .error .stackOverflow := by
    decide +kernel
  have hStop : last.step smallOverrun = .faulted .stackOverflow none last :=
    step_of_unplanned rfl rfl hOverrun
  have hRun : written.execute 2 smallOverrun =
      some (conclude (.faulted .stackOverflow none last)) :=
    execute_eq_some.2 ⟨1, last, by decide, hAfter, hStop ▸ trivial, by rw [hStop]⟩
  have hRelative : ∀ ins ∈ smallOverrun, ins.writesAbsolute = false := by decide +kernel
  have hKeeps : written.start.KeepsAbove 1 smallOverrun 2 :=
    keepsAbove_globals make_small hReached hRelative 2
  obtain ⟨hSegment, hStream⟩ :=
    @a_callee_leaves_alone_what_lies_below_its_base Unit smallOverrun
  have hLast := (hSegment written.start last 1 1 hAfter hKeeps 0 (by decide)).1
  have hGlobal := hStream small.config () small written make_small hReached hRelative 0 (by decide)
  exact ⟨written, hReached, hRelative, last, hAfter, hKeeps, rfl, hLast, _, hRun, rfl,
    hGlobal.2 2 _ hRun⟩

end Machine

end RegisterMachine

-- A valid program never leaves its stream. Every address that the machine holds is an
-- instruction of the stream, wherever it is held, and every instruction keeps this; so
-- every jump, call and return goes to an instruction of the stream.
import RegisterMachine.Proofs.Addresses
import RegisterMachine.Proofs.Runs
import RegisterMachine.Proofs.ValidStreams

namespace RegisterMachine

variable {σ : Type} {size : Nat}

/-! ## The plan -/

/-- The targets and the values of an effect lie inside. -/
def Effect.Inside (size : Nat) : Effect → Prop
  | .jump target | .call target => target < size
  | .write _ value | .store _ _ value => value.Inside size
  | _ => True

namespace Machine

/-- Every address that the machine holds lies in a stream of `size` instructions. -/
structure Confined (size : Nat) (machine : Machine σ) : Prop where
  registers : ∀ value ∈ machine.registers.cells, value.Inside size
  heap : machine.memory.heap.Inside size
  calls : ∀ target ∈ machine.calls, target < size

variable {machine : Machine σ} {code : Array Instruction}

theorem Confined.gives_get (h : machine.Confined size) (address : Nat) :
    Gives (·.Inside size) (machine.registers.get address) := by
  unfold Registers.get
  split
  · rename_i value hValue
    exact gives_ok (h.registers value (Array.mem_of_getElem? hValue))
  · exact gives_error _

theorem Confined.gives_address (h : machine.Confined size) (address : Nat) :
    Gives (· < size) (machine.registers.address address) := by
  refine gives_bind fun value hValue => ?_
  have hInside := h.gives_get address value hValue
  cases value with
  | address index => exact gives_ok hInside
  | _ => exact gives_error _

/-- Plans that write a value into a register. -/
theorem gives_write {result : Except Fault Value} (h : Gives (·.Inside size) result)
    (target : Nat) :
    Gives (·.Inside size) (result >>= fun value => pure (Effect.write target value)) :=
  gives_bind fun value hValue => gives_ok (h value hValue)

theorem gives_planCompute (ins : Instruction) (op : Operation) :
    Gives (·.Inside size) (machine.planCompute ins op) := by
  unfold planCompute
  rcases hBinary : op.binary? with _ | f
  · rcases hUnary : op.unary? with _ | f
    · exact gives_error _
    · refine gives_bind fun _ _ => gives_bind fun target _ => gives_bind fun x _ => ?_
      exact gives_write (Operation.gives_unary hUnary x) target
  · refine gives_bind fun _ _ => gives_bind fun _ _ => gives_bind fun target _ => ?_
    refine gives_bind fun x _ => gives_bind fun y _ => ?_
    exact gives_write (Operation.gives_binary hBinary x y) target

/-- What an instruction of a valid stream does lies inside, if what the machine holds does. -/
theorem Confined.gives_planFor (h : machine.Confined code.size) (hValid : ValidStream code)
    {i : Nat} {ins : Instruction} {op : Operation} (hFetch : code[i]? = some ins)
    (hDecode : ins.opcode.decode? = some op) :
    Gives (·.Inside code.size) (machine.planFor ins op) := by
  have hTarget := hValid.targets i ins op
  unfold planFor
  cases op with
  | abort =>
    simp only [planAbort]
    split
    · exact gives_ok trivial
    · exact gives_error _
    · exact gives_error _
  | jump => exact gives_ok (hTarget ins.a hFetch hDecode rfl)
  | jumpCheck =>
    refine gives_bind fun _ _ => gives_bind fun taken _ => gives_ok ?_
    cases taken with
    | true => trivial
    | false => exact hTarget ins.b hFetch hDecode rfl
  | label => exact gives_bind fun _ _ => gives_ok (hTarget ins.b hFetch hDecode rfl)
  | call =>
    refine gives_bind fun callee _ => gives_bind fun target hCallee => gives_bind fun _ _ => ?_
    exact gives_ok (h.gives_address callee target hCallee)
  | move =>
    refine gives_bind fun target _ => gives_bind fun source _ => ?_
    exact gives_write (h.gives_get source) target
  | set => exact gives_bind fun target _ => gives_write (gives_immediate ins.b ins.c) target
  | loadAlloc =>
    refine gives_bind fun _ _ => gives_bind fun _ _ => gives_bind fun target _ => ?_
    refine gives_bind fun handle _ => gives_bind fun index _ => ?_
    exact gives_write (Arena.gives_load h.heap handle index) target
  | loadAllocIBound =>
    refine gives_bind fun _ _ => gives_bind fun target _ => gives_bind fun handle _ => ?_
    exact gives_write (Arena.gives_load h.heap handle _) target
  | loadAllocI =>
    refine gives_bind fun _ _ => gives_bind fun target _ => gives_bind fun handle _ => ?_
    exact gives_write (Arena.gives_loadUnchecked h.heap handle _) target
  | storeAlloc =>
    refine gives_bind fun _ _ => gives_bind fun _ _ => gives_bind fun source _ => ?_
    refine gives_bind fun _ _ => gives_bind fun _ _ => gives_bind fun value hValue => ?_
    exact gives_bind fun _ _ => gives_ok (h.gives_get source value hValue)
  | storeAllocI | storeAllocIBound =>
    refine gives_bind fun _ _ => gives_bind fun source _ => gives_bind fun _ _ => ?_
    refine gives_bind fun value hValue => gives_bind fun _ _ => ?_
    exact gives_ok (h.gives_get source value hValue)
  | dynamicFree | dynamicTrace =>
    refine gives_bind fun _ _ => gives_bind fun _ _ => gives_bind fun taken _ => ?_
    cases taken with
    | true => exact gives_bind fun _ _ => gives_bind fun _ _ => gives_ok trivial
    | false => exact gives_ok trivial
  | foreign | ret | confTrace | dynamicConf | dynamicConfAll | stackOffset | stackDeoffset
  | alloc | allocI | free | gcNewFrame | gcTrace | gcClean | length =>
    repeat refine gives_bind fun _ _ => ?_
    exact gives_ok trivial
  | _ => exact gives_planCompute ins _

/-! ## One instruction -/

/-- If the next instruction enters a function of the host, that function neither stores an
address nor returns one. -/
def HostGivesNoAddress (machine : Machine σ) (code : Array Instruction) : Prop :=
  machine.HostKeeps Request.PutsNoAddress (·.isAddress = false) code

theorem Confined.writeRegister (h : machine.Confined size) {value : Value}
    (hValue : value.Inside size) (address : Nat) :
    (machine.writeRegister address value).Confined size := by
  refine ⟨?_, h.heap, h.calls⟩
  intro other hOther
  rcases Array.mem_or_eq_of_mem_setIfInBounds hOther with hOld | rfl
  · exact h.registers other hOld
  · exact hValue

theorem Confined.commit (h : machine.Confined size) (hs : machine.memory.Sound)
    {op : Operation} {effect : Effect} (hAllowed : machine.Allowed op effect)
    (hEffect : effect.Inside size) (hNext : effect ≠ .finish → machine.ip + 1 < size)
    (hHost : ∀ id input address script, effect = .foreign id input address →
      machine.foreign.script? machine.memory.heap id input = some script →
      script.GivesNoAddress machine.world) :
    (machine.commit effect).machine.Confined size := by
  cases effect with
  | finish | skip | jump _ | setBase _ | openFrame | trace _ => exact ⟨h.registers, h.heap, h.calls⟩
  | call target =>
    -- The return address is the instruction after the call, which is in the stream.
    refine ⟨h.registers, h.heap, ?_⟩
    intro saved hSaved
    rcases Array.mem_push.1 hSaved with hOld | rfl
    · exact h.calls saved hOld
    · exact hNext (by simp)
  | ret =>
    refine ⟨h.registers, h.heap, ?_⟩
    intro saved hSaved
    have hPop : saved ∈ machine.calls.pop := hSaved
    rw [← Array.mem_toList_iff, Array.toList_pop] at hPop
    exact h.calls saved (Array.mem_toList_iff.1 (List.dropLast_subset _ hPop))
  | write address value => exact ⟨(h.writeRegister hEffect address).registers, h.heap, h.calls⟩
  | store handle position value =>
    exact ⟨h.registers, Arena.inside_write h.heap hEffect handle position, h.calls⟩
  | setFlag handle position flagged =>
    refine ⟨h.registers, Arena.inside_modify h.heap ?_, h.calls⟩
    exact fun alloc hAlloc => Allocation.inside_setFlag hAlloc position flagged
  | setMode handle mode =>
    exact ⟨h.registers, Arena.inside_modify h.heap fun _ hAlloc => hAlloc, h.calls⟩
  | allocate address length mode =>
    have hHandle : (Value.handle (machine.memory.insert length mode).1).Inside size := trivial
    exact ⟨(h.writeRegister hHandle address).registers,
      Arena.inside_insert hs.heap hAllowed h.heap length mode, h.calls⟩
  | free handle => exact ⟨h.registers, Arena.inside_erase h.heap handle, h.calls⟩
  | closeFrame => exact ⟨h.registers, Memory.inside_closeFrame hs.heap h.heap, h.calls⟩
  | foreign id input address =>
    rw [Machine.commit]
    rcases machine.callForeign_cases id input address with ⟨-, warning, hCall⟩ |
      ⟨script, world, hScript, hEnd⟩
    · rw [hCall]
      exact h
    · have hRun := script.inside_run (show machine.world.memory.Sound from hs) h.heap
        (hHost id input address script rfl hScript)
      rcases hEnd with ⟨value, hEq, hCall⟩ | ⟨reason, warning, hEq, hCall⟩
      · rw [hEq] at hRun
        have hWritten := h.writeRegister (hRun.2 value rfl) address
        rw [hCall]
        exact ⟨hWritten.registers, hRun.1, h.calls⟩
      · rw [hEq] at hRun
        rw [hCall]
        exact ⟨h.registers, hRun.1, h.calls⟩

theorem Confined.ip_commit (h : machine.Confined size) (hSize : 0 < size) {effect : Effect}
    (hEffect : effect.Inside size) (hNext : effect ≠ .finish → machine.ip + 1 < size)
    {after : Machine σ} (hAfter : machine.commit effect = .next after) : after.ip < size := by
  cases effect with
  | finish => cases hAfter
  | jump target | call target =>
    cases hAfter
    exact hEffect
  | ret =>
    cases hAfter
    -- A return without a call does not get through its plan; it would go to index 0.
    rcases hBack : machine.calls.back? with _ | target
    · simpa [hBack] using hSize
    · simpa [hBack] using h.calls target (Array.mem_of_back? hBack)
  | foreign id input address =>
    rw [Machine.commit] at hAfter
    rcases machine.callForeign_cases id input address with ⟨-, warning, hCall⟩ |
      ⟨script, world, -, ⟨value, -, hCall⟩ | ⟨reason, warning, -, hCall⟩⟩
    · rw [hCall] at hAfter
      cases hAfter
    · rw [hCall] at hAfter
      cases hAfter
      exact hNext (by simp)
    · rw [hCall] at hAfter
      cases hAfter
  | _ =>
    cases hAfter
    exact hNext (by simp)

/-- The last instruction of a valid stream is the sentinel, so an instruction that does not
end the run has one behind it. -/
theorem next_inside (hValid : ValidStream code) {i : Nat} {ins : Instruction} {effect : Effect}
    (hFetch : code[i]? = some ins) (hPlan : machine.plan ins = .ok effect)
    (hEffect : effect ≠ .finish) : i + 1 < code.size := by
  have hInside := (Array.getElem?_eq_some_iff.1 hFetch).1
  by_contra hLast
  -- Then the instruction is the sentinel, and its plan is to finish.
  obtain ⟨last, hBack, hSentinel⟩ := hValid.ends
  rw [Array.back?, show code.size - 1 = i by omega, hFetch] at hBack
  cases hBack
  obtain ⟨hDecode, hStatus⟩ := Instruction.decode?_of_isSentinel hSentinel
  rw [plan, hDecode] at hPlan
  simp only [planFor, planAbort, hStatus] at hPlan
  rw [show Status.ofCode? 0 = some .clean by decide] at hPlan
  cases hPlan
  exact hEffect rfl

theorem Confined.step (h : machine.Confined code.size) (hs : machine.memory.Sound)
    (hValid : ValidStream code) (hHost : machine.HostGivesNoAddress code) :
    (machine.step code).machine.Confined code.size ∧
      ∀ after, machine.step code = .next after → after.ip < code.size := by
  rcases machine.step_cases code with ⟨fault, hStep⟩ |
    ⟨ins, op, effect, hFetch, hDecode, hPlan, hFor, hStep⟩
  · rw [hStep]
    refine ⟨h, ?_⟩
    intro after hAfter
    cases hAfter
  · have hEffect := h.gives_planFor hValid hFetch hDecode effect hFor
    have hNext := next_inside hValid hFetch hPlan
    rw [hStep]
    constructor
    · refine h.commit hs (machine.plans_planFor ins op effect hFor) hEffect hNext ?_
      rintro id input address script rfl hScript
      exact hHost script ((entered?_of_plan hFetch hPlan).trans hScript)
    · intro after hAfter
      have hFetched := (Array.getElem?_eq_some_iff.1 hFetch).1
      exact h.ip_commit (by omega) hEffect hNext hAfter

/-! ## Whole runs -/

theorem confined_fresh (config : Config) (host : σ) : (fresh config host).Confined size := by
  refine ⟨?_, ?_, ?_⟩
  · intro value hValue
    obtain ⟨-, rfl⟩ := Array.mem_replicate.1 hValue
    trivial
  · intro handle alloc hGet
    simp [fresh, Memory.make, Arena.get?] at hGet
  · simp [fresh]

theorem inside_copyConstants (constants : List Constant) (address : Nat) {registers : Registers}
    (h : ∀ value ∈ registers.cells, value.Inside size) :
    ∀ value ∈ (copyConstants registers address constants).cells, value.Inside size := by
  induction constants generalizing address registers with
  | nil => exact h
  | cons constant constants ih =>
    apply ih
    intro value hValue
    rcases Array.mem_or_eq_of_mem_setIfInBounds hValue with hOld | rfl
    · exact h value hOld
    · exact Value.inside_ofConstant constant

theorem Confined.load (h : machine.Confined size) {program : Program} {loaded : Machine σ}
    (hLoad : machine.load program = .ok loaded) : loaded.Confined size := by
  unfold Machine.load at hLoad
  split at hLoad
  · cases hLoad
  · cases hLoad
    exact ⟨inside_copyConstants _ _ h.registers, h.heap, h.calls⟩

/-- What the first instructions of a run keep, when the host gives no address to them. -/
theorem Confined.after (h : machine.Confined code.size) (hIp : machine.ip < code.size)
    (hs : machine.memory.Sound) (hValid : ValidStream code) {n : Nat} {last : Machine σ}
    (hHost : ∀ k before, k < n → after code k machine = some before →
      before.HostGivesNoAddress code)
    (hAfter : after code n machine = some last) :
    last.Confined code.size ∧ last.ip < code.size := by
  induction n generalizing last with
  | zero =>
    cases hAfter
    exact ⟨h, hIp⟩
  | succ n ih =>
    obtain ⟨before, hBefore, hStep⟩ := after_succ_last.1 hAfter
    obtain ⟨hConfined, -⟩ := ih (fun k before hk => hHost k before (by omega)) hBefore
    have hKept := hConfined.step (sound_after hs hBefore) hValid
      (hHost n before (by omega) hBefore)
    rw [hStep] at hKept
    exact ⟨hKept.1, hKept.2 last rfl⟩

theorem Confined.conclude {turn : Turn σ} (h : turn.machine.Confined size)
    (hs : turn.machine.memory.Sound) : (conclude turn).machine.Confined size := by
  cases turn with
  | next machine | finished machine => exact ⟨h.registers, h.heap, h.calls⟩
  | faulted fault warning machine =>
    refine ⟨h.registers, Memory.inside_closeFrames _ _ hs h.heap, ?_⟩
    simp [Machine.conclude, stop, unwind]

/-- An internal fault inside a valid stream comes from the plan of a legal instruction. -/
theorem planFor_of_internal (hValid : ValidStream code) (hIp : machine.ip < code.size)
    {warning : Option String} {stopped : Machine σ}
    (h : machine.step code = .faulted .internal warning stopped) :
    stopped = machine ∧ ∃ ins op, code[machine.ip]? = some ins ∧ ins.opcode.decode? = some op ∧
      machine.planFor ins op = .error .internal := by
  rcases faulted_cases h with ⟨-, hFault, -⟩ | ⟨-, ⟨hNone, -, -⟩ |
    ⟨ins, hFetch, ⟨hPlan, rfl⟩ | ⟨id, input, address, -, hCalled⟩⟩⟩
  · cases hFault
  · rw [Array.getElem?_eq_getElem hIp] at hNone
    cases hNone
  · obtain ⟨op, hDecode⟩ := hValid.legal _ ins hFetch
    rw [plan, hDecode] at hPlan
    exact ⟨rfl, ins, op, hFetch, hDecode, hPlan⟩
  · rcases machine.callForeign_cases id input address with ⟨-, _, hCall⟩ |
      ⟨script, world, -, ⟨value, -, hCall⟩ | ⟨reason, _, -, hCall⟩⟩
    all_goals
      rw [hCall] at hCalled
      cases hCalled

/-- For as long as the functions of the host neither store nor return an address: every
instruction that is fetched lies in the stream and is legal, and so does every address that
the machine holds. So an internal fault is always one of a legal instruction. -/
theorem a_valid_program_stays_in_its_stream (program : Program) (hAccepted : program.Accepted)
    (config : Config) (host : σ) (table : ForeignTable σ) (first loaded : Machine σ)
    (hMake : make config host = .ok first)
    (hLoad : (first.withTable table).load program = .ok loaded) (fuel : Nat)
    (hHost : ∀ n machine, n < fuel →
      after program.instructions n loaded.start = some machine →
      machine.HostGivesNoAddress program.instructions) :
    (∀ n machine, n ≤ fuel → after program.instructions n loaded.start = some machine →
      machine.ip < program.instructions.size ∧
        (∃ op, machine.fetched? program.instructions = some op) ∧
        machine.Confined program.instructions.size) ∧
    ∀ execution, loaded.run fuel program = some execution →
      execution.machine.Confined program.instructions.size ∧
        ∀ ip, execution.halt = some ⟨.internal, ip⟩ →
          ∃ n before ins op, after program.instructions n loaded.start = some before ∧
            before.ip = ip ∧ program.instructions[ip]? = some ins ∧
            ins.opcode.decode? = some op ∧ before.planFor ins op = .error .internal := by
  have hValid := hAccepted.validStream
  have hFresh : (first.withTable table).Confined program.instructions.size := by
    rw [(make_eq_ok.1 hMake).2]
    obtain ⟨hRegisters, hHeap, hCalls⟩ := confined_fresh config host
    exact ⟨hRegisters, hHeap, hCalls⟩
  have hLoaded := hFresh.load hLoad
  have hStart : loaded.start.Confined program.instructions.size :=
    ⟨hLoaded.registers, hLoaded.heap, by simp [start]⟩
  have hIp : loaded.start.ip < program.instructions.size := by
    obtain ⟨last, hBack, -⟩ := hValid.ends
    have hMem := Array.size_pos_of_mem (Array.mem_of_back? hBack)
    exact hMem
  have hs : loaded.start.memory.Sound := by
    have hReached : Relation.ReflTransGen Undergoes (first.withTable table) loaded.start :=
      .tail (.single (.becomes (.load hLoad))) (.becomes .start)
    refine sound_of_reached ?_ hReached
    rw [show (first.withTable table).memory = first.memory from rfl, memory_make hMake]
    exact Memory.sound_make _ _ _
  constructor
  · intro n machine hn hAfter
    obtain ⟨hConfined, hInside⟩ := hStart.after hIp hs hValid
      (fun k before hk => hHost k before (by omega)) hAfter
    have hFetch := Array.getElem?_eq_getElem hInside
    obtain ⟨op, hDecode⟩ := hValid.legal _ _ hFetch
    refine ⟨hInside, ⟨op, ?_⟩, hConfined⟩
    simp [fetched?, hFetch, hDecode]
  · intro execution hRun
    obtain ⟨n, last, hn, hAfter, hEnds, rfl⟩ := execute_eq_some.1 hRun
    obtain ⟨hConfined, hInside⟩ := hStart.after hIp hs hValid
      (fun k before hk => hHost k before (by omega)) hAfter
    have hLast := sound_after hs hAfter
    constructor
    · have hKept := hConfined.step hLast hValid (hHost n last hn hAfter)
      exact hKept.1.conclude ((moves_step hLast _).sound hLast)
    · intro ip hHalt
      rcases hStep : last.step program.instructions with next | ended | ⟨fault, warning, stopped⟩
      · rw [hStep] at hHalt
        cases hHalt
      · rw [hStep] at hHalt
        cases hHalt
      · rw [hStep] at hHalt
        cases hHalt
        obtain ⟨rfl, ins, op, hFetch, hDecode, hPlan⟩ := planFor_of_internal hValid hInside hStep
        exact ⟨n, stopped, ins, op, hAfter, rfl, hFetch, hDecode, hPlan⟩

/-- A program that calls the function of the host, and then its own last instruction. -/
def smallJump : Program where
  header := {}
  constants := #[.long 0]
  instructions :=
    #[⟨.make .foreign 1, 0, 0, 0⟩, ⟨.make .label 1, 0, 3, 0⟩, ⟨.make .call 1, 0, 0, 0⟩, .sentinel]

/-- The call goes to the last instruction, which is also the one after the call. -/
theorem a_call_of_the_last_instruction_stays_inside :
    smallJump.Accepted ∧
    ∃ loaded, (small.withTable { functions := #[boxing] }).load smallJump = .ok loaded ∧
      (∀ n machine, n < 5 → after smallJump.instructions n loaded.start = some machine →
        machine.HostGivesNoAddress smallJump.instructions) ∧
      ∃ machine, after smallJump.instructions 3 loaded.start = some machine ∧
        machine.registers.cells[0]? = some (.address 3) ∧ machine.calls = #[3] ∧
        machine.ip < smallJump.instructions.size ∧
        (∃ op, machine.fetched? smallJump.instructions = some op) ∧
        machine.Confined smallJump.instructions.size := by
  have hMade : Program.make smallJump.header smallJump.constants smallJump.instructions =
      .ok smallJump := by decide +kernel
  have hAccepted : smallJump.Accepted := .make hMade
  let loaded : Machine Unit :=
    { small with
      foreign := { functions := #[boxing] }
      registers := small.registers.write 0 (.long 0) }
  have hHost : ∀ n machine, n < 5 → after smallJump.instructions n loaded.start = some machine →
      machine.HostGivesNoAddress smallJump.instructions := by
    intro n machine _ hAfter
    refine hostKeeps_after ?_ hAfter
    intro function hFunction input world
    have hOnly : function ∈ #[boxing] := hFunction
    obtain rfl : function = boxing := by simpa using hOnly
    apply keeps_boxing
    · simp [Request.PutsNoAddress, Request.stored?]
    · simp [Request.PutsNoAddress, Request.stored?, Value.isAddress]
    · simp [Value.isAddress]
  let boxed := (loaded.start.commit (.foreign 0 .zero 1)).machine
  let labelled := (boxed.writeRegister 0 (.address 3)).advance
  let called : Machine Unit := { labelled with calls := #[3], ip := 3 }
  have hPlans :
      loaded.start.plan ⟨.make .foreign 1, 0, 0, 0⟩ = .ok (.foreign 0 .zero 1) ∧
      boxed.plan ⟨.make .label 1, 0, 3, 0⟩ = .ok (.write 0 (.address 3)) ∧
      labelled.plan ⟨.make .call 1, 0, 0, 0⟩ = .ok (.call 3) := by decide +kernel
  have hGoes : boxed.haltRequested = false ∧ labelled.haltRequested = false := by decide +kernel
  have hFetches : smallJump.instructions[boxed.ip]? = some ⟨.make .label 1, 0, 3, 0⟩ ∧
      smallJump.instructions[labelled.ip]? = some ⟨.make .call 1, 0, 0, 0⟩ := by decide +kernel
  have hAfter : after smallJump.instructions 3 loaded.start = some called := by
    refine after_succ.2 ⟨boxed, step_of_plan rfl rfl hPlans.1, ?_⟩
    refine after_succ.2 ⟨labelled, step_of_plan hGoes.1 hFetches.1 hPlans.2.1, ?_⟩
    exact after_succ.2 ⟨called, step_of_plan hGoes.2 hFetches.2 hPlans.2.2, rfl⟩
  have hInside := a_valid_program_stays_in_its_stream smallJump hAccepted small.config ()
    { functions := #[boxing] } small loaded make_small rfl 5 hHost
  exact ⟨hAccepted, loaded, rfl, hHost, called, hAfter, rfl, rfl,
    hInside.1 3 called (by decide) hAfter⟩

end Machine

end RegisterMachine

-- Calls into the host, one by one. A call is refused, or it enters a function; the
-- function then changes its world as its requests say, and the machine gets that world
-- back whether the function has a result or fails.
import RegisterMachine.Proofs.MachineSteps

namespace RegisterMachine

variable {σ : Type}

/-! ## Entering a function -/

/-- The requests of the function that a call enters. A call with an unknown id, or with an
input that the function does not accept, enters none. -/
def ForeignTable.script? (table : ForeignTable σ) (heap : Arena) (id : Int64) (input : Value) :
    Option (Script σ Value) :=
  match table.get? id with
  | none => none
  | some function => if accepts heap function input then some (function.body input) else none

theorem ForeignTable.script?_eq_some {table : ForeignTable σ} {heap : Arena} {id : Int64}
    {input : Value} {script : Script σ Value} (h : table.script? heap id input = some script) :
    ∃ function ∈ table.functions, script = function.body input := by
  unfold script? at h
  rcases hGet : table.get? id with _ | function
  · rw [hGet] at h
    cases h
  · simp only [hGet, Option.ite_none_right_eq_some] at h
    obtain ⟨-, hScript⟩ := h
    cases hScript
    unfold get? at hGet
    split at hGet
    · exact ⟨function, Array.mem_of_getElem? hGet, rfl⟩
    · cases hGet

/-- What a call gives, and what it leaves behind. -/
theorem ForeignTable.invoke_cases (table : ForeignTable σ) (world : World σ) (id : Int64)
    (input : Value) :
    (table.script? world.memory.heap id input = none ∧
      ∃ warning, table.invoke world id input = (.error warning, world)) ∨
    ∃ script, table.script? world.memory.heap id input = some script ∧
      table.invoke world id input =
        ((script.run world).1.mapError fun reason =>
          s!"foreign call {id.toInt} failed: {reason}", (script.run world).2) := by
  unfold script? invoke
  rcases table.get? id with _ | function
  · exact Or.inl ⟨rfl, _, rfl⟩
  · by_cases hAccepts : accepts world.memory.heap function input = true
    · simp only [hAccepts, if_true]
      exact Or.inr ⟨_, rfl, rfl⟩
    · simp only [hAccepts]
      exact Or.inl ⟨rfl, _, rfl⟩

/-- When it is run in `world`, the script makes `allowed` requests only, and a result that it
has is a `good` one. -/
def Script.Keeps {α : Type} (allowed : Request σ → Prop) (good : α → Prop) :
    Script σ α → World σ → Prop
  | .done result, _ => good result
  | .fail _, _ => True
  | .ask request next, world =>
    allowed request ∧ (next (world.answer request).1).Keeps allowed good (world.answer request).2

/-- A host function to look at: it makes an array and stores a number in it. -/
def boxing : HostFunction σ where
  body _ := .ask (.allocate 1 .always) fun (reply : Except Fault Handle) =>
    match reply with
    | .error _ => .fail "no room"
    | .ok handle => .ask (.store handle 0 (.long 7)) fun _ => .done (.handle handle)

theorem keeps_boxing {allowed : Request σ → Prop} {good : Value → Prop}
    (hAllocate : allowed (.allocate 1 .always))
    (hStore : ∀ handle, allowed (.store handle 0 (.long 7)))
    (hGood : ∀ handle, good (.handle handle)) (input : Value) (world : World σ) :
    (boxing.body input).Keeps allowed good world := by
  refine ⟨hAllocate, ?_⟩
  generalize (world.answer (.allocate 1 .always)).1 = reply
  rcases (reply : Except Fault Handle) with fault | handle
  · trivial
  · exact ⟨hStore handle, hGood handle⟩

namespace Machine

/-- What a function of the host finds. -/
def world (machine : Machine σ) : World σ :=
  ⟨machine.memory, machine.haltRequested, machine.host⟩

/-- The machine with what a function of the host has left. -/
def withWorld (machine : Machine σ) (world : World σ) : Machine σ :=
  { machine with
    memory := world.memory
    haltRequested := world.haltRequested
    host := world.host }

/-- The machine with a table of host functions. -/
def withTable (machine : Machine σ) (table : ForeignTable σ) : Machine σ :=
  { machine with foreign := table }

/-- The requests of the host function that the next instruction enters, if it enters one. -/
def entered? (machine : Machine σ) (code : Array Instruction) : Option (Script σ Value) :=
  match code[machine.ip]?.map machine.plan with
  | some (.ok (.foreign id input _)) => machine.foreign.script? machine.memory.heap id input
  | _ => none

/-- If the next instruction enters a function of the host, that function keeps to the
`allowed` requests and to `good` results. -/
def HostKeeps (allowed : Request σ → Prop) (good : Value → Prop) (machine : Machine σ)
    (code : Array Instruction) : Prop :=
  ∀ script, machine.entered? code = some script → script.Keeps allowed good machine.world

/-! ## The three ends of a call -/

theorem callForeign_eq (machine : Machine σ) (id : Int64) (input : Value) (address : Nat) :
    machine.callForeign id input address =
      match (machine.foreign.invoke machine.world id input).1 with
      | .ok value =>
        .next ((machine.withWorld (machine.foreign.invoke machine.world id input).2).writeRegister
          address value).advance
      | .error warning =>
        .faulted .foreign (some warning)
          (machine.withWorld (machine.foreign.invoke machine.world id input).2) := rfl

/-- How a call ends: it is refused, or its function has a result, or its function fails. -/
theorem callForeign_cases (machine : Machine σ) (id : Int64) (input : Value) (address : Nat) :
    (machine.foreign.script? machine.memory.heap id input = none ∧
      ∃ warning, machine.callForeign id input address =
        .faulted .foreign (some warning) machine) ∨
    ∃ script world, machine.foreign.script? machine.memory.heap id input = some script ∧
      ((∃ value, script.run machine.world = (.ok value, world) ∧
          machine.callForeign id input address =
            .next ((machine.withWorld world).writeRegister address value).advance) ∨
        ∃ reason warning, script.run machine.world = (.error reason, world) ∧
          machine.callForeign id input address =
            .faulted .foreign (some warning) (machine.withWorld world)) := by
  rw [callForeign_eq]
  rcases machine.foreign.invoke_cases machine.world id input with
    ⟨hNone, warning, hInvoke⟩ | ⟨script, hScript, hInvoke⟩
  · rw [hInvoke]
    exact Or.inl ⟨hNone, warning, rfl⟩
  · refine Or.inr ⟨script, (script.run machine.world).2, hScript, ?_⟩
    rw [hInvoke]
    rcases hRun : script.run machine.world with ⟨reason | value, world⟩
    · exact Or.inr ⟨reason, _, rfl, rfl⟩
    · exact Or.inl ⟨value, rfl, rfl⟩

/-- Why an instruction faults: the host asked to stop, or there is no instruction, or its plan
has the fault, or it has called the host and the call has failed. -/
theorem faulted_cases {machine stopped : Machine σ} {code : Array Instruction} {fault : Fault}
    {warning : Option String} (h : machine.step code = .faulted fault warning stopped) :
    machine.haltRequested = true ∧ fault = .cancelled ∧ stopped = machine ∨
    machine.haltRequested = false ∧
      (code[machine.ip]? = none ∧ fault = .internal ∧ stopped = machine ∨
        ∃ ins, code[machine.ip]? = some ins ∧
          (machine.plan ins = .error fault ∧ stopped = machine ∨
            ∃ id input address, machine.plan ins = .ok (.foreign id input address) ∧
              machine.callForeign id input address = .faulted fault warning stopped)) := by
  unfold step at h
  by_cases hAsked : machine.haltRequested = true
  · rw [if_pos hAsked] at h
    cases h
    exact Or.inl ⟨hAsked, rfl, rfl⟩
  · rw [if_neg hAsked] at h
    refine Or.inr ⟨by simpa using hAsked, ?_⟩
    rcases hFetch : code[machine.ip]? with _ | ins
    · rw [hFetch] at h
      cases h
      exact Or.inl ⟨rfl, rfl, rfl⟩
    · rw [hFetch] at h
      simp only [exec] at h
      refine Or.inr ⟨ins, rfl, ?_⟩
      rcases hPlan : machine.plan ins with cause | effect
      · rw [hPlan] at h
        cases h
        exact Or.inl ⟨rfl, rfl⟩
      · rw [hPlan] at h
        cases effect with
        | foreign id input address => exact Or.inr ⟨id, input, address, rfl, h⟩
        | _ => cases h

theorem entered?_of_plan {machine : Machine σ} {code : Array Instruction} {ins : Instruction}
    {id : Int64} {input : Value} {address : Nat} (hFetch : code[machine.ip]? = some ins)
    (hPlan : machine.plan ins = .ok (.foreign id input address)) :
    machine.entered? code = machine.foreign.script? machine.memory.heap id input := by
  unfold entered?
  rw [hFetch, Option.map_some, hPlan]

theorem script?_of_entered? {machine : Machine σ} {code : Array Instruction}
    {script : Script σ Value} (h : machine.entered? code = some script) :
    ∃ id input, machine.foreign.script? machine.memory.heap id input = some script := by
  unfold entered? at h
  split at h
  · exact ⟨_, _, h⟩
  · cases h

/-! ## The table -/

theorem foreign_commit (machine : Machine σ) (effect : Effect) :
    (machine.commit effect).machine.foreign = machine.foreign := by
  cases effect with
  | foreign id input address =>
    rw [commit]
    rcases machine.callForeign_cases id input address with ⟨-, warning, hCall⟩ |
      ⟨script, world, -, ⟨value, -, hCall⟩ | ⟨reason, warning, -, hCall⟩⟩
    all_goals
      rw [hCall]
      rfl
  | _ => rfl

/-- No instruction changes the table of host functions. -/
theorem foreign_step (machine : Machine σ) (code : Array Instruction) :
    (machine.step code).machine.foreign = machine.foreign := by
  rcases machine.step_cases code with ⟨fault, hStep⟩ | ⟨_, _, effect, _, _, _, _, hStep⟩
  · rw [hStep]
    rfl
  · rw [hStep]
    exact machine.foreign_commit effect

end Machine

end RegisterMachine

-- What the steps of a machine do to its memory. An instruction is planned before it
-- is carried out, so its effect meets a memory that allows it; a function of the host
-- only makes requests; and a fault closes every open frame.
import RegisterMachine.Machine.Run
import RegisterMachine.Proofs.MemoryTurns

namespace RegisterMachine

/-! ## Functions of the host -/

section Host

variable {σ : Type}

open Memory Relation

theorem World.serves_changeHeap {world : World σ} {handle : Handle} {α : Type}
    {checked : Except Fault α} {change : α → Allocation → Allocation}
    (hSound : ∀ value, (world.memory.heap.modify handle (change value)).Sound) :
    Serves world.memory (world.changeHeap (checked.map fun value heap =>
      heap.modify handle (change value))).2.memory := by
  cases checked with
  | error fault => exact .same
  | ok value => exact .modify (hSound value)

/-- Every request is served by a write or by an allocation, or changes nothing. -/
theorem World.serves_answer (world : World σ) (hs : world.memory.heap.Sound)
    (request : Request σ) : Serves world.memory (world.answer request).2.memory := by
  cases request with
  | allocate size mode =>
    unfold answer
    by_cases hFull : world.memory.heap.isFull = true
    · simp only [hFull, if_true]
      exact .same
    · simp only [hFull]
      exact .allocate (by simpa using hFull)
  | store handle index value => exact serves_changeHeap fun _ => Arena.sound_write hs _ _ _
  | storeUnchecked handle index value =>
    exact serves_changeHeap fun _ => Arena.sound_write hs _ _ _
  | setFlag handle index flagged => exact serves_changeHeap fun _ => Arena.sound_setFlag hs _ _ _
  | setMode handle mode => exact serves_changeHeap fun _ => Arena.sound_setMode hs _ _
  | _ => exact .same

theorem Script.served_run {α : Type} (script : Script σ α) {world : World σ}
    (hs : world.memory.Sound) :
    ReflTransGen Serves world.memory (script.run world).2.memory := by
  induction script generalizing world with
  | done _ => exact .refl
  | fail _ => exact .refl
  | ask request next ih =>
    have hServes := world.serves_answer hs.heap request
    have hSound := (hServes.turns hs.heap fun _ => True).sound hs
    exact .head hServes (ih (world.answer request).1 hSound)

theorem ForeignTable.served_invoke (table : ForeignTable σ) {world : World σ}
    (hs : world.memory.Sound) (id : Int64) (input : Value) :
    ReflTransGen Serves world.memory (table.invoke world id input).2.memory := by
  unfold invoke
  split
  · exact .refl
  · rename_i function _
    split
    · exact (function.body input).served_run hs
    · exact .refl

end Host

/-! ## Results that are good -/

/-- A result that comes out is a good one. -/
def Gives {α : Type} (good : α → Prop) (result : Except Fault α) : Prop :=
  ∀ value, result = .ok value → good value

section Gives

variable {α β : Type} {good : α → Prop}

theorem gives_ok {value : α} (h : good value) : Gives good (.ok value) := by
  intro other hValue
  cases hValue
  exact h

theorem gives_error (fault : Fault) : Gives good (.error fault) := by
  intro value hValue
  cases hValue

theorem gives_bind {first : Except Fault β} {second : β → Except Fault α}
    (h : ∀ value, first = .ok value → Gives good (second value)) :
    Gives good (first >>= second) := by
  intro result hResult
  obtain ⟨value, hFirst, hSecond⟩ := Arena.bind_eq_ok.1 hResult
  exact h value hFirst result hSecond

end Gives

namespace Machine

variable {σ : Type}

/-! ## The plan -/

/-- What a plan has made sure of, before its effect is carried out, and which operations
free allocations and open and close frames. -/
def Allowed (machine : Machine σ) (op : Operation) : Effect → Prop
  | .store handle .. | .setFlag handle .. | .setMode handle _ | .trace handle =>
    machine.memory.heap.contains handle = true
  | .allocate .. => machine.memory.heap.isFull = false
  | .free handle =>
    machine.memory.heap.contains handle = true ∧ (op = .free ∨ op = .dynamicFree)
  | .openFrame => machine.memory.collector.canOpen = true ∧ op = .gcNewFrame
  | .closeFrame => machine.memory.collector.frames.isEmpty = false ∧ op = .gcClean
  | _ => True

/-- A plan of an operation that comes out comes out with an allowed effect. -/
def Plans (machine : Machine σ) (op : Operation) (plan : Except Fault Effect) : Prop :=
  ∀ effect, plan = .ok effect → machine.Allowed op effect

variable {machine : Machine σ} {op : Operation}

theorem plans_ok {effect : Effect} (h : machine.Allowed op effect) :
    machine.Plans op (.ok effect) :=
  gives_ok h

theorem plans_error (fault : Fault) : machine.Plans op (.error fault) :=
  gives_error fault

theorem plans_bind {α : Type} {first : Except Fault α} {second : α → Except Fault Effect}
    (h : ∀ value, first = .ok value → machine.Plans op (second value)) :
    machine.Plans op (first >>= second) :=
  gives_bind h

theorem require_eq_ok {condition : Bool} {fault : Fault} {u : Unit} :
    require condition fault = .ok u ↔ condition = true := by
  unfold require
  cases condition <;> simp

theorem plans_planAbort (code : UInt16) : machine.Plans op (planAbort code) := by
  unfold planAbort
  split
  · exact plans_ok trivial
  · exact plans_error _
  · exact plans_error _

theorem plans_planAllocate (address : Nat) (size mode : UInt16) :
    machine.Plans op (machine.planAllocate address size mode) := by
  unfold planAllocate
  refine plans_bind fun _ _ => plans_bind fun _ hFull => plans_ok ?_
  simpa [Allowed] using require_eq_ok.1 hFull

theorem plans_planFree (hOp : op = .free ∨ op = .dynamicFree) (address : Nat) :
    machine.Plans op (machine.planFree address) := by
  unfold planFree
  refine plans_bind fun _ _ => plans_bind fun _ hLive => plans_ok ?_
  exact ⟨require_eq_ok.1 hLive, hOp⟩

theorem plans_planTrace (address : Nat) : machine.Plans op (machine.planTrace address) := by
  unfold planTrace
  exact plans_bind fun _ _ => plans_bind fun _ hLive => plans_ok (require_eq_ok.1 hLive)

theorem plans_planCompute (ins : Instruction) :
    machine.Plans op (machine.planCompute ins op) := by
  unfold planCompute
  split
  · unfold planBinary
    refine plans_bind fun _ _ => plans_bind fun _ _ => plans_bind fun _ _ => ?_
    exact plans_bind fun _ _ => plans_bind fun _ _ => plans_bind fun _ _ => plans_ok trivial
  · unfold planUnary
    refine plans_bind fun _ _ => plans_bind fun _ _ => ?_
    exact plans_bind fun _ _ => plans_bind fun _ _ => plans_ok trivial
  · exact plans_error _

theorem plans_planFor (machine : Machine σ) (ins : Instruction) (op : Operation) :
    machine.Plans op (machine.planFor ins op) := by
  unfold planFor
  cases op with
  | abort => exact plans_planAbort ins.a
  | foreign | move | set | jump | call | ret | label | loadAlloc | loadAllocI | loadAllocIBound
  | stackOffset | stackDeoffset | length =>
    repeat refine plans_bind fun _ _ => ?_
    exact plans_ok trivial
  | jumpCheck =>
    refine plans_bind fun _ _ => plans_bind fun taken _ => plans_ok ?_
    cases taken <;> trivial
  | storeAlloc | storeAllocIBound | confTrace | dynamicConf =>
    -- The position is found last, in a live allocation.
    repeat refine plans_bind fun _ hLast => ?_
    exact plans_ok (Arena.contains_of_position hLast)
  | storeAllocI =>
    repeat refine plans_bind fun _ hLast => ?_
    exact plans_ok (Arena.contains_of_positionUnchecked hLast)
  | dynamicConfAll =>
    repeat refine plans_bind fun _ hLast => ?_
    exact plans_ok (require_eq_ok.1 hLast)
  | alloc =>
    refine plans_bind fun _ _ => plans_bind fun _ _ => plans_bind fun _ _ => ?_
    exact plans_bind fun _ _ => plans_planAllocate _ _ _
  | allocI => exact plans_bind fun _ _ => plans_planAllocate _ _ _
  | free => exact plans_bind fun _ _ => plans_planFree (Or.inl rfl) _
  | gcTrace => exact plans_bind fun _ _ => plans_planTrace _
  | dynamicFree =>
    repeat refine plans_bind fun _ _ => ?_
    split
    · exact plans_planFree (Or.inr rfl) _
    · exact plans_ok trivial
  | dynamicTrace =>
    repeat refine plans_bind fun _ _ => ?_
    split
    · exact plans_planTrace _
    · exact plans_ok trivial
  | gcNewFrame => exact plans_bind fun _ hRoom => plans_ok ⟨require_eq_ok.1 hRoom, rfl⟩
  | gcClean =>
    refine plans_bind fun _ hOpen => plans_ok ⟨?_, rfl⟩
    simpa using require_eq_ok.1 hOpen
  | _ => exact plans_planCompute ins

/-! ## One instruction -/

/-- The operation that comes next. -/
def fetched? (machine : Machine σ) (code : Array Instruction) : Option Operation :=
  code[machine.ip]?.bind fun ins => ins.opcode.decode?

/-- The next instruction frees the allocation of a handle. -/
def Frees (machine : Machine σ) (code : Array Instruction) (handle : Handle) : Prop :=
  (machine.fetched? code = some .free ∨ machine.fetched? code = some .dynamicFree) ∧
    ∃ ins, code[machine.ip]? = some ins ∧ machine.plan ins = .ok (.free handle)

end Machine

/-- The machine at the end of a turn. -/
def Turn.machine {σ : Type} : Turn σ → Machine σ
  | .next machine | .finished machine | .faulted _ _ machine => machine

namespace Machine

open Memory

variable {σ : Type} {machine : Machine σ}

theorem served_callForeign (hs : machine.memory.Sound) (id : Int64) (input : Value)
    (address : Nat) :
    Relation.ReflTransGen Serves machine.memory
      (machine.callForeign id input address).machine.memory := by
  let world : World σ := ⟨machine.memory, machine.haltRequested, machine.host⟩
  have hServed := machine.foreign.served_invoke (show world.memory.Sound from hs) id input
  unfold callForeign
  simp only
  split <;> exact hServed

theorem moves_commit (hs : machine.memory.Sound) {op : Operation} {effect : Effect}
    (h : machine.Allowed op effect) :
    Moves (fun handle => effect = .free handle) machine.memory
      (machine.commit effect).machine.memory := by
  cases effect with
  | finish | skip | jump _ | call _ | ret | write _ _ | setBase _ =>
    exact (turns_same hs.heap).moves
  | store handle position value => exact (turns_modify (Arena.sound_write hs.heap _ _ _)).moves
  | setFlag handle position flagged =>
    exact (turns_modify (Arena.sound_setFlag hs.heap _ _ _)).moves
  | setMode handle mode => exact (turns_modify (Arena.sound_setMode hs.heap _ _)).moves
  | allocate address size mode => exact (Turns.allocate h).moves
  | free handle =>
    have hFree : Turns (fun other => Effect.free handle = .free other) machine.memory
        (machine.memory.free handle) := turns_free hs.heap rfl
    exact hFree.moves
  | openFrame => exact Turns.openFrame.moves
  | trace handle => exact (turns_addTrace hs.heap h).moves
  | closeFrame =>
    obtain ⟨closed, hBack⟩ := Collector.back?_of_isEmpty h.1
    exact (Turns.closeFrame hBack).moves
  | foreign id input address =>
    exact ⟨_, served_callForeign hs id input address,
      turns_same (sound_of_served (served_callForeign hs id input address) hs).heap⟩

/-- An instruction whose plan comes out is carried out; any other one changes nothing. -/
theorem step_cases (machine : Machine σ) (code : Array Instruction) :
    (∃ fault, machine.step code = .faulted fault none machine) ∨
    ∃ ins op effect, code[machine.ip]? = some ins ∧ ins.opcode.decode? = some op ∧
      machine.plan ins = .ok effect ∧ machine.planFor ins op = .ok effect ∧
      machine.step code = machine.commit effect := by
  unfold step
  split
  · exact Or.inl ⟨_, rfl⟩
  · split
    · rename_i ins hFetch
      unfold exec
      rcases hPlan : machine.plan ins with fault | effect
      · exact Or.inl ⟨fault, rfl⟩
      · have hFor := hPlan
        unfold plan at hFor
        split at hFor
        · rename_i op hDecode
          exact Or.inr ⟨ins, op, effect, hFetch, hDecode, hPlan, hFor, rfl⟩
        · cases hFor
    · exact Or.inl ⟨_, rfl⟩

theorem step_of_plan {code : Array Instruction} {ins : Instruction} {effect : Effect}
    (hHalt : machine.haltRequested = false) (hFetch : code[machine.ip]? = some ins)
    (hPlan : machine.plan ins = .ok effect) : machine.step code = machine.commit effect := by
  unfold step exec
  rw [hHalt, if_neg (by simp), hFetch]
  simp only [hPlan]

theorem next_of_plan {code : Array Instruction} {ins : Instruction} {effect : Effect}
    {after : Machine σ} (hHalt : machine.haltRequested = false)
    (hFetch : code[machine.ip]? = some ins) (hPlan : machine.plan ins = .ok effect)
    (hCommit : machine.commit effect = .next after) :
    machine.step code = .next (machine.step code).machine := by
  rw [step_of_plan hHalt hFetch hPlan, hCommit]
  rfl

theorem moves_step (hs : machine.memory.Sound) (code : Array Instruction) :
    Moves (machine.Frees code) machine.memory (machine.step code).machine.memory := by
  rcases machine.step_cases code with ⟨fault, hStep⟩ |
    ⟨ins, op, effect, hFetch, hDecode, hPlan, hFor, hStep⟩
  · rw [hStep]
    exact (turns_same hs.heap).moves
  · rw [hStep]
    have hAllowed := machine.plans_planFor ins op effect hFor
    refine (moves_commit hs hAllowed).weaken ?_
    rintro handle rfl
    have hFetched : machine.fetched? code = some op := by simp [fetched?, hFetch, hDecode]
    refine ⟨?_, ins, hFetch, hPlan⟩
    rcases hAllowed.2 with rfl | rfl
    · exact Or.inl hFetched
    · exact Or.inr hFetched

/-- An instruction that goes on with the next one has carried its plan out. -/
theorem next_of_fetched {code : Array Instruction} {op : Operation} {after : Machine σ}
    (hFetched : machine.fetched? code = some op) (h : machine.step code = .next after) :
    ∃ ins effect, machine.planFor ins op = .ok effect ∧ machine.commit effect = .next after := by
  rcases machine.step_cases code with ⟨fault, hStep⟩ |
    ⟨ins, decoded, effect, hFetch, hDecode, _, hFor, hStep⟩
  · rw [hStep] at h
    cases h
  · have hOp : decoded = op := by simpa [fetched?, hFetch, hDecode] using hFetched
    exact ⟨ins, effect, hOp ▸ hFor, hStep ▸ h⟩

theorem memory_of_gcNewFrame {code : Array Instruction} {after : Machine σ}
    (hFetched : machine.fetched? code = some .gcNewFrame) (h : machine.step code = .next after) :
    after.memory = { machine.memory with collector := machine.memory.collector.push } := by
  obtain ⟨ins, effect, hPlan, hCommit⟩ := next_of_fetched hFetched h
  obtain ⟨_, _, hEffect⟩ := Arena.bind_eq_ok.1 hPlan
  cases hEffect
  cases hCommit
  rfl

theorem memory_of_gcClean {code : Array Instruction} {after : Machine σ}
    (hFetched : machine.fetched? code = some .gcClean) (h : machine.step code = .next after) :
    machine.memory.collector.frames.isEmpty = false ∧
      after.memory = machine.memory.closeFrame.2 := by
  obtain ⟨ins, effect, hPlan, hCommit⟩ := next_of_fetched hFetched h
  obtain ⟨_, hOpen, hEffect⟩ := Arena.bind_eq_ok.1 hPlan
  cases hEffect
  cases hCommit
  exact ⟨by simpa using require_eq_ok.1 hOpen, rfl⟩

end Machine

end RegisterMachine

-- The pool is not observable. Machines that differ in their pools only have the same bare
-- form, and an instruction keeps this, as long as no access leaves its array: where one of
-- them recycles an array and the other makes a new one, both are the same in bare form. So
-- runs that start with different limits of the pool go side by side and come to the same end.
import RegisterMachine.Proofs.BareHeap
import RegisterMachine.Proofs.Runs

namespace RegisterMachine

variable {σ : Type}

/-! ## Functions of the host -/

/-- Every request but for a look at a whole allocation and a store that is not checked. -/
def Request.IsChecked : Request σ → Prop
  | .inspect _ | .storeUnchecked .. => False
  | _ => True

def World.bare (world : World σ) : World σ := { world with memory := world.memory.bare }

theorem World.changeHeap_bare (world : World σ) {handle : Handle} {α : Type}
    {checked : Except Fault α} {change : α → Allocation → Allocation}
    (h : ∀ value alloc, (change value alloc).bare = change value alloc.bare) :
    world.bare.changeHeap (checked.map fun value heap => heap.modify handle (change value)) =
      ((world.changeHeap (checked.map fun value heap => heap.modify handle (change value))).1,
        (world.changeHeap (checked.map fun value heap =>
          heap.modify handle (change value))).2.bare) := by
  cases checked with
  | error fault => rfl
  | ok value =>
    simp only [changeHeap, Except.map, bare, Memory.bare, Arena.bare_modify _ _ (h value)]

theorem World.answer_bare {world : World σ} (hs : world.memory.Sound) {request : Request σ}
    (h : request.IsChecked) :
    world.bare.answer request = ((world.answer request).1, (world.answer request).2.bare) := by
  have hHeap : world.bare.memory.heap = world.memory.heap.bare := rfl
  cases request with
  | inspect _ | storeUnchecked _ _ _ => exact h.elim
  | allocate size mode =>
    simp only [answer, hHeap, Arena.isFull_bare]
    by_cases hFull : world.memory.heap.isFull = true
    · simp only [hFull, if_true]
    · simp only [hFull, bare, Memory.insert_bare hs.heap]
      rfl
  | limit handle =>
    simp only [answer, hHeap, Arena.get_bare]
    rcases world.memory.heap.get handle with fault | alloc <;> rfl
  | load handle index => simp only [answer, hHeap, Arena.load_bare]
  | store handle index value =>
    simp only [answer, hHeap, Arena.position_bare]
    exact world.changeHeap_bare fun position alloc => alloc.bare_write position value
  | setFlag handle index flagged =>
    simp only [answer, hHeap, Arena.position_bare]
    exact world.changeHeap_bare fun position alloc => alloc.bare_setFlag position flagged
  | setMode handle mode =>
    simp only [answer, hHeap, Arena.get_bare]
    rcases world.memory.heap.get handle with fault | alloc
    · rfl
    · have hMode := world.memory.heap.bare_modify handle fun alloc => alloc.bare_setMode mode
      simp only [Except.map, changeHeap, bare, Memory.bare, hMode]
      rfl
  | setHalt _ | getState | setState _ => rfl

theorem World.sound_answer (world : World σ) (hs : world.memory.Sound) (request : Request σ) :
    (world.answer request).2.memory.Sound :=
  ((world.serves_answer hs.heap request).turns hs.heap fun _ => True).sound hs

/-- A script of checked requests does the same in two worlds of one bare form. -/
theorem Script.run_of_bare {α : Type} (script : Script σ α) {world other : World σ}
    {good : α → Prop} (hs : world.memory.Sound) (hs' : other.memory.Sound)
    (hSame : other.bare = world.bare) (h : script.Keeps Request.IsChecked good world) :
    (script.run other).1 = (script.run world).1 ∧
      (script.run other).2.bare = (script.run world).2.bare := by
  induction script generalizing world other with
  | done _ | fail _ => exact ⟨rfl, hSame⟩
  | ask request next ih =>
    have hAnswer := World.answer_bare hs' h.1
    rw [hSame, World.answer_bare hs h.1] at hAnswer
    obtain ⟨hReply, hWorld⟩ := Prod.mk.inj hAnswer
    have hNext := ih (world.answer request).1 (world.sound_answer hs request)
      (other.sound_answer hs' request) hWorld.symm h.2
    simp only [run, ← hReply]
    exact hNext

theorem ForeignTable.accepts_bare (heap : Arena) (function : HostFunction σ) (input : Value) :
    accepts heap.bare function input = accepts heap function input := by
  unfold accepts
  rcases function.arity with _ | arity
  · rfl
  · rcases input.handle? with _ | handle
    · rfl
    · simp only [Arena.get?_bare]
      rcases heap.get? handle with _ | alloc <;> rfl

theorem ForeignTable.invoke_of_bare (table : ForeignTable σ) {world other : World σ}
    {id : Int64} {input : Value} (hs : world.memory.Sound) (hs' : other.memory.Sound)
    (hSame : other.bare = world.bare)
    (h : ∀ script, table.script? world.memory.heap id input = some script →
      script.Keeps Request.IsChecked (fun _ => True) world) :
    (table.invoke other id input).1 = (table.invoke world id input).1 ∧
      (table.invoke other id input).2.bare = (table.invoke world id input).2.bare := by
  have hHeap : other.memory.heap.bare = world.memory.heap.bare :=
    congrArg (·.memory.heap) hSame
  unfold script? at h
  unfold invoke
  rcases hGet : table.get? id with _ | function
  · exact ⟨rfl, hSame⟩
  · have hAccepts : accepts other.memory.heap function input =
        accepts world.memory.heap function input := by
      rw [← accepts_bare, hHeap, accepts_bare]
    simp only [hGet, hAccepts] at h ⊢
    by_cases hInput : accepts world.memory.heap function input = true
    · simp only [hInput, if_true] at h ⊢
      have hRun := (function.body input).run_of_bare hs hs' hSame (h _ rfl)
      exact ⟨by rw [hRun.1], hRun.2⟩
    · simp only [hInput]
      exact ⟨rfl, hSame⟩

/-! ## Machines of one bare form -/

/-- The machine with a bare heap and without a pool. -/
def Machine.bare (machine : Machine σ) : Machine σ :=
  { machine with
    config := { machine.config with poolLimit := 0 }
    memory := machine.memory.bare }

def Turn.bare : Turn σ → Turn σ
  | .next machine => .next machine.bare
  | .finished machine => .finished machine.bare
  | .faulted fault warning machine => .faulted fault warning machine.bare

def Execution.bare (execution : Execution σ) : Execution σ :=
  { execution with machine := execution.machine.bare }

namespace Machine

/-- Two machines that are the same but for the pool and the stores of the arrays. -/
structure Alike (machine other : Machine σ) : Prop where
  ip : other.ip = machine.ip
  registers : other.registers = machine.registers
  calls : other.calls = machine.calls
  collector : other.memory.collector = machine.memory.collector
  live : other.memory.heap.live = machine.memory.heap.live
  contains : ∀ handle,
    other.memory.heap.contains handle = machine.memory.heap.contains handle
  /-- Live arrays are the same below their limit, and carry the same mark. -/
  arrays : ∀ handle alloc alloc', machine.memory.heap.get? handle = some alloc →
    other.memory.heap.get? handle = some alloc' →
    alloc'.limit = alloc.limit ∧ alloc'.mode = alloc.mode ∧ alloc'.mark = alloc.mark ∧
      ∀ i < alloc.limit, alloc'.values[i]? = alloc.values[i]? ∧
        alloc'.written[i]? = alloc.written[i]? ∧ alloc'.flagged[i]? = alloc.flagged[i]?
  foreign : other.foreign = machine.foreign
  host : other.host = machine.host
  haltRequested : other.haltRequested = machine.haltRequested
  lastHalt : other.lastHalt = machine.lastHalt

variable {machine other : Machine σ} {code : Array Instruction} {ins : Instruction}

theorem heap_of_bare (hSame : other.bare = machine.bare) :
    other.memory.heap.bare = machine.memory.heap.bare :=
  congrArg (·.memory.heap) hSame

theorem get?_of_bare (hSame : other.bare = machine.bare) {handle : Handle} {alloc : Allocation}
    (h : other.memory.heap.get? handle = some alloc) :
    ∃ alike, machine.memory.heap.get? handle = some alike ∧ alike.bare = alloc.bare := by
  have hBare := machine.memory.heap.get?_bare handle
  rw [← heap_of_bare hSame, Arena.get?_bare, h] at hBare
  exact Option.map_eq_some_iff.1 hBare.symm

theorem alike_of_bare (hSame : other.bare = machine.bare) : machine.Alike other where
  ip := show other.bare.ip = machine.bare.ip by rw [hSame]
  registers := show other.bare.registers = machine.bare.registers by rw [hSame]
  calls := show other.bare.calls = machine.bare.calls by rw [hSame]
  collector := show other.bare.memory.collector = machine.bare.memory.collector by rw [hSame]
  live := show other.bare.memory.heap.live = machine.bare.memory.heap.live by rw [hSame]
  contains handle := by rw [← Arena.contains_bare, heap_of_bare hSame, Arena.contains_bare]
  arrays handle alloc alloc' hGet hGet' := by
    obtain ⟨alike, hAlike, hBare⟩ := get?_of_bare hSame hGet'
    rw [hGet] at hAlike
    cases hAlike
    have hLimit : alloc'.bare.limit = alloc.bare.limit := by rw [hBare]
    have hMode : alloc'.bare.mode = alloc.bare.mode := by rw [hBare]
    have hMark : alloc'.bare.mark = alloc.bare.mark := by rw [hBare]
    refine ⟨hLimit, hMode, hMark, ?_⟩
    intro i hi
    have hi' : i < alloc'.limit := hLimit ▸ hi
    rw [← Allocation.values_bare hi, ← Allocation.written_bare hi, ← Allocation.flagged_bare hi,
      hBare]
    exact ⟨(Allocation.values_bare hi').symm, (Allocation.written_bare hi').symm,
      (Allocation.flagged_bare hi').symm⟩
  foreign := show other.bare.foreign = machine.bare.foreign by rw [hSame]
  host := show other.bare.host = machine.bare.host by rw [hSame]
  haltRequested := show other.bare.haltRequested = machine.bare.haltRequested by rw [hSame]
  lastHalt := show other.bare.lastHalt = machine.bare.lastHalt by rw [hSame]

/-! ## The plan -/

/-- If the next instruction gets to an unchecked load or store at a live array, its index is
below the limit of the array. -/
def StaysWithin (machine : Machine σ) (code : Array Instruction) : Prop :=
  ∀ (ins : Instruction) (array value : Nat) (handle : Handle) (alloc : Allocation),
    machine.haltRequested = false → code[machine.ip]? = some ins →
    (ins.opcode.decode? = some .loadAllocI ∨ ins.opcode.decode? = some .storeAllocI) →
    machine.locate ins 0 = .ok array → machine.locate ins 1 = .ok value →
    machine.registers.handle array = .ok handle →
    machine.memory.heap.get? handle = some alloc → ins.c.toNat < alloc.limit

theorem staysWithin_of_fetched (hLoad : machine.fetched? code ≠ some .loadAllocI)
    (hStore : machine.fetched? code ≠ some .storeAllocI) : machine.StaysWithin code := by
  intro ins array value handle alloc _ hFetch hOp
  have hFetched : machine.fetched? code = ins.opcode.decode? := by simp [fetched?, hFetch]
  rw [hFetched] at hLoad hStore
  exact (hOp.elim hLoad hStore).elim

theorem StaysWithin.of_bare (h : machine.StaysWithin code) (hSame : other.bare = machine.bare) :
    other.StaysWithin code := by
  have hAlike := alike_of_bare hSame
  intro ins array value handle alloc hGoes hFetch hOp hArray hValue hHandle hGet
  obtain ⟨alike, hLive, hBare⟩ := get?_of_bare hSame hGet
  unfold locate at hArray hValue
  rw [hAlike.registers] at hArray hValue hHandle
  rw [hAlike.haltRequested] at hGoes
  rw [hAlike.ip] at hFetch
  have hWithin := h ins array value handle alike hGoes hFetch hOp hArray hValue hHandle hLive
  rwa [← alike.limit_bare, hBare] at hWithin

theorem bind_congr_ok {α β : Type} {first : Except Fault α} {f g : α → Except Fault β}
    (h : ∀ value, first = .ok value → f value = g value) : (first >>= f) = (first >>= g) := by
  cases first with
  | error fault => rfl
  | ok value => exact h value rfl

theorem plan_bare (h : machine.StaysWithin code) (hGoes : machine.haltRequested = false)
    (hFetch : code[machine.ip]? = some ins) : machine.bare.plan ins = machine.plan ins := by
  have hHeap : machine.bare.memory.heap = machine.memory.heap.bare := rfl
  have hRegisters : machine.bare.registers = machine.registers := rfl
  have hLocate : machine.bare.locate ins = machine.locate ins := rfl
  unfold plan
  rcases hDecode : ins.opcode.decode? with _ | op
  · rfl
  · simp only
    unfold planFor
    cases op with
    | loadAlloc | loadAllocIBound | storeAlloc | storeAllocIBound | confTrace | dynamicConf =>
      simp only [hHeap, hRegisters, hLocate, Arena.load_bare, Arena.position_bare]
    -- Only the two unchecked accesses could see how large a store is.
    | loadAllocI =>
      refine bind_congr_ok fun array hArray => bind_congr_ok fun target hTarget => ?_
      refine bind_congr_ok fun handle hHandle => ?_
      rw [hHeap, Arena.loadUnchecked_bare]
      intro alloc hGet
      exact h ins array target handle alloc hGoes hFetch (Or.inl hDecode) hArray hTarget hHandle
        hGet
    | storeAllocI =>
      refine bind_congr_ok fun array hArray => bind_congr_ok fun source hSource => ?_
      refine bind_congr_ok fun handle hHandle => bind_congr_ok fun value _ => ?_
      rw [hHeap, Arena.positionUnchecked_bare]
      intro alloc hGet
      exact h ins array source handle alloc hGoes hFetch (Or.inr hDecode) hArray hSource hHandle
        hGet
    | dynamicConfAll => simp only [hHeap, hRegisters, hLocate, Arena.contains_bare]
    | alloc | allocI =>
      simp only [planAllocate, hHeap, hRegisters, hLocate, Arena.isFull_bare]
    | free | dynamicFree => simp only [planFree, hHeap, hRegisters, hLocate, Arena.contains_bare]
    | gcTrace | dynamicTrace =>
      simp only [planTrace, hHeap, hRegisters, hLocate, Arena.contains_bare]
    | length =>
      refine bind_congr_ok fun array _ => bind_congr_ok fun target _ => ?_
      refine bind_congr_ok fun handle _ => ?_
      rw [hHeap, Arena.get_bare]
      rcases machine.memory.heap.get handle with fault | alloc <;> rfl
    | _ => rfl

/-! ## One instruction -/

/-- If the next instruction enters a function of the host, that function makes checked
requests only. -/
def HostStaysChecked (machine : Machine σ) (code : Array Instruction) : Prop :=
  machine.HostKeeps Request.IsChecked (fun _ => True) code

theorem commit_bare (hs : machine.memory.Sound) {effect : Effect}
    (h : ∀ id input address, effect ≠ .foreign id input address) :
    (machine.commit effect).bare = machine.bare.commit effect := by
  cases effect with
  | finish | skip | jump _ | call _ | ret | write _ _ | setBase _ | openFrame => rfl
  | store handle position value =>
    simp only [commit, Turn.bare, changeHeap, changeMemory, advance, bare, Memory.bare,
      Arena.bare_write]
  | setFlag handle position flagged =>
    have hFlag := machine.memory.heap.bare_modify handle fun alloc =>
      alloc.bare_setFlag position flagged
    simp only [commit, Turn.bare, changeHeap, changeMemory, advance, bare, Memory.bare, hFlag]
  | setMode handle mode =>
    have hMode := machine.memory.heap.bare_modify handle fun alloc => alloc.bare_setMode mode
    simp only [commit, Turn.bare, changeHeap, changeMemory, advance, bare, Memory.bare, hMode]
  | allocate address size mode =>
    simp only [commit, Turn.bare, allocateInto, advance, bare, Memory.insert_bare hs.heap]
  | free handle =>
    simp only [commit, Turn.bare, changeMemory, advance, bare, Memory.bare_free]
  | trace handle =>
    simp only [commit, Turn.bare, changeCollector, changeMemory, advance, bare, Memory.bare,
      Collector.addTrace_bare]
  | closeFrame =>
    simp only [commit, Turn.bare, changeMemory, advance, bare, Memory.closeFrame_bare]
  | foreign id input address => exact (h id input address rfl).elim

/-- Two machines of one bare form. -/
structure Twins (machine other : Machine σ) : Prop where
  sound : machine.memory.Sound
  otherSound : other.memory.Sound
  bare : other.bare = machine.bare

theorem Twins.start (h : machine.Twins other) : machine.start.Twins other.start where
  sound := h.sound
  otherSound := h.otherSound
  bare := by
    change other.bare.start = machine.bare.start
    rw [h.bare]

theorem callForeign_of_twins (hTwins : machine.Twins other) {id : Int64} {input : Value}
    (address : Nat)
    (h : ∀ script, machine.foreign.script? machine.memory.heap id input = some script →
      script.Keeps Request.IsChecked (fun _ => True) machine.world) :
    (other.callForeign id input address).bare = (machine.callForeign id input address).bare := by
  have hSame := hTwins.bare
  have hWorld : other.world.bare = machine.world.bare := by
    change other.bare.world = machine.bare.world
    rw [hSame]
  obtain ⟨hResult, hLeft⟩ :=
    machine.foreign.invoke_of_bare hTwins.sound hTwins.otherSound hWorld h
  have hKept : (other.withWorld (machine.foreign.invoke other.world id input).2).bare =
      (machine.withWorld (machine.foreign.invoke machine.world id input).2).bare := by
    change other.bare.withWorld (machine.foreign.invoke other.world id input).2.bare =
      machine.bare.withWorld (machine.foreign.invoke machine.world id input).2.bare
    rw [hSame, hLeft]
  rw [callForeign_eq, callForeign_eq, (alike_of_bare hSame).foreign, hResult]
  rcases (machine.foreign.invoke machine.world id input).1 with warning | value
  · exact congrArg (Turn.faulted .foreign (some warning)) hKept
  · exact congrArg (fun kept => Turn.next (kept.writeRegister address value).advance) hKept

/-- An instruction that stays within its arrays does the same to two machines of one bare
form. -/
theorem step_of_twins (hTwins : machine.Twins other) (hWithin : machine.StaysWithin code)
    (hHost : machine.HostStaysChecked code) :
    (other.step code).bare = (machine.step code).bare := by
  have hSame := hTwins.bare
  have hAlike := alike_of_bare hSame
  unfold step
  rw [hAlike.haltRequested, hAlike.ip]
  by_cases hAsked : machine.haltRequested = true
  · simp only [hAsked, if_true, Turn.bare, hSame]
  · have hGoes : machine.haltRequested = false := by simpa using hAsked
    rw [if_neg hAsked, if_neg hAsked]
    rcases hFetch : code[machine.ip]? with _ | ins
    · simp only [Turn.bare, hSame]
    · -- Both machines plan as their common bare form does.
      have hPlan : other.plan ins = machine.plan ins := by
        rw [← plan_bare hWithin hGoes hFetch, ← hSame]
        exact (plan_bare (hWithin.of_bare hSame) (hAlike.haltRequested.trans hGoes)
          (hAlike.ip ▸ hFetch)).symm
      simp only [exec, hPlan]
      rcases hEffect : machine.plan ins with fault | effect
      · simp only [Turn.bare, hSame]
      · cases effect with
        | foreign id input address =>
          refine callForeign_of_twins hTwins address fun script hScript => ?_
          exact hHost script ((entered?_of_plan hFetch hEffect).trans hScript)
        | _ =>
          simp only
          rw [commit_bare hTwins.otherSound (by simp), commit_bare hTwins.sound (by simp), hSame]

/-! ## Whole runs -/

/-- After an instruction the machines are twins again, unless both runs end there. -/
theorem Twins.next (h : machine.Twins other)
    (hSame : (other.step code).bare = (machine.step code).bare) :
    (∃ next next', machine.step code = .next next ∧ other.step code = .next next' ∧
      next.Twins next') ∨ (machine.step code).Ends ∧ (other.step code).Ends := by
  rcases hStep : machine.step code with next | last | ⟨fault, warning, last⟩ <;>
    rcases hStep' : other.step code with next' | last' | ⟨fault', warning', last'⟩ <;>
    rw [hStep, hStep'] at hSame
  case next.next =>
    have hBecomes : Becomes machine next := .next hStep
    have hBecomes' : Becomes other next' := .next hStep'
    exact Or.inl ⟨next, next', rfl, rfl, sound_of_undergoes h.sound (.becomes hBecomes),
      sound_of_undergoes h.otherSound (.becomes hBecomes'), Turn.next.inj hSame⟩
  all_goals first | cases hSame | exact Or.inr ⟨trivial, trivial⟩

theorem conclude_bare (turn : Turn σ) : conclude turn.bare = (conclude turn).bare := by
  cases turn with
  | next machine | finished machine => rfl
  | faulted fault warning machine =>
    simp only [conclude, Turn.bare, Execution.bare, stop, unwind, bare, Memory.unwind_bare]

/-- So many instructions of a run stay within their arrays, and the functions of the host
that they enter make checked requests only. -/
structure Tame (code : Array Instruction) (fuel : Nat) (machine : Machine σ) : Prop where
  within : ∀ n before, n < fuel → after code n machine = some before → before.StaysWithin code
  host : ∀ n before, n < fuel → after code n machine = some before →
    before.HostStaysChecked code

theorem Tame.of_le {fuel n : Nat} (h : Tame code fuel machine) (hn : n ≤ fuel) :
    Tame code n machine where
  within k before hk := h.within k before (by omega)
  host k before hk := h.host k before (by omega)

theorem Tame.step {fuel : Nat} (h : Tame code (fuel + 1) machine)
    (hTwins : machine.Twins other) : (other.step code).bare = (machine.step code).bare :=
  step_of_twins hTwins (h.within 0 machine (by omega) rfl) (h.host 0 machine (by omega) rfl)

theorem Tame.next {fuel : Nat} {next : Machine σ} (h : Tame code (fuel + 1) machine)
    (hNext : machine.step code = .next next) : Tame code fuel next where
  within n before hn hAfter :=
    h.within (n + 1) before (by omega) (after_succ.2 ⟨next, hNext, hAfter⟩)
  host n before hn hAfter :=
    h.host (n + 1) before (by omega) (after_succ.2 ⟨next, hNext, hAfter⟩)

theorem Tame.after {n : Nat} (h : Tame code n machine) (hTwins : machine.Twins other) :
    (after code n other).map bare = (after code n machine).map bare := by
  induction n generalizing machine other with
  | zero => simp [Machine.after, hTwins.bare]
  | succ n ih =>
    rcases hTwins.next (h.step hTwins) with ⟨next, next', hNext, hNext', hBoth⟩ | ⟨hEnds, hEnds'⟩
    · rw [Machine.after, Machine.after, hNext, hNext']
      exact ih (h.next hNext) hBoth
    · rw [after_of_ends hEnds, after_of_ends hEnds']

theorem Tame.steps {fuel : Nat} (h : Tame code fuel machine) (hTwins : machine.Twins other) :
    (steps code fuel other).map Turn.bare = (steps code fuel machine).map Turn.bare := by
  induction fuel generalizing machine other with
  | zero => rfl
  | succ fuel ih =>
    have hStep := h.step hTwins
    rcases hTwins.next hStep with ⟨next, next', hNext, hNext', hBoth⟩ | ⟨hEnds, hEnds'⟩
    · rw [Machine.steps, Machine.steps, hNext, hNext']
      exact ih (h.next hNext) hBoth
    · rw [steps_of_ends hEnds, steps_of_ends hEnds', Option.map_some, Option.map_some, hStep]

theorem Tame.execute {fuel : Nat} (h : Tame code fuel machine.start)
    (hTwins : machine.Twins other) :
    (other.execute fuel code).map Execution.bare =
      (machine.execute fuel code).map Execution.bare := by
  have hConclude : Execution.bare ∘ conclude = (conclude ∘ Turn.bare : Turn σ → Execution σ) :=
    funext fun turn => (conclude_bare turn).symm
  unfold Machine.execute
  rw [Option.map_map, Option.map_map, hConclude, ← Option.map_map, ← Option.map_map,
    h.steps hTwins.start]

theorem make_poolLimit {config : Config} {host : σ} {first : Machine σ}
    (h : make config host = .ok first) (poolLimit : Nat) :
    ∃ second, make { config with poolLimit } host = .ok second ∧ first.Twins second := by
  obtain ⟨hSizes, rfl⟩ := make_eq_ok.1 h
  refine ⟨fresh { config with poolLimit } host, make_eq_ok.2 ⟨hSizes, rfl⟩, ?_⟩
  refine ⟨Memory.sound_make _ _ _, Memory.sound_make _ _ _, ?_⟩
  simp only [fresh, bare, Memory.bare_make]

/-! ## The law -/

/-- With any limit of the pool, as long as every access stays within its array and the
functions of the host make checked requests only: the machine goes through the same states,
but for the pool and the stores, and the run has the same end. -/
theorem the_pool_is_not_observable (config : Config) (poolLimit : Nat) (host : σ)
    (table : ForeignTable σ) (first : Machine σ) (hMake : make config host = .ok first)
    (code : Array Instruction) (fuel : Nat)
    (hTame : Tame code fuel (first.withTable table).start) :
    ∃ second, make { config with poolLimit } host = .ok second ∧
      (∀ n machine, n ≤ fuel → after code n (first.withTable table).start = some machine →
        ∃ other, after code n (second.withTable table).start = some other ∧
          machine.Alike other) ∧
      (∀ execution, (first.withTable table).execute fuel code = some execution →
        ∃ other, (second.withTable table).execute fuel code = some other ∧
          other.halt = execution.halt ∧ other.records = execution.records ∧
          execution.machine.Alike other.machine) ∧
      ((first.withTable table).execute fuel code = none →
        (second.withTable table).execute fuel code = none) := by
  obtain ⟨second, hSecond, hMade⟩ := make_poolLimit hMake poolLimit
  have hTwins : (first.withTable table).Twins (second.withTable table) := by
    refine ⟨hMade.sound, hMade.otherSound, ?_⟩
    change second.bare.withTable table = first.bare.withTable table
    rw [hMade.bare]
  have hRuns := hTame.execute hTwins
  refine ⟨second, hSecond, ?_, ?_, ?_⟩
  · intro n machine hn hReached
    have hAfter := (hTame.of_le hn).after hTwins.start
    rw [hReached] at hAfter
    obtain ⟨other, hOther, hAlike⟩ := Option.map_eq_some_iff.1 hAfter
    exact ⟨other, hOther, alike_of_bare hAlike⟩
  · intro execution hRun
    rw [hRun] at hRuns
    obtain ⟨other, hOther, hEq⟩ := Option.map_eq_some_iff.1 hRuns
    obtain ⟨hMachine, hHalt, hRecords⟩ := Execution.mk.inj hEq
    exact ⟨other, hOther, hHalt, hRecords, alike_of_bare hMachine⟩
  · intro hNone
    rw [hNone] at hRuns
    exact Option.map_eq_none_iff.1 hRuns

/-- A program that frees an array, has the host make a smaller one, and reads a cell of it. -/
def smallReuse : Array Instruction :=
  #[⟨.make .allocI 0, 0, 2, 1⟩, ⟨.make .free 0, 0, 0, 0⟩, ⟨.make .foreign 1, 0, 0, 0⟩,
    ⟨.make .loadAllocI 0, 0, 0, 0⟩, .sentinel]

/-- The machines of its run. -/
def reusePath : Nat → Machine Unit
  | 0 => (small.withTable { functions := #[boxing] }).start
  | n + 1 => ((reusePath n).step smallReuse).machine

theorem after_reusePath (n : Nat) (hn : n ≤ 4) :
    after smallReuse n (reusePath 0) = some (reusePath n) := by
  have hGoes : ∀ n < 4, ¬ ((reusePath n).step smallReuse).Ends := by decide +kernel
  induction n with
  | zero => rfl
  | succ n ih =>
    exact after_succ_last.2 ⟨reusePath n, ih (by omega), Turn.eq_next (hGoes n (by omega))⟩

theorem tame_reusePath : Tame smallReuse 5 (reusePath 0) where
  within n before hn hAfter := by
    have hOthers : ∀ n < 5, n ≠ 3 → (reusePath n).fetched? smallReuse ≠ some .loadAllocI ∧
        (reusePath n).fetched? smallReuse ≠ some .storeAllocI := by decide +kernel
    rw [after_reusePath n (by omega)] at hAfter
    cases hAfter
    by_cases hLoad : n = 3
    · subst hLoad
      have hAccess : smallReuse[(reusePath 3).ip]? = some ⟨.make .loadAllocI 0, 0, 0, 0⟩ ∧
          (reusePath 3).locate ⟨.make .loadAllocI 0, 0, 0, 0⟩ 0 = .ok 1 ∧
          (reusePath 3).registers.handle 1 = .ok ⟨0, 1⟩ ∧
          ((reusePath 3).memory.heap.get? ⟨0, 1⟩).map Allocation.limit = some 1 := by
        decide +kernel
      obtain ⟨hFetched, hFound, hHeld, hLimit⟩ := hAccess
      intro ins array value handle alloc _ hFetch _ hLocate _ hHandle hGet
      rw [hFetched] at hFetch
      cases hFetch
      rw [hFound] at hLocate
      cases hLocate
      rw [hHeld] at hHandle
      cases hHandle
      rw [hGet] at hLimit
      rw [Option.some.inj hLimit]
      decide
    · exact staysWithin_of_fetched (hOthers n hn hLoad).1 (hOthers n hn hLoad).2
  host n before _ hAfter := by
    refine hostKeeps_after ?_ hAfter
    intro function hFunction input world
    have hOnly : function ∈ #[boxing] := hFunction
    obtain rfl : function = boxing := by simpa using hOnly
    exact keeps_boxing trivial (fun _ => trivial) (fun _ => trivial) input world

/-- The new array gets the store of the old one, which is larger. Without a pool it gets a
store of its own, and nothing else is different. -/
theorem a_recycled_store_is_not_noticed :
    Tame smallReuse 5 (small.withTable { functions := #[boxing] }).start ∧
    ∃ second, make { small.config with poolLimit := 0 } () = .ok second ∧
      ∃ machine other,
        after smallReuse 4 (small.withTable { functions := #[boxing] }).start = some machine ∧
        after smallReuse 4 (second.withTable { functions := #[boxing] }).start = some other ∧
        (machine.memory.heap.get? ⟨0, 1⟩).map Allocation.capacity = some 2 ∧
        machine.registers.cells[1]? = some (.long 7) ∧ machine.Alike other := by
  have hSeen : ((reusePath 4).memory.heap.get? ⟨0, 1⟩).map Allocation.capacity = some 2 ∧
      (reusePath 4).registers.cells[1]? = some (.long 7) := by decide +kernel
  have hAfter := after_reusePath 4 (by omega)
  obtain ⟨second, hMake, hAlike, -⟩ := the_pool_is_not_observable small.config 0 ()
    { functions := #[boxing] } small make_small smallReuse 5 tame_reusePath
  obtain ⟨other, hOther, hSame⟩ := hAlike 4 (reusePath 4) (by omega) hAfter
  exact ⟨tame_reusePath, second, hMake, reusePath 4, other, hAfter, hOther, hSeen.1, hSeen.2, hSame⟩

end Machine

end RegisterMachine

-- Runs that a fault stops, with another thread that may ask the machine to stop between any two
-- instructions. The instruction that faults has no effect, but for what a host function has done
-- that failed; then the frames are closed, which cannot fail, and the machine is ready for the
-- next run with all its registers kept.
import RegisterMachine.Proofs.HandlerSteps

namespace RegisterMachine

variable {σ : Type}

/-- What is left of a turn after its round. -/
def Turn.rounded (records : List Log.Record) : Turn σ → EStateM.Result Halt (Engine σ) Unit
  | .next machine => .ok () { machine, records }
  | .finished machine => .ok () { machine, halted := true, records }
  | .faulted fault warning machine =>
    .error ⟨fault, machine.ip⟩
      { machine, records := records ++ warning.toList.map Log.warn }

namespace Machine

/-! ## The instruction that faults -/

/-- How the instruction at which a run stops leaves the machine. -/
inductive Cuts (code : Array Instruction) (before : Machine σ) : Fault → Machine σ → Prop
  /-- The host asked to stop, and the instruction was not even fetched. -/
  | cancelled (asked : before.haltRequested = true) : Cuts code before .cancelled before
  /-- The instruction entered no host function, and has done nothing. -/
  | refused {fault : Fault} (asked : before.haltRequested = false)
      (entered : before.entered? code = none) : Cuts code before fault before
  /-- The instruction entered a host function that failed; what it did stays. -/
  | failed {script : Script σ Value} {reason : String} {world : World σ}
      (asked : before.haltRequested = false) (entered : before.entered? code = some script)
      (runs : script.run before.world = (.error reason, world)) :
      Cuts code before .foreign (before.withWorld world)

theorem cuts_of_faulted {machine stopped : Machine σ} {code : Array Instruction}
    {fault : Fault} {warning : Option String}
    (h : machine.step code = .faulted fault warning stopped) :
    Cuts code machine fault stopped := by
  rcases faulted_cases h with ⟨hAsked, rfl, rfl⟩ | ⟨hGoes, ⟨hFetch, rfl, rfl⟩ |
    ⟨ins, hFetch, ⟨hPlan, rfl⟩ | ⟨id, input, address, hPlan, hCalled⟩⟩⟩
  · exact .cancelled hAsked
  · exact .refused hGoes (by simp [entered?, hFetch])
  · exact .refused hGoes (by simp [entered?, hFetch, hPlan])
  · have hEntered := entered?_of_plan hFetch hPlan
    rcases machine.callForeign_cases id input address with ⟨hNone, _, hCall⟩ |
      ⟨script, world, hScript, ⟨value, -, hCall⟩ | ⟨reason, _, hRun, hCall⟩⟩
    · rw [hCall] at hCalled
      cases hCalled
      exact .refused hGoes (hEntered.trans hNone)
    · rw [hCall] at hCalled
      cases hCalled
    · rw [hCall] at hCalled
      cases hCalled
      exact .failed hGoes (hEntered.trans hScript) hRun

/-- Nothing but the world of a host function has changed. -/
theorem Cuts.eq_withWorld {code : Array Instruction} {before stopped : Machine σ} {fault : Fault}
    (h : Cuts code before fault stopped) : stopped = before.withWorld stopped.world := by
  cases h <;> rfl

/-! ## Rounds -/

variable {config : Config} {machine : Machine σ}

/-- A round of a machine that is within its bounds is a step. -/
theorem round_eq (h : machine.Bounded config) (hLimit : config.heapLimit ≤ 2 ^ 32)
    (code : Array Instruction) (records : List Log.Record) :
    round code { machine, records } = (machine.step code).rounded records := by
  have hHeap : machine.memory.heap.limit ≤ 2 ^ 32 := by
    have hLimits := h.limits
    simp only [Memory.limits, Arena.limits, Prod.mk.injEq] at hLimits
    omega
  by_cases hAsked : machine.haltRequested = true
  · simp [round, step, hAsked, Turn.rounded]
  · rcases hFetch : code[machine.ip]? with _ | ins
    · simp [round, step, hAsked, hFetch, Turn.rounded]
    · have hStep : machine.step code = machine.carryOut (machine.plan ins) := by
        simp only [step, hAsked, hFetch, exec]
        rcases machine.plan ins <;> rfl
      have hPerform := Handler.follows_perform h.sound h.inBounds.counted hHeap ins records
      rw [← hStep] at hPerform
      have hMoved : moveTo { machine, records } (machine.ip + 1) =
          { machine := machine.advance, records } := rfl
      simp only [round, hAsked, hFetch, hMoved, hPerform]
      rcases hTurn : machine.step code with next | ended | ⟨fault, warning, stopped⟩
      · rfl
      · rfl
      · have hIp : stopped.ip = machine.ip := by
          rw [(cuts_of_faulted hTurn).eq_withWorld]
          rfl
        rcases warning with _ | warning
        · simp [Turn.outcome, Turn.rounded, moveTo, ← hIp, advance]
        · simp [Turn.outcome, Turn.rounded, moveTo, ← hIp, advance]

/-- The machine after one round for each signal, if each of them goes on with the next one. -/
def afterUnder (code : Array Instruction) : List Signal → Machine σ → Option (Machine σ)
  | [], machine => some machine
  | signal :: signals, machine =>
    match round code { machine := machine.receive signal } with
    | .ok () engine => if engine.halted then none else afterUnder code signals engine.machine
    | .error .. => none

theorem undergoes_receive (machine : Machine σ) (signal : Signal) :
    machine.Undergoes (machine.receive signal) :=
  .becomes (@Becomes.signal σ machine machine.host (signal.getD machine.haltRequested))

theorem Bounded.receive (h : machine.Bounded config) (signal : Signal) :
    (machine.receive signal).Bounded config :=
  h.undergoes (machine.undergoes_receive signal)

/-- Rounds that go on are instructions that go on, each after its signal. -/
theorem afterUnder_cons {code : Array Instruction} {signal : Signal} {signals : List Signal}
    {last : Machine σ} (h : machine.Bounded config) (hLimit : config.heapLimit ≤ 2 ^ 32) :
    afterUnder code (signal :: signals) machine = some last ↔
      ∃ next, (machine.receive signal).step code = .next next ∧
        afterUnder code signals next = some last := by
  rw [afterUnder, round_eq (h.receive signal) hLimit]
  rcases (machine.receive signal).step code with next | ended | ⟨fault, warning, ended⟩ <;>
    simp [Turn.rounded]

theorem Bounded.next {code : Array Instruction} {next : Machine σ} (h : machine.Bounded config)
    (hStep : machine.step code = .next next) : next.Bounded config :=
  h.undergoes (.becomes (.next hStep))

theorem undergoes_afterUnder {code : Array Instruction} {signals : List Signal}
    {last : Machine σ} (h : machine.Bounded config) (hLimit : config.heapLimit ≤ 2 ^ 32)
    (hAfter : afterUnder code signals machine = some last) :
    Relation.ReflTransGen Undergoes machine last := by
  induction signals generalizing machine with
  | nil =>
    cases hAfter
    exact .refl
  | cons signal signals ih =>
    obtain ⟨next, hStep, hRest⟩ := (afterUnder_cons h hLimit).1 hAfter
    exact .head (machine.undergoes_receive signal)
      (.head (.becomes (.next hStep)) (ih ((h.receive signal).next hStep) hRest))

/-! ## Whole runs -/

/-- What the loop settles is how the run concludes: the unwind does not fail. -/
theorem settle_rounded {turn : Turn σ} (hEnds : turn.Ends) (hs : turn.machine.memory.Sound) :
    settle (turn.rounded []) = conclude turn := by
  cases turn with
  | next _ => exact hEnds.elim
  | finished _ => rfl
  | faulted fault warning stopped =>
    have hUnwind : stopped.memory.tryUnwind = Memory.attempted stopped.memory.unwind :=
      Memory.tryUnwind_eq hs
    simp only [Turn.rounded, settle, tryUnwind, hUnwind, Memory.attempted, List.nil_append]
    rfl

/-- A run has taken rounds that went on, and one that did not. -/
theorem rounds_eq_some {code : Array Instruction} {signals : List Signal}
    {ended : EStateM.Result Halt (Engine σ) Unit} (h : machine.Bounded config)
    (hLimit : config.heapLimit ≤ 2 ^ 32) :
    rounds code signals { machine } = some ended ↔
      ∃ earlier signal later before, signals = earlier ++ signal :: later ∧
        afterUnder code earlier machine = some before ∧
        ((before.receive signal).step code).Ends ∧
        ended = ((before.receive signal).step code).rounded [] := by
  induction signals generalizing machine with
  | nil => simp [rounds]
  | cons signal signals ih =>
    have hRound := round_eq (h.receive signal) hLimit code []
    rw [rounds, hRound]
    constructor
    · intro hEnded
      rcases hStep : (machine.receive signal).step code with next | last | ⟨fault, warning, last⟩
      · rw [hStep] at hEnded
        obtain ⟨earlier, last, later, before, rfl, hAfter, hEnds⟩ :=
          (ih ((h.receive signal).next hStep)).1 hEnded
        exact ⟨signal :: earlier, last, later, before, rfl,
          (afterUnder_cons h hLimit).2 ⟨next, hStep, hAfter⟩, hEnds⟩
      · rw [hStep] at hEnded
        refine ⟨[], signal, signals, machine, rfl, rfl, ?_⟩
        rw [hStep]
        exact ⟨trivial, (Option.some.inj hEnded).symm⟩
      · rw [hStep] at hEnded
        refine ⟨[], signal, signals, machine, rfl, rfl, ?_⟩
        rw [hStep]
        exact ⟨trivial, (Option.some.inj hEnded).symm⟩
    · rintro ⟨earlier, last, later, before, hSignals, hAfter, hEnds, rfl⟩
      cases earlier with
      | nil =>
        cases hSignals
        cases hAfter
        rcases hStep : (machine.receive signal).step code with next | last | ⟨fault, warning, last⟩
        · rw [hStep] at hEnds
          exact hEnds.elim
        · rfl
        · rfl
      | cons first earlier =>
        cases hSignals
        obtain ⟨next, hStep, hRest⟩ := (afterUnder_cons h hLimit).1 hAfter
        rw [hStep]
        exact (ih ((h.receive signal).next hStep)).2
          ⟨earlier, last, later, before, rfl, hRest, hEnds, rfl⟩

theorem executeUnder_eq_some {code : Array Instruction} {signals : List Signal}
    {execution : Execution σ} (h : machine.Bounded config) (hLimit : config.heapLimit ≤ 2 ^ 32) :
    machine.executeUnder signals code = some execution ↔
      ∃ earlier signal later before, signals = earlier ++ signal :: later ∧
        afterUnder code earlier machine.start = some before ∧
        ((before.receive signal).step code).Ends ∧
        execution = conclude ((before.receive signal).step code) := by
  have hStart : machine.start.Bounded config := h.undergoes (.becomes .start)
  have hSettle : ∀ earlier signal before, afterUnder code earlier machine.start = some before →
      ((before.receive signal).step code).Ends →
      settle (((before.receive signal).step code).rounded []) =
        conclude ((before.receive signal).step code) := by
    intro earlier signal before hAfter hEnds
    have hBefore := hStart.reached (undergoes_afterUnder hStart hLimit hAfter)
    have hs := (hBefore.receive signal).sound
    exact settle_rounded hEnds ((moves_step hs code).sound hs)
  unfold executeUnder
  rw [Option.map_eq_some_iff]
  constructor
  · rintro ⟨ended, hEnded, rfl⟩
    obtain ⟨earlier, signal, later, before, hSignals, hAfter, hEnds, rfl⟩ :=
      (rounds_eq_some hStart hLimit).1 hEnded
    exact ⟨earlier, signal, later, before, hSignals, hAfter, hEnds,
      hSettle earlier signal before hAfter hEnds⟩
  · rintro ⟨earlier, signal, later, before, hSignals, hAfter, hEnds, rfl⟩
    exact ⟨_, (rounds_eq_some hStart hLimit).2
      ⟨earlier, signal, later, before, hSignals, hAfter, hEnds, rfl⟩,
      hSettle earlier signal before hAfter hEnds⟩

/-- Without signals, the handlers run as the plans do. -/
theorem executeUnder_replicate {code : Array Instruction} {fuel : Nat}
    (h : machine.Bounded config) (hLimit : config.heapLimit ≤ 2 ^ 32) :
    machine.executeUnder (List.replicate fuel none) code = machine.execute fuel code := by
  have hAfter : ∀ n {machine : Machine σ}, machine.Bounded config →
      afterUnder code (List.replicate n none) machine = after code n machine := by
    intro n
    induction n with
    | zero => exact fun _ => rfl
    | succ n ih =>
      intro machine h
      rw [List.replicate_succ]
      apply Option.ext
      intro last
      rw [afterUnder_cons h hLimit, after_succ]
      refine exists_congr fun next => and_congr_right fun hStep => ?_
      rw [ih (h.next hStep)]
  have hStart : machine.start.Bounded config := h.undergoes (.becomes .start)
  apply Option.ext
  intro execution
  rw [executeUnder_eq_some h hLimit, execute_eq_some]
  constructor
  · rintro ⟨earlier, signal, later, before, hSignals, hBefore, hEnds⟩
    obtain ⟨hLength, hEarlier, hRest⟩ := List.append_eq_replicate_iff.1 hSignals.symm
    obtain rfl : signal = none := (List.eq_replicate_iff.1 hRest).2 signal (by simp)
    rw [List.length_cons] at hLength
    rw [hEarlier, hAfter _ hStart] at hBefore
    exact ⟨earlier.length, before, by omega, hBefore, hEnds⟩
  · rintro ⟨n, before, hn, hBefore, hEnds⟩
    refine ⟨List.replicate n none, none, List.replicate (fuel - n - 1) none, before, ?_, ?_, hEnds⟩
    · rw [← List.replicate_succ, List.replicate_append_replicate]
      congr 1
      omega
    · rw [hAfter n hStart]
      exact hBefore

end Machine

end RegisterMachine

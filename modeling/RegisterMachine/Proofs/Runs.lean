-- Runs seen from their steps. A run takes instructions that go on with the next one, and
-- then one that ends it. So what every instruction keeps holds all along, and two streams
-- that agree on every machine of a run run alike.
import RegisterMachine.Proofs.HostCalls
import RegisterMachine.Proofs.MachineOwnership

namespace RegisterMachine

variable {σ : Type}

/-- No instruction comes after this turn. -/
def Turn.Ends : Turn σ → Prop
  | .next _ => False
  | .finished _ | .faulted .. => True

instance (turn : Turn σ) : Decidable turn.Ends :=
  match turn with
  | .next _ => .isFalse id
  | .finished _ | .faulted .. => .isTrue trivial

theorem Turn.eq_next {turn : Turn σ} (h : ¬ turn.Ends) : turn = .next turn.machine := by
  cases turn with
  | next machine => rfl
  | finished _ | faulted _ _ _ => exact (h trivial).elim

namespace Machine

/-! ## Instructions that go on -/

/-- The machine after `n` instructions, if each of them goes on with the next one. -/
def after (code : Array Instruction) : Nat → Machine σ → Option (Machine σ)
  | 0, machine => some machine
  | n + 1, machine =>
    match machine.step code with
    | .next next => after code n next
    | _ => none

variable {code other : Array Instruction} {machine last : Machine σ}

theorem after_succ {n : Nat} :
    after code (n + 1) machine = some last ↔
      ∃ next, machine.step code = .next next ∧ after code n next = some last := by
  rw [after]
  rcases machine.step code with next | ended | ⟨fault, warning, ended⟩ <;> simp

theorem after_of_ends {n : Nat} (h : (machine.step code).Ends) :
    after code (n + 1) machine = none := by
  rw [after]
  rcases hStep : machine.step code with next | ended | ⟨fault, warning, ended⟩
  · rw [hStep] at h
    exact h.elim
  · rfl
  · rfl

/-- The last of the instructions, apart from the others. -/
theorem after_succ_last {n : Nat} :
    after code (n + 1) machine = some last ↔
      ∃ before, after code n machine = some before ∧ before.step code = .next last := by
  induction n generalizing machine with
  | zero =>
    rw [after_succ]
    simp [after]
  | succ n ih =>
    rw [after_succ]
    constructor
    · rintro ⟨next, hStep, hAfter⟩
      obtain ⟨before, hBefore, hLast⟩ := ih.1 hAfter
      exact ⟨before, after_succ.2 ⟨next, hStep, hBefore⟩, hLast⟩
    · rintro ⟨before, hBefore, hLast⟩
      obtain ⟨next, hStep, hAfter⟩ := after_succ.1 hBefore
      exact ⟨next, hStep, ih.2 ⟨before, hAfter, hLast⟩⟩

theorem undergoes_after {n : Nat} (h : after code n machine = some last) :
    Relation.ReflTransGen Undergoes machine last := by
  induction n generalizing machine with
  | zero =>
    cases h
    exact .refl
  | succ n ih =>
    obtain ⟨next, hStep, hAfter⟩ := after_succ.1 h
    exact .head (.becomes (.next hStep)) (ih hAfter)

theorem sound_after {n : Nat} (hs : machine.memory.Sound)
    (h : after code n machine = some last) : last.memory.Sound :=
  sound_of_reached hs (undergoes_after h)

theorem foreign_after {n : Nat} (h : after code n machine = some last) :
    last.foreign = machine.foreign := by
  induction n generalizing machine with
  | zero =>
    cases h
    rfl
  | succ n ih =>
    obtain ⟨next, hStep, hAfter⟩ := after_succ.1 h
    have hNext := machine.foreign_step code
    rw [hStep] at hNext
    exact (ih hAfter).trans hNext

/-- Functions of the host that always keep to something keep to it in a run. -/
theorem hostKeeps_after {allowed : Request σ → Prop} {good : Value → Prop}
    (h : ∀ function ∈ machine.foreign.functions, ∀ input world,
      (function.body input).Keeps allowed good world)
    {n : Nat} (hAfter : after code n machine = some last) : last.HostKeeps allowed good code := by
  intro script hEntered
  obtain ⟨id, input, hScript⟩ := script?_of_entered? hEntered
  obtain ⟨function, hMem, rfl⟩ := ForeignTable.script?_eq_some hScript
  rw [foreign_after hAfter] at hMem
  exact h function hMem input last.world

/-! ## Whole runs -/

/-- A run has one end. -/
theorem end_unique {k n : Nat} {end' : Machine σ} (h : after code k machine = some last)
    (h' : after code n machine = some end') (hEnds : (last.step code).Ends)
    (hEnds' : (end'.step code).Ends) : last = end' := by
  induction k generalizing n machine with
  | zero =>
    cases h
    cases n with
    | zero => exact Option.some.inj h'
    | succ n =>
      obtain ⟨next, hStep, -⟩ := after_succ.1 h'
      rw [hStep] at hEnds
      exact hEnds.elim
  | succ k ih =>
    obtain ⟨next, hStep, hNext⟩ := after_succ.1 h
    cases n with
    | zero =>
      cases h'
      rw [hStep] at hEnds'
      exact hEnds'.elim
    | succ n =>
      obtain ⟨next', hStep', hNext'⟩ := after_succ.1 h'
      rw [hStep] at hStep'
      cases hStep'
      exact ih hNext hNext'

theorem steps_of_ends {fuel : Nat} (h : (machine.step code).Ends) :
    steps code (fuel + 1) machine = some (machine.step code) := by
  rw [steps]
  rcases hStep : machine.step code with next | ended | ⟨fault, warning, ended⟩
  · rw [hStep] at h
    exact h.elim
  · rfl
  · rfl

theorem steps_eq_some {fuel : Nat} {turn : Turn σ} :
    steps code fuel machine = some turn ↔
      ∃ n last, n < fuel ∧ after code n machine = some last ∧ last.step code = turn ∧
        turn.Ends := by
  induction fuel generalizing machine with
  | zero => simp [steps]
  | succ fuel ih =>
    have hEnds : ∀ ended : Turn σ, machine.step code = ended → ended.Ends →
        ((some ended = some turn) ↔ ∃ n last, n < fuel + 1 ∧ after code n machine = some last ∧
          last.step code = turn ∧ turn.Ends) := by
      intro ended hStep hEnded
      constructor
      · intro hTurn
        cases hTurn
        exact ⟨0, machine, by omega, rfl, hStep, hEnded⟩
      · rintro ⟨n, last, -, hAfter, hLast, -⟩
        cases n with
        | zero =>
          cases hAfter
          rw [← hLast, hStep]
        | succ n =>
          obtain ⟨next, hNext, -⟩ := after_succ.1 hAfter
          rw [hStep] at hNext
          subst hNext
          exact hEnded.elim
    rw [steps]
    rcases hStep : machine.step code with next | ended | ⟨fault, warning, ended⟩
    · simp only
      rw [ih]
      constructor
      · rintro ⟨n, last, hn, hAfter, hLast, hTurn⟩
        exact ⟨n + 1, last, by omega, after_succ.2 ⟨next, hStep, hAfter⟩, hLast, hTurn⟩
      · rintro ⟨n, last, hn, hAfter, hLast, hTurn⟩
        cases n with
        | zero =>
          cases hAfter
          rw [← hLast, hStep] at hTurn
          exact hTurn.elim
        | succ n =>
          obtain ⟨after, hNext, hAfter⟩ := after_succ.1 hAfter
          rw [hStep] at hNext
          cases hNext
          exact ⟨n, last, by omega, hAfter, hLast, hTurn⟩
    · exact hEnds _ hStep trivial
    · exact hEnds _ hStep trivial

/-- A run that has come to its end has taken instructions that went on, and one that
did not. -/
theorem execute_eq_some {fuel : Nat} {execution : Execution σ} :
    machine.execute fuel code = some execution ↔
      ∃ n last, n < fuel ∧ after code n machine.start = some last ∧
        (last.step code).Ends ∧ execution = conclude (last.step code) := by
  unfold execute
  rw [Option.map_eq_some_iff]
  constructor
  · rintro ⟨turn, hSteps, rfl⟩
    obtain ⟨n, last, hn, hAfter, rfl, hEnds⟩ := steps_eq_some.1 hSteps
    exact ⟨n, last, hn, hAfter, hEnds, rfl⟩
  · rintro ⟨n, last, hn, hAfter, hEnds, rfl⟩
    exact ⟨_, steps_eq_some.2 ⟨n, last, hn, hAfter, rfl, hEnds⟩, rfl⟩

/-! ## Streams that agree -/

section Agree

variable (h : ∀ n last, after code n machine = some last → last.step code = last.step other)

include h

theorem after_congr (n : Nat) : after code n machine = after other n machine := by
  induction n generalizing machine with
  | zero => rfl
  | succ n ih =>
    have hFirst : machine.step code = machine.step other := h 0 machine rfl
    rw [after, after, ← hFirst]
    rcases hStep : machine.step code with next | ended | ⟨fault, warning, ended⟩
    · exact ih fun k last hAfter => h (k + 1) last (after_succ.2 ⟨next, hStep, hAfter⟩)
    · rfl
    · rfl

theorem steps_congr (fuel : Nat) : steps code fuel machine = steps other fuel machine := by
  induction fuel generalizing machine with
  | zero => rfl
  | succ fuel ih =>
    have hFirst : machine.step code = machine.step other := h 0 machine rfl
    rw [steps, steps, ← hFirst]
    rcases hStep : machine.step code with next | ended | ⟨fault, warning, ended⟩
    · exact ih fun k last hAfter => h (k + 1) last (after_succ.2 ⟨next, hStep, hAfter⟩)
    · rfl
    · rfl

end Agree

end Machine

end RegisterMachine

-- The sizes of a machine: what it was made for, its globals and its registers. Whatever
-- programs and the host do, they stay as they were when the machine was made.
import RegisterMachine.Proofs.Runs

namespace RegisterMachine

variable {σ : Type}

namespace Machine

/-- The sizes of a machine: what it was made for, its globals and its registers. -/
def sizes (machine : Machine σ) : Config × Nat × Nat :=
  (machine.config, machine.registers.globals, machine.registers.size)

theorem globals_write (registers : Registers) (address : Nat) (value : Value) :
    (registers.write address value).globals = registers.globals := rfl

theorem size_write (registers : Registers) (address : Nat) (value : Value) :
    (registers.write address value).size = registers.size := by
  simp [Registers.size, Registers.write]

theorem sizes_commit (machine : Machine σ) (effect : Effect) :
    (machine.commit effect).machine.sizes = machine.sizes := by
  cases effect with
  | write address value =>
    simp [commit, Turn.machine, sizes, writeRegister, advance, globals_write, size_write]
  | allocate address size mode =>
    simp [commit, Turn.machine, sizes, allocateInto, advance, globals_write, size_write]
  | foreign id input address =>
    rw [commit]
    rcases machine.callForeign_cases id input address with ⟨-, warning, hCall⟩ |
      ⟨script, world, -, ⟨value, -, hCall⟩ | ⟨reason, warning, -, hCall⟩⟩
    · rw [hCall]
      rfl
    · simp [hCall, Turn.machine, sizes, writeRegister, advance, withWorld, globals_write,
        size_write]
    · rw [hCall]
      rfl
  | _ => rfl

theorem sizes_step (machine : Machine σ) (code : Array Instruction) :
    (machine.step code).machine.sizes = machine.sizes := by
  rcases machine.step_cases code with ⟨fault, hStep⟩ | ⟨_, _, effect, _, _, _, _, hStep⟩
  · rw [hStep]
    rfl
  · rw [hStep]
    exact machine.sizes_commit effect

theorem sizes_copyConstants (constants : List Constant) (address : Nat) (registers : Registers) :
    (copyConstants registers address constants).globals = registers.globals ∧
      (copyConstants registers address constants).size = registers.size := by
  induction constants generalizing address registers with
  | nil => exact ⟨rfl, rfl⟩
  | cons constant constants ih =>
    rw [copyConstants]
    simpa [globals_write, size_write] using
      ih (address + 1) (registers.write address (.ofConstant constant))

theorem sizes_of_becomes {machine after : Machine σ} (h : machine.Becomes after) :
    after.sizes = machine.sizes := by
  cases h with
  | start | edit _ | changeTable | signal => rfl
  | @next code _ hStep =>
    have hSizes := machine.sizes_step code
    rw [hStep] at hSizes
    exact hSizes
  | @finish code _ hStep | @fault code _ _ _ hStep =>
    have hSizes := machine.sizes_step code
    rw [hStep] at hSizes
    exact hSizes
  | allocate hAllocate =>
    obtain ⟨_, _, hAfter⟩ := Arena.bind_eq_ok.1 hAllocate
    cases hAfter
    rfl
  | supertrace hTrace | detrace hTrace =>
    obtain ⟨_, _, hAfter⟩ := Arena.bind_eq_ok.1 hTrace
    cases hAfter
    rfl
  | @load program _ hLoad =>
    unfold load at hLoad
    split at hLoad
    · cases hLoad
    · cases hLoad
      simp [sizes, sizes_copyConstants]
  | setRegister hSet =>
    obtain ⟨_, _, hAfter⟩ := Arena.bind_eq_ok.1 hSet
    cases hAfter
    simp [sizes, globals_write, size_write]
  | reset => simp [sizes, reset, Registers.reset, Registers.size]

theorem sizes_of_undergoes {machine after : Machine σ} (h : machine.Undergoes after) :
    after.sizes = machine.sizes := by
  cases h with
  | becomes hBecomes => exact sizes_of_becomes hBecomes
  | allocateUnowned _ => rfl

theorem sizes_of_reached {first machine : Machine σ}
    (h : Relation.ReflTransGen Undergoes first machine) : machine.sizes = first.sizes := by
  induction h with
  | refl => rfl
  | tail _ hStep ih => exact (sizes_of_undergoes hStep).trans ih

theorem sizes_make {config : Config} {host : σ} {first : Machine σ}
    (h : make config host = .ok first) :
    first.sizes = (config, config.globalCount, config.stackSize) := by
  rw [(make_eq_ok.1 h).2]
  simp [sizes, fresh, Registers.size]

end Machine

end RegisterMachine

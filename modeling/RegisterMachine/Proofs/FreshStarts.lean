-- A reset machine starts afresh. The slots of its heap, their generations and the order in which
-- they are reused stay behind, so it gives out other handles than a new machine; nothing else
-- of its past shows in a later run.
import RegisterMachine.Proofs.RenamedRuns

namespace RegisterMachine

/-! ## Limits stay -/

namespace Memory

/-- The limits of the heap, and the most frames. -/
def limits (memory : Memory) : (Nat × Nat) × Nat :=
  (memory.heap.limits, memory.collector.frameLimit)

theorem limits_eq {memory : Memory} {heap : Arena} {collector : Collector}
    (hHeap : heap.limits = memory.heap.limits)
    (hCollector : collector.frameLimit = memory.collector.frameLimit) :
    limits { heap, collector } = memory.limits :=
  Prod.ext hHeap hCollector

theorem limits_insert (memory : Memory) (size : UInt16) (mode : TraceMode) :
    (memory.insert size mode).2.limits = memory.limits :=
  limits_eq (Arena.limits_insert _ _ _) (Collector.frameLimit_modifyCurrent _ _)

theorem limits_allocate {memory after : Memory} {size : UInt16} {mode : TraceMode}
    {handle : Handle} (h : memory.allocate size mode = .ok (handle, after)) :
    after.limits = memory.limits := by
  have hInsert := memory.limits_insert size mode
  unfold allocate at h
  split at h
  · cases h
  · rw [Except.ok.inj h] at hInsert
    exact hInsert

theorem limits_free (memory : Memory) (handle : Handle) :
    (memory.free handle).limits = memory.limits :=
  limits_eq (Arena.limits_erase _ _) (Collector.frameLimit_modifyCurrent _ _)

theorem frameLimit_foldl_traceCounted (heap : Arena) (handles : List Handle)
    (state : Nat × Collector) :
    (handles.foldl (traceCounted heap) state).2.frameLimit = state.2.frameLimit := by
  induction handles generalizing state with
  | nil => rfl
  | cons handle handles ih =>
    rw [List.foldl_cons, ih]
    unfold traceCounted
    split
    · rfl
    · exact Collector.frameLimit_modifyCurrent _ _

theorem limits_supertrace {memory after : Memory} {handle : Handle} {count : Nat}
    (h : memory.supertrace handle = .ok (count, after)) : after.limits = memory.limits := by
  unfold supertrace at h
  split at h
  · simp only [← Array.foldl_toList, Except.ok.injEq, Prod.mk.injEq] at h
    obtain ⟨-, rfl⟩ := h
    exact limits_eq (Arena.limits_mark _ _) (frameLimit_foldl_traceCounted _ _ _)
  · cases h

theorem limits_detrace {memory after : Memory} {handle : Handle} {count : Nat}
    (h : memory.detrace handle = .ok (count, after)) : after.limits = memory.limits := by
  unfold detrace at h
  split at h
  · simp only [Except.ok.injEq, Prod.mk.injEq] at h
    obtain ⟨-, rfl⟩ := h
    exact limits_eq (Arena.limits_mark _ _) (Collector.frameLimit_modifyCurrent _ _)
  · cases h

theorem limits_sweepOne (epoch : UInt32) (state : SweepReport × Memory) (handle : Handle) :
    (sweepOne epoch state handle).2.limits = state.2.limits := by
  rcases sweepOne_cases epoch state handle with ⟨-, hNext⟩ | ⟨-, hNext⟩
  · rw [hNext]
    exact limits_eq rfl (Collector.frameLimit_modifyCurrent _ _)
  · rw [hNext]
    exact limits_eq (Arena.limits_erase _ _) rfl

theorem limits_foldl_sweepOne (epoch : UInt32) (entries : List Handle)
    (state : SweepReport × Memory) :
    (entries.foldl (sweepOne epoch) state).2.limits = state.2.limits := by
  induction entries generalizing state with
  | nil => rfl
  | cons handle entries ih => rw [List.foldl_cons, ih, limits_sweepOne]

theorem limits_closeFrame (memory : Memory) : memory.closeFrame.2.limits = memory.limits := by
  unfold closeFrame
  rcases memory.collector.frames.back? with _ | frame
  · rfl
  · simp only [← Array.foldl_toList]
    rw [limits_foldl_sweepOne]
    exact limits_eq (Arena.limits_mark _ _) rfl

theorem limits_closeFrames (n : Nat) (total : SweepReport) (memory : Memory) :
    (closeFrames n total memory).2.limits = memory.limits := by
  induction n generalizing total memory with
  | zero => rfl
  | succ n ih => exact (ih _ _).trans (limits_closeFrame memory)

theorem limits_unwind (memory : Memory) : memory.unwind.2.limits = memory.limits :=
  limits_closeFrames _ _ memory

theorem limits_of_served {before served : Memory}
    (h : Relation.ReflTransGen Serves before served) : served.limits = before.limits := by
  induction h with
  | refl => rfl
  | tail _ hStep ih =>
    rw [← ih]
    cases hStep with
    | same | modify _ => rfl
    | allocate _ => exact limits_insert _ _ _

theorem limits_of_edited {memory : Memory} {heap : Arena} (h : memory.heap.Edited heap) :
    (memory.withHeap heap).limits = memory.limits := by
  refine limits_eq ?_ rfl
  cases h with
  | store hStore =>
    obtain ⟨_, _, _, rfl⟩ := Arena.store_eq_ok hStore
    rfl
  | storeUnchecked hStore =>
    obtain ⟨_, _, _, rfl⟩ := Arena.storeUnchecked_eq_ok hStore
    rfl
  | setFlag hFlag =>
    obtain rfl := Arena.setFlag_eq_ok hFlag
    rfl
  | setMode hMode =>
    obtain rfl := Arena.setMode_eq_ok hMode
    rfl
  | release hRelease =>
    obtain ⟨_, rfl⟩ := Arena.release_eq_ok hRelease
    exact Arena.limits_erase _ _
  | clear => rfl

end Memory

namespace Machine

variable {σ : Type}

open Memory

theorem limits_commit {machine : Machine σ} (hs : machine.memory.Sound) (effect : Effect) :
    (machine.commit effect).machine.memory.limits = machine.memory.limits := by
  cases effect with
  | allocate address size mode => exact limits_insert _ _ _
  | free handle => exact limits_free _ _
  | trace handle => exact limits_eq rfl (Collector.frameLimit_modifyCurrent _ _)
  | closeFrame => exact limits_closeFrame _
  | foreign id input address => exact limits_of_served (served_callForeign hs id input address)
  | _ => rfl

theorem limits_step {machine : Machine σ} (hs : machine.memory.Sound) (code : Array Instruction) :
    (machine.step code).machine.memory.limits = machine.memory.limits := by
  rcases machine.step_cases code with ⟨fault, hStep⟩ | ⟨_, _, effect, _, _, _, _, hStep⟩
  · rw [hStep]
    rfl
  · rw [hStep]
    exact limits_commit hs effect

theorem limits_of_becomes {machine after : Machine σ} (hs : machine.memory.Sound)
    (h : machine.Becomes after) : after.memory.limits = machine.memory.limits := by
  cases h with
  | start | changeTable | signal | reset => rfl
  | @next code _ hStep | @finish code _ hStep =>
    have hLimits := limits_step hs code
    rw [hStep] at hLimits
    exact hLimits
  | @fault code _ _ _ hStep =>
    have hLimits := limits_step hs code
    rw [hStep] at hLimits
    exact (limits_unwind _).trans hLimits
  | allocate hAllocate =>
    obtain ⟨⟨handle, memory⟩, hMemory, hAfter⟩ := Arena.bind_eq_ok.1 hAllocate
    cases hAfter
    exact limits_allocate hMemory
  | supertrace hTrace =>
    obtain ⟨⟨count, memory⟩, hMemory, hAfter⟩ := Arena.bind_eq_ok.1 hTrace
    cases hAfter
    exact limits_supertrace hMemory
  | detrace hTrace =>
    obtain ⟨⟨count, memory⟩, hMemory, hAfter⟩ := Arena.bind_eq_ok.1 hTrace
    cases hAfter
    exact limits_detrace hMemory
  | load hLoad =>
    unfold load at hLoad
    split at hLoad
    · cases hLoad
    · cases hLoad
      rfl
  | setRegister hSet =>
    obtain ⟨address, _, hAfter⟩ := Arena.bind_eq_ok.1 hSet
    cases hAfter
    rfl
  | edit hEdited => exact limits_of_edited hEdited

theorem limits_of_undergoes {machine after : Machine σ} (hs : machine.memory.Sound)
    (h : machine.Undergoes after) : after.memory.limits = machine.memory.limits := by
  cases h with
  | becomes hBecomes => exact limits_of_becomes hs hBecomes
  | allocateUnowned hAllocate =>
    obtain ⟨-, -, rfl⟩ := Arena.allocate_eq_ok hAllocate
    exact Memory.limits_eq (Arena.limits_insert _ _ _) rfl

theorem limits_of_reached {first machine : Machine σ} (hs : first.memory.Sound)
    (h : Relation.ReflTransGen Undergoes first machine) :
    machine.memory.limits = first.memory.limits := by
  induction h with
  | refl => rfl
  | tail hFirst hStep ih =>
    exact (limits_of_undergoes (sound_of_reached hs hFirst) hStep).trans ih

/-! ## A reset machine beside a new one -/

theorem renamed_reset {machine : Machine σ} (hs : machine.memory.Sound)
    (hSizes : machine.sizes
      = (machine.config, machine.config.globalCount, machine.config.stackSize))
    (hLimits : machine.memory.limits
      = ((machine.config.heapLimit, machine.config.poolLimit), machine.config.frameLimit))
    (hGoes : machine.haltRequested = false) (host : σ) :
    ∃ ρ start, (fresh machine.config host).Renamed ρ start machine.reset := by
  have hEmpty : ∀ i g, machine.memory.heap.clear.2.stateAt i ≠ some (g, true) := by
    intro i g
    rw [Arena.stateAt_clear]
    simp
  obtain ⟨ρ, hHeap⟩ := Arena.renamed_of_empty (Arena.sound_clear hs.heap) hEmpty rfl rfl
  have hHeapLimits := congrArg Prod.fst hLimits
  have hLimit : machine.memory.heap.clear.2.limit = machine.config.heapLimit :=
    congrArg Prod.fst hHeapLimits
  have hPoolLimit : machine.memory.heap.clear.2.poolLimit = machine.config.poolLimit :=
    congrArg Prod.snd hHeapLimits
  have hFrameLimit : machine.memory.collector.frameLimit = machine.config.frameLimit :=
    congrArg Prod.snd hLimits
  have hGlobals : machine.registers.globals = machine.config.globalCount :=
    congrArg (·.2.1) hSizes
  have hSize : machine.registers.size = machine.config.stackSize := congrArg (·.2.2) hSizes
  rw [hLimit, hPoolLimit] at hHeap
  refine ⟨ρ, _, rfl, rfl, ?_, rfl, ⟨hHeap, ?_⟩, hGoes, rfl⟩
  · simp [reset, fresh, Registers.reset, Renaming.registers, Renaming.value_zero, hGlobals, hSize]
  · simp [reset, fresh, Memory.reset, Memory.make, Collector.reset, Renaming.collector,
      Renaming.frame, hFrameLimit]

theorem Renamed.load {ρ : Renaming} {start : Nat} {machine other : Machine σ}
    (h : machine.Renamed ρ start other) (program : Program) :
    (∃ error, other.load program = .error error ∧ machine.load program = .error error) ∨
    ∃ loaded loaded', other.load program = .ok loaded' ∧ machine.load program = .ok loaded ∧
      loaded.Renamed ρ start loaded' := by
  unfold Machine.load
  rw [h.config]
  split
  · exact Or.inl ⟨_, rfl, rfl⟩
  · refine Or.inr ⟨_, _, rfl, rfl, rfl, h.ip, ?_, h.calls, h.memory, h.haltRequested,
      h.lastHalt⟩
    simp only [h.registers, ρ.copyConstants_registers]

/-- An operation that no instruction of a stream has is never fetched. -/
theorem fetched?_ne (machine : Machine σ) {code : Array Instruction} {op : Operation}
    (h : ∀ ins ∈ code, ins.opcode.decode? ≠ some op) : machine.fetched? code ≠ some op := by
  intro hFetched
  obtain ⟨ins, hFetch, hDecode⟩ := Option.bind_eq_some_iff.1 hFetched
  exact h ins (Array.mem_of_getElem? hFetch) hDecode

/-! ## The law -/

/-- `other` is in the state of `machine`, with the handles renamed. Marks, which only tell
the passes of the collector apart, are left out of the allocations, live and pooled. -/
structure Matches (ρ : Renaming) (machine other : Machine σ) : Prop where
  ip : other.ip = machine.ip
  base : other.registers.base = machine.registers.base
  depth : other.memory.collector.depth = machine.memory.collector.depth
  lastHalt : other.lastHalt = machine.lastHalt
  live : other.memory.heap.live = machine.memory.heap.live
  pool : other.memory.heap.pool.map (·.setMark 0) =
    machine.memory.heap.pool.map (Arena.renamed ρ)
  registers : other.registers.cells = machine.registers.cells.map ρ.value
  contents : ∀ handle, other.memory.heap.contents.get? (ρ.handle handle)
    = (machine.memory.heap.contents.get? handle).map ρ.allocation
  frames : other.memory.collector.stack = machine.memory.collector.stack.map ρ.frame

theorem Renamed.toMatches {ρ : Renaming} {start : Nat} {machine other : Machine σ}
    (h : machine.Renamed ρ start other) : machine.Matches ρ other where
  ip := h.ip
  base := by rw [h.registers]; rfl
  depth := by rw [h.memory.collector, ρ.depth_collector]
  lastHalt := h.lastHalt
  live := h.memory.heap.live
  pool := h.memory.heap.pool
  registers := by rw [h.registers]; rfl
  contents := h.memory.heap.contents
  frames := by
    rw [h.memory.collector]
    simp [Collector.stack, Renaming.collector]

/-- However a machine was used, when it is reset it is a new machine up to one renaming of
handles. A program is loaded into both or into none, with the same error. If its run does not
come to a call into the host, it comes to its end on both or on none, with the same fault at the
same instruction or without one, with the same log, and in states that match. -/
theorem a_reset_machine_runs_as_a_new_one (config : Config) (host host' : σ)
    (first machine : Machine σ) (hMake : make config host = .ok first)
    (hReached : Relation.ReflTransGen Undergoes first machine)
    (hGoes : machine.haltRequested = false) :
    ∃ new, make machine.config host' = .ok new ∧ ∃ ρ : Renaming, ∀ program : Program,
      (∃ error, machine.reset.load program = .error error ∧ new.load program = .error error) ∨
      ∃ reset loaded, machine.reset.load program = .ok reset ∧ new.load program = .ok loaded ∧
        ((∀ n before, after program.instructions n loaded.start = some before →
            before.fetched? program.instructions ≠ some .foreign) →
          ∀ fuel, (reset.run fuel program = none ∧ loaded.run fuel program = none) ∨
            ∃ last last', reset.run fuel program = some last' ∧
              loaded.run fuel program = some last ∧
              last'.halt = last.halt ∧ last'.records = last.records ∧
              last.machine.Matches ρ last'.machine) := by
  have hFirst := make_eq_ok.1 hMake
  have hSizes := (sizes_of_reached hReached).trans (sizes_make hMake)
  have hConfig : machine.config = config := congrArg Prod.fst hSizes
  have hSound : first.memory.Sound := by
    rw [memory_make hMake]
    exact Memory.sound_make _ _ _
  have hs := sound_of_reached hSound hReached
  have hLimits : machine.memory.limits
      = ((config.heapLimit, config.poolLimit), config.frameLimit) := by
    rw [limits_of_reached hSound hReached, memory_make hMake]
    rfl
  rw [← hConfig] at hFirst hSizes hLimits
  obtain ⟨ρ, start, hRenamed⟩ := renamed_reset hs hSizes hLimits hGoes host'
  refine ⟨fresh machine.config host', make_eq_ok.2 ⟨hFirst.1, rfl⟩, ρ, fun program => ?_⟩
  rcases hRenamed.load program with ⟨error, hReset, hNew⟩ | ⟨loaded, reset, hReset, hNew, hLoaded⟩
  · exact Or.inl ⟨error, hReset, hNew⟩
  · refine Or.inr ⟨reset, loaded, hReset, hNew, fun hCalls fuel => ?_⟩
    have hRun := hLoaded.execute hCalls fuel
    unfold run
    generalize loaded.execute fuel program.instructions = last at hRun ⊢
    generalize reset.execute fuel program.instructions = last' at hRun ⊢
    cases hRun with
    | none => exact Or.inl ⟨rfl, rfl⟩
    | some hEnd => exact Or.inr ⟨_, _, rfl, rfl, hEnd.halt, hEnd.records, hEnd.machine.toMatches⟩

/-- A program that makes an array. -/
def smallAllocation : Program where
  header := {}
  constants := #[]
  instructions := #[⟨.make .allocI 0, 0, 1, 1⟩, .sentinel]

/-- After two allocations, of which the first was released, the new array of a reset machine goes
into the second slot in its second generation. -/
theorem an_array_of_a_reset_machine_has_another_name :
    ∃ machine, Relation.ReflTransGen Undergoes small machine ∧ machine.haltRequested = false ∧
      ∃ ρ last last', machine.reset.run 2 smallAllocation = some last' ∧
        small.run 2 smallAllocation = some last ∧
        last.machine.registers.cells = #[.zero, .handle ⟨0, 0⟩] ∧
        last'.machine.registers.cells = #[.zero, .handle ⟨1, 1⟩] ∧
        ρ.handle ⟨0, 0⟩ = ⟨1, 1⟩ ∧ last.machine.Matches ρ last'.machine := by
  let one : Machine Unit := { small with memory := (small.memory.insert 1 .always).2 }
  let two : Machine Unit := { one with memory := (one.memory.insert 1 .always).2 }
  let machine := two.withHeap (two.memory.heap.erase ⟨0, 0⟩)
  have hFirst : small.allocate 1 .always = .ok (_, one) := rfl
  have hSecond : one.allocate 1 .always = .ok (_, two) := rfl
  have hRelease : two.memory.heap.release ⟨0, 0⟩ = .ok (two.memory.heap.erase ⟨0, 0⟩) := by
    decide +kernel
  have hReached : Relation.ReflTransGen Undergoes small machine :=
    .head (.becomes (.allocate hFirst)) (.head (.becomes (.allocate hSecond))
      (.single (.becomes (.edit (.release hRelease)))))
  have hCells : (machine.reset.run 2 smallAllocation).map (·.machine.registers.cells)
        = some #[.zero, .handle ⟨1, 1⟩] ∧
      (small.run 2 smallAllocation).map (·.machine.registers.cells)
        = some #[.zero, .handle ⟨0, 0⟩] := by decide +kernel
  have hNoCall : ∀ ins ∈ smallAllocation.instructions, ins.opcode.decode? ≠ some .foreign := by
    decide +kernel
  obtain ⟨new, hNew, ρ, hPrograms⟩ := a_reset_machine_runs_as_a_new_one small.config () () small
    machine make_small hReached rfl
  cases Except.ok.inj (make_small.symm.trans hNew)
  rcases hPrograms smallAllocation with ⟨error, hError, -⟩ | ⟨reset, loaded, hReset, hLoaded, hRuns⟩
  · cases hError
  · cases hReset
    cases hLoaded
    rcases hRuns (fun _ before _ => before.fetched?_ne hNoCall) 2 with
      ⟨hNone, -⟩ | ⟨last, last', hLast', hLast, -, -, hMatches⟩
    · have hNoCells := hCells.1
      rw [show machine.reset.run 2 smallAllocation = none from hNone] at hNoCells
      cases hNoCells
    · have hUsed : last'.machine.registers.cells = #[.zero, .handle ⟨1, 1⟩] := by
        have hSome := hCells.1
        rw [show machine.reset.run 2 smallAllocation = some last' from hLast'] at hSome
        exact Option.some.inj hSome
      have hFresh : last.machine.registers.cells = #[.zero, .handle ⟨0, 0⟩] := by
        have hSome := hCells.2
        rw [show small.run 2 smallAllocation = some last from hLast] at hSome
        exact Option.some.inj hSome
      have hName := hMatches.registers
      rw [hUsed, hFresh] at hName
      have hHandle : ρ.handle ⟨0, 0⟩ = ⟨1, 1⟩ := by
        simpa [Renaming.value_handle, Renaming.value_zero, eq_comm] using hName
      exact ⟨machine, hReached, rfl, ρ, last, last', hLast', hLast, hFresh, hUsed, hHandle,
        hMatches⟩

end Machine

end RegisterMachine

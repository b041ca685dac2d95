-- The bounds of a machine. Whatever programs and the host do, the base stays inside the stack,
-- and the open calls, the collector frames, the live allocations and the pool stay within their
-- limits; every plan writes registers of the stack.
import RegisterMachine.Proofs.HeapCounts
import RegisterMachine.Proofs.LocatedOperands

namespace RegisterMachine

variable {σ : Type}

/-! ## The base -/

namespace Registers

variable {registers : Registers}

/-- The base lies above the globals and inside the stack. -/
def BaseInside (registers : Registers) : Prop :=
  registers.globals ≤ registers.base ∧ registers.base < registers.size

theorem baseInside_baseAbove (h : registers.BaseInside) {amount : UInt16} {base : Nat}
    (hBase : registers.baseAbove amount = .ok base) : (registers.setBase base).BaseInside := by
  unfold baseAbove at hBase
  simp only at hBase
  split at hBase
  · cases hBase
    exact ⟨h.1.trans (Nat.le_add_right _ _), by assumption⟩
  · cases hBase

theorem baseInside_baseBelow (h : registers.BaseInside) {amount : UInt16} {base : Nat}
    (hBase : registers.baseBelow amount = .ok base) : (registers.setBase base).BaseInside := by
  unfold baseBelow at hBase
  split at hBase
  · rename_i hAbove
    cases hBase
    exact ⟨Nat.le_sub_of_add_le hAbove, Nat.lt_of_le_of_lt (Nat.sub_le _ _) h.2⟩
  · cases hBase

theorem BaseInside.write (h : registers.BaseInside) (address : Nat) (value : Value) :
    (registers.write address value).BaseInside :=
  ⟨h.1, Nat.lt_of_lt_of_eq h.2 (Machine.size_write registers address value).symm⟩

theorem BaseInside.resetBase (h : registers.BaseInside) : registers.resetBase.BaseInside :=
  ⟨Nat.le_refl _, Nat.lt_of_le_of_lt h.1 h.2⟩

theorem BaseInside.reset (h : registers.BaseInside) : registers.reset.BaseInside := by
  refine ⟨Nat.le_refl _, ?_⟩
  simpa [Registers.reset, size] using Nat.lt_of_le_of_lt h.1 h.2

theorem BaseInside.copyConstants {registers : Registers} (h : registers.BaseInside)
    (constants : List Constant) (address : Nat) :
    (Machine.copyConstants registers address constants).BaseInside := by
  induction constants generalizing registers address with
  | nil => exact h
  | cons constant constants ih => exact ih (h.write _ _) _

end Registers

/-! ## Frames that stay -/

theorem Collector.depth_modifyCurrent (collector : Collector) (change : Frame → Frame) :
    (collector.modifyCurrent change).depth = collector.depth := by
  rw [← length_outer, outer_modifyCurrent, length_outer]

namespace Memory

theorem depth_insert (memory : Memory) (size : UInt16) (mode : TraceMode) :
    (memory.insert size mode).2.collector.depth = memory.collector.depth :=
  Collector.depth_modifyCurrent _ _

theorem depth_foldl_traceCounted (heap : Arena) (handles : List Handle)
    (state : Nat × Collector) :
    (handles.foldl (traceCounted heap) state).2.depth = state.2.depth := by
  induction handles generalizing state with
  | nil => rfl
  | cons handle handles ih =>
    rw [List.foldl_cons, ih]
    unfold traceCounted
    split
    · rfl
    · exact Collector.depth_modifyCurrent _ _

theorem depth_supertrace {memory after : Memory} {handle : Handle} {count : Nat}
    (h : memory.supertrace handle = .ok (count, after)) :
    after.collector.depth = memory.collector.depth := by
  unfold supertrace at h
  split at h
  · simp only [← Array.foldl_toList, Except.ok.injEq, Prod.mk.injEq] at h
    obtain ⟨-, rfl⟩ := h
    exact depth_foldl_traceCounted _ _ _
  · cases h

theorem depth_detrace {memory after : Memory} {handle : Handle} {count : Nat}
    (h : memory.detrace handle = .ok (count, after)) :
    after.collector.depth = memory.collector.depth := by
  unfold detrace at h
  split at h
  · simp only [Except.ok.injEq, Prod.mk.injEq] at h
    obtain ⟨-, rfl⟩ := h
    exact Collector.depth_modifyCurrent _ _
  · cases h

theorem depth_allocate {memory after : Memory} {size : UInt16} {mode : TraceMode}
    {handle : Handle} (h : memory.allocate size mode = .ok (handle, after)) :
    after.collector.depth = memory.collector.depth := by
  have hInsert := memory.depth_insert size mode
  unfold allocate at h
  split at h
  · cases h
  · rw [Except.ok.inj h] at hInsert
    exact hInsert

end Memory

namespace Machine

variable {machine : Machine σ} {op : Operation}

/-! ## Effects that fit -/

/-- The register that an effect writes. -/
def written? : Effect → Option Nat
  | .write address _ | .allocate address .. | .foreign _ _ address => some address
  | _ => none

/-- The machine has room for the effect: it writes registers of the stack, puts the base
between the globals and the end of the stack, and opens no call too many. -/
def Fits (machine : Machine σ) : Effect → Prop
  | .write address _ | .allocate address .. | .foreign _ _ address =>
    address < machine.registers.size
  | .setBase base => (machine.registers.setBase base).BaseInside
  | .call _ => machine.calls.size < machine.config.frameLimit
  | _ => True

theorem Fits.set {effect : Effect} (h : machine.Fits effect) {address : Nat}
    (hWritten : written? effect = some address) (value : Value) :
    machine.registers.set address value = .ok (machine.registers.write address value) := by
  cases effect with
  | write _ _ | allocate _ _ _ | foreign _ _ _ =>
    cases hWritten
    exact Registers.set_of_lt h value
  | _ => cases hWritten

theorem fits_planAllocate {address : Nat} (h : address < machine.registers.size)
    (size mode : UInt16) : Gives machine.Fits (machine.planAllocate address size mode) :=
  gives_bind fun _ _ => gives_bind fun _ _ => gives_ok h

theorem fits_planFree (address : Nat) : Gives machine.Fits (machine.planFree address) :=
  gives_bind fun _ _ => gives_bind fun _ _ => gives_ok trivial

theorem fits_planTrace (address : Nat) : Gives machine.Fits (machine.planTrace address) :=
  gives_bind fun _ _ => gives_bind fun _ _ => gives_ok trivial

theorem fits_planCompute (ins : Instruction) (op : Operation) :
    Gives machine.Fits (machine.planCompute ins op) := by
  unfold planCompute
  split
  · refine gives_bind fun _ _ => gives_bind fun _ _ => gives_bind fun target hTarget => ?_
    refine gives_bind fun _ _ => gives_bind fun _ _ => gives_bind fun _ _ => ?_
    exact gives_ok (locate_lt hTarget)
  · refine gives_bind fun _ _ => gives_bind fun target hTarget => ?_
    exact gives_bind fun _ _ => gives_bind fun _ _ => gives_ok (locate_lt hTarget)
  · exact gives_error _

/-- The plan of any instruction, located or not, fits when the base does. -/
theorem fits_planFor (h : machine.registers.BaseInside) (ins : Instruction) (op : Operation) :
    Gives machine.Fits (machine.planFor ins op) := by
  unfold planFor
  cases op with
  | abort =>
    simp only [planAbort]
    split
    · exact gives_ok trivial
    · exact gives_error _
    · exact gives_error _
  | foreign =>
    refine gives_bind fun _ _ => gives_bind fun _ _ => gives_bind fun output hOutput => ?_
    exact gives_bind fun _ _ => gives_bind fun _ _ => gives_ok (locate_lt hOutput)
  | move | set | label =>
    refine gives_bind fun target hTarget => ?_
    repeat refine gives_bind fun _ _ => ?_
    exact gives_ok (locate_lt hTarget)
  | jumpCheck =>
    refine gives_bind fun _ _ => gives_bind fun taken _ => gives_ok ?_
    cases taken <;> trivial
  | call =>
    refine gives_bind fun _ _ => gives_bind fun _ _ => gives_bind fun _ hRoom => gives_ok ?_
    simpa [Fits] using require_eq_ok.1 hRoom
  | loadAlloc =>
    refine gives_bind fun _ _ => gives_bind fun _ _ => gives_bind fun target hTarget => ?_
    repeat refine gives_bind fun _ _ => ?_
    exact gives_ok (locate_lt hTarget)
  | loadAllocI | loadAllocIBound | length =>
    refine gives_bind fun _ _ => gives_bind fun target hTarget => ?_
    repeat refine gives_bind fun _ _ => ?_
    exact gives_ok (locate_lt hTarget)
  | jump | ret | storeAlloc | storeAllocI | storeAllocIBound | confTrace | dynamicConf
  | dynamicConfAll | gcNewFrame | gcClean =>
    repeat refine gives_bind fun _ _ => ?_
    exact gives_ok trivial
  | stackOffset =>
    exact gives_bind fun base hBase => gives_ok (Registers.baseInside_baseAbove h hBase)
  | stackDeoffset =>
    exact gives_bind fun base hBase => gives_ok (Registers.baseInside_baseBelow h hBase)
  | alloc =>
    refine gives_bind fun target hTarget => gives_bind fun _ _ => gives_bind fun _ _ => ?_
    exact gives_bind fun _ _ => fits_planAllocate (locate_lt hTarget) _ _
  | allocI => exact gives_bind fun target hTarget => fits_planAllocate (locate_lt hTarget) _ _
  | free => exact gives_bind fun _ _ => fits_planFree _
  | gcTrace => exact gives_bind fun _ _ => fits_planTrace _
  | dynamicFree =>
    repeat refine gives_bind fun _ _ => ?_
    split
    · exact fits_planFree _
    · exact gives_ok trivial
  | dynamicTrace =>
    repeat refine gives_bind fun _ _ => ?_
    split
    · exact fits_planTrace _
    · exact gives_ok trivial
  | _ => exact fits_planCompute ins _

/-! ## The bounds -/

/-- The base, the calls, the frames and the heap are within bounds. -/
structure InBounds (machine : Machine σ) : Prop where
  base : machine.registers.BaseInside
  calls : machine.calls.size ≤ machine.config.frameLimit
  depth : machine.memory.collector.depth ≤ machine.memory.collector.frameLimit
  counted : machine.memory.heap.Counted

theorem baseInside_commit (h : machine.registers.BaseInside) {effect : Effect}
    (hFits : machine.Fits effect) : (machine.commit effect).machine.registers.BaseInside := by
  cases effect with
  | write address value => exact h.write address value
  | allocate address size mode => exact h.write address _
  | setBase base => exact hFits
  | foreign id input address =>
    rw [commit]
    rcases machine.callForeign_cases id input address with ⟨-, warning, hCall⟩ |
      ⟨script, world, -, ⟨value, -, hCall⟩ | ⟨reason, warning, -, hCall⟩⟩
    · rw [hCall]
      exact h
    · rw [hCall]
      exact h.write address value
    · rw [hCall]
      exact h
  | _ => exact h

theorem size_calls_commit (h : machine.calls.size ≤ machine.config.frameLimit) {effect : Effect}
    (hFits : machine.Fits effect) :
    (machine.commit effect).machine.calls.size ≤ machine.config.frameLimit := by
  cases effect with
  | call target =>
    change (machine.calls.push (machine.ip + 1)).size ≤ _
    rw [Array.size_push]
    exact hFits
  | ret =>
    change machine.calls.pop.size ≤ _
    rw [Array.size_pop]
    exact (Nat.sub_le _ _).trans h
  | foreign id input address =>
    rw [commit]
    rcases machine.callForeign_cases id input address with ⟨-, warning, hCall⟩ |
      ⟨script, world, -, ⟨value, -, hCall⟩ | ⟨reason, warning, -, hCall⟩⟩
    all_goals
      rw [hCall]
      exact h
  | _ => exact h

theorem depth_commit (hs : machine.memory.Sound)
    (h : machine.memory.collector.depth ≤ machine.memory.collector.frameLimit) {effect : Effect}
    (hAllowed : machine.Allowed op effect) :
    (machine.commit effect).machine.memory.collector.depth
      ≤ machine.memory.collector.frameLimit := by
  cases effect with
  | allocate address size mode =>
    exact (Memory.depth_insert machine.memory size mode).trans_le h
  | free handle => exact (Collector.depth_modifyCurrent _ _).trans_le h
  | trace handle => exact (Collector.depth_modifyCurrent _ _).trans_le h
  | openFrame =>
    change (machine.memory.collector.frames.push {}).size ≤ _
    rw [Array.size_push]
    exact of_decide_eq_true hAllowed.1
  | closeFrame =>
    have hDepth := Memory.depth_closeFrame hs
    change machine.memory.closeFrame.2.collector.depth ≤ _
    omega
  | foreign id input address =>
    exact (Memory.depth_of_served (served_callForeign hs id input address)).trans_le h
  | _ => exact h

theorem InBounds.commit (h : machine.InBounds) (hs : machine.memory.Sound) {effect : Effect}
    (hAllowed : machine.Allowed op effect) (hFits : machine.Fits effect) :
    (machine.commit effect).machine.InBounds := by
  have hConfig : (machine.commit effect).machine.config = machine.config :=
    congrArg Prod.fst (machine.sizes_commit effect)
  have hLimit : (machine.commit effect).machine.memory.collector.frameLimit =
      machine.memory.collector.frameLimit := congrArg Prod.snd (limits_commit hs effect)
  refine ⟨baseInside_commit h.base hFits, ?_, ?_, ?_⟩
  · rw [hConfig]
    exact size_calls_commit h.calls hFits
  · rw [hLimit]
    exact depth_commit hs h.depth hAllowed
  · exact (Arena.counted_of_operates (operates_commit hs hAllowed) hs.heap h.counted).2

theorem InBounds.step (h : machine.InBounds) (hs : machine.memory.Sound)
    (code : Array Instruction) : (machine.step code).machine.InBounds := by
  rcases machine.step_cases code with ⟨fault, hStep⟩ | ⟨ins, op, effect, _, _, _, hFor, hStep⟩
  · rw [hStep]
    exact h
  · rw [hStep]
    exact h.commit hs (machine.plans_planFor ins op effect hFor)
      (fits_planFor h.base ins op effect hFor)

theorem InBounds.stop (h : machine.InBounds) (hs : machine.memory.Sound) (fault : Fault)
    (warning : Option String) : (machine.stop fault warning).machine.InBounds := by
  refine ⟨h.base.resetBase, Nat.zero_le _, ?_, ?_⟩
  · exact (Memory.depth_unwind hs).trans_le (Nat.zero_le _)
  · exact (Arena.counted_of_operates (Memory.operates_closeFrames _ _ machine.memory) hs.heap
      h.counted).2

theorem InBounds.becomes (h : machine.InBounds) (hs : machine.memory.Sound) {after : Machine σ}
    (hBecomes : machine.Becomes after) : after.InBounds := by
  have hCounted :=
    (Arena.counted_of_operates (operates_of_becomes hs hBecomes) hs.heap h.counted).2
  have hLimit : after.memory.collector.frameLimit = machine.memory.collector.frameLimit :=
    congrArg Prod.snd (limits_of_becomes hs hBecomes)
  cases hBecomes with
  | start => exact ⟨h.base, Nat.zero_le _, h.depth, hCounted⟩
  | @next code _ hStep | @finish code _ hStep =>
    have hNext := h.step hs code
    rw [hStep] at hNext
    exact ⟨hNext.base, hNext.calls, hNext.depth, hCounted⟩
  | @fault code fault warning last hStep =>
    have hLast := h.step hs code
    have hServed := Memory.sound_of_served (served_of_faulted hs hStep) hs
    rw [hStep] at hLast
    exact hLast.stop hServed fault warning
  | allocate hAllocate =>
    obtain ⟨⟨handle, memory⟩, hMemory, hAfter⟩ := Arena.bind_eq_ok.1 hAllocate
    cases hAfter
    refine ⟨h.base, h.calls, ?_, hCounted⟩
    rw [hLimit]
    exact (Memory.depth_allocate hMemory).trans_le h.depth
  | supertrace hTrace =>
    obtain ⟨⟨count, memory⟩, hMemory, hAfter⟩ := Arena.bind_eq_ok.1 hTrace
    cases hAfter
    refine ⟨h.base, h.calls, ?_, hCounted⟩
    rw [hLimit]
    exact (Memory.depth_supertrace hMemory).trans_le h.depth
  | detrace hTrace =>
    obtain ⟨⟨count, memory⟩, hMemory, hAfter⟩ := Arena.bind_eq_ok.1 hTrace
    cases hAfter
    refine ⟨h.base, h.calls, ?_, hCounted⟩
    rw [hLimit]
    exact (Memory.depth_detrace hMemory).trans_le h.depth
  | load hLoad =>
    unfold load at hLoad
    split at hLoad
    · cases hLoad
    · cases hLoad
      exact ⟨h.base.copyConstants _ _, h.calls, h.depth, hCounted⟩
  | setRegister hSet =>
    obtain ⟨address, _, hAfter⟩ := Arena.bind_eq_ok.1 hSet
    cases hAfter
    exact ⟨h.base.write _ _, h.calls, h.depth, hCounted⟩
  | reset => exact ⟨h.base.reset, Nat.zero_le _, Nat.zero_le _, hCounted⟩
  | edit _ | changeTable | signal => exact ⟨h.base, h.calls, h.depth, hCounted⟩

theorem inBounds_make {config : Config} {host : σ} {first : Machine σ}
    (h : make config host = .ok first) : first.InBounds := by
  obtain ⟨⟨hDefect, -, -⟩, rfl⟩ := make_eq_ok.1 h
  have hLocals : config.globalCount < config.stackSize := by
    unfold Config.defect? at hDefect
    grind
  refine ⟨⟨Nat.le_refl _, ?_⟩, Nat.zero_le _, Nat.zero_le _, Arena.counted_empty _ _⟩
  simpa [fresh, Registers.size] using hLocals

/-- What every step of a machine keeps: its sizes and limits, a sound memory, and the bounds. -/
structure Bounded (config : Config) (machine : Machine σ) : Prop where
  sizes : machine.sizes = (config, config.globalCount, config.stackSize)
  limits : machine.memory.limits = ((config.heapLimit, config.poolLimit), config.frameLimit)
  sound : machine.memory.Sound
  inBounds : machine.InBounds

theorem InBounds.undergoes (h : machine.InBounds) (hs : machine.memory.Sound) {after : Machine σ}
    (hUndergoes : machine.Undergoes after) : after.InBounds := by
  cases hUndergoes with
  | becomes hBecomes => exact h.becomes hs hBecomes
  | allocateUnowned hAllocate =>
    obtain ⟨hFull, -, rfl⟩ := Arena.allocate_eq_ok hAllocate
    exact ⟨h.base, h.calls, h.depth, h.counted.insert hs.heap hFull _ _⟩

theorem Bounded.undergoes {config : Config} (h : machine.Bounded config) {after : Machine σ}
    (hUndergoes : machine.Undergoes after) : after.Bounded config :=
  ⟨(sizes_of_undergoes hUndergoes).trans h.sizes,
    (limits_of_undergoes h.sound hUndergoes).trans h.limits,
    sound_of_undergoes h.sound hUndergoes, h.inBounds.undergoes h.sound hUndergoes⟩

theorem Bounded.reached {config : Config} (h : machine.Bounded config) {after : Machine σ}
    (hReached : Relation.ReflTransGen Undergoes machine after) : after.Bounded config := by
  induction hReached with
  | refl => exact h
  | tail _ hStep ih => exact ih.undergoes hStep

theorem bounded_of_reached {config : Config} {host : σ} {first machine : Machine σ}
    (hMake : make config host = .ok first)
    (h : Relation.ReflTransGen Undergoes first machine) : machine.Bounded config := by
  have hMemory := memory_make hMake
  refine Bounded.reached ⟨sizes_make hMake, ?_, ?_, inBounds_make hMake⟩ h
  · rw [hMemory]
    rfl
  · rw [hMemory]
    exact Memory.sound_make _ _ _

/-! ## The law -/

/-- Whatever programs and the host do to a machine, it stays within its bounds: the base
inside the stack, calls, frames, live allocations and the pool within their limits. Every
operand that is located names a register that can be read and written; so an instruction
whose operands are located overflows for a reason of its own only, and writes inside. -/
theorem a_machine_stays_within_its_bounds (config : Config) (host : σ) (first machine : Machine σ)
    (hMake : make config host = .ok first)
    (hReached : Relation.ReflTransGen Undergoes first machine) :
    machine.registers.size = config.stackSize ∧
    config.globalCount ≤ machine.registers.base ∧ machine.registers.base < config.stackSize ∧
    machine.calls.size ≤ config.frameLimit ∧
    machine.memory.collector.depth ≤ config.frameLimit ∧
    machine.memory.heap.live = machine.memory.heap.occupied.length ∧
    machine.memory.heap.live ≤ config.heapLimit ∧
    machine.memory.heap.pool.size ≤ config.poolLimit ∧
    (∀ mode index address, machine.registers.locate mode index = .ok address →
      address < config.stackSize ∧ (∃ value, machine.registers.get address = .ok value) ∧
      ∀ value, machine.registers.set address value =
        .ok (machine.registers.write address value)) ∧
    ∀ ins op, ins.opcode.decode? = some op → machine.Located ins op →
      (machine.plan ins = .error .stackOverflow → machine.RunsOut ins op) ∧
      ∀ effect address, machine.plan ins = .ok effect → written? effect = some address →
        ∀ value, machine.registers.set address value =
          .ok (machine.registers.write address value) := by
  obtain ⟨hSizes, hLimits, -, hBase, hCalls, hDepth, hCounted⟩ := bounded_of_reached hMake hReached
  simp only [sizes, Memory.limits, Arena.limits, Prod.mk.injEq] at hSizes hLimits
  obtain ⟨hConfig, hGlobals, hSize⟩ := hSizes
  obtain ⟨⟨hHeap, hPool⟩, hFrames⟩ := hLimits
  have hInside := hBase
  rw [Registers.BaseInside, hGlobals, hSize] at hInside
  refine ⟨hSize, hInside.1, hInside.2, hConfig ▸ hCalls, hFrames ▸ hDepth, hCounted.live_eq,
    hHeap ▸ hCounted.live_le, hPool ▸ hCounted.pool_le, ?_, ?_⟩
  · intro mode index address hLocate
    have hAddress := Registers.locate_lt hLocate
    exact ⟨hSize ▸ hAddress, ⟨_, Registers.get_of_lt hAddress⟩, Registers.set_of_lt hAddress⟩
  · intro ins op hDecode hLocated
    unfold plan
    rw [hDecode]
    refine ⟨hLocated.overflows_planFor, ?_⟩
    intro effect address hPlan hWritten
    exact (fits_planFor hBase ins op effect hPlan).set hWritten

/-- The host fills the heap of the small machine; then the base cannot be moved at all, and the
handle can be moved from one register to the other. -/
theorem a_stack_of_two_registers_is_not_left :
    let stored : Machine Unit :=
      { small with registers := small.registers.write 0 (.handle ⟨0, 0⟩) }
    let filled := stored.withHeap (stored.memory.heap.insert 1 .always).2
    Relation.ReflTransGen Undergoes small filled ∧
      filled.registers.size = 2 ∧ 1 ≤ filled.registers.base ∧ filled.registers.base < 2 ∧
      filled.memory.heap.live = 1 ∧ filled.memory.heap.occupied.length = 1 ∧
      filled.plan ⟨.make .stackOffset 0, 1, 0, 0⟩ = .error .stackOverflow ∧
      filled.RunsOut ⟨.make .stackOffset 0, 1, 0, 0⟩ .stackOffset ∧
      filled.Located ⟨.make .move 2, 0, 0, 0⟩ .move ∧
      filled.plan ⟨.make .move 2, 0, 0, 0⟩ = .ok (.write 1 (.handle ⟨0, 0⟩)) ∧
      ∀ value, filled.registers.set 1 value = .ok (filled.registers.write 1 value) := by
  intro stored filled
  have hSet : small.setRegister .absolute 0 (.handle ⟨0, 0⟩) = .ok stored := rfl
  have hAllocate : stored.memory.heap.allocate 1 .always =
      .ok (⟨0, 0⟩, (stored.memory.heap.insert 1 .always).2) := rfl
  have hReached : Relation.ReflTransGen Undergoes small filled :=
    (Relation.ReflTransGen.single (.becomes (.setRegister hSet))).tail (.allocateUnowned hAllocate)
  obtain ⟨hSize, hGlobals, hBase, -, -, hLive, -, -, -, hIns⟩ :=
    a_machine_stays_within_its_bounds small.config () small filled make_small hReached
  have hOffset : filled.plan ⟨.make .stackOffset 0, 1, 0, 0⟩ = .error .stackOverflow := by
    decide +kernel
  have hMove : filled.plan ⟨.make .move 2, 0, 0, 0⟩ = .ok (.write 1 (.handle ⟨0, 0⟩)) := by
    decide +kernel
  have hLocated : filled.Located ⟨.make .move 2, 0, 0, 0⟩ .move := by
    intro slot operand hOperand _
    match slot, hOperand with
    | 0, _ => exact ⟨1, by decide +kernel⟩
    | 1, _ => exact ⟨0, by decide +kernel⟩
    | _ + 2, hOperand => cases hOperand
  have hNoRegister : filled.Located ⟨.make .stackOffset 0, 1, 0, 0⟩ .stackOffset := by
    intro slot operand hOperand hRegister
    match slot, hOperand with
    | 0, hOperand =>
      cases hOperand
      cases hRegister
    | _ + 1, hOperand => cases hOperand
  refine ⟨hReached, hSize, hGlobals, hBase, rfl, hLive.symm, hOffset, ?_, hLocated, hMove, ?_⟩
  · exact (hIns _ .stackOffset (by decide +kernel) hNoRegister).1 hOffset
  · exact (hIns _ .move (by decide +kernel) hLocated).2 _ 1 hMove rfl

end Machine

end RegisterMachine

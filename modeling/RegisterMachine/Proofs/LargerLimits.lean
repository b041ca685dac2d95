-- Larger limits. A machine can be widened: it gets more registers, above the old ones, and
-- higher limits for its heap, its calls and its frames. A widened machine does what the old
-- one does, until the old one comes to a limit.
import RegisterMachine.Proofs.MachineBounds

namespace RegisterMachine

variable {σ : Type}

/-! ## Results up to limits -/

/-- The faults that a limit can raise. -/
def Fault.IsLimit (fault : Fault) : Prop := fault = .memory ∨ fault = .stackOverflow

instance (fault : Fault) : Decidable fault.IsLimit :=
  inferInstanceAs (Decidable (fault = .memory ∨ fault = .stackOverflow))

/-- The second result is the first one, unless the first comes to a limit. -/
def UpToLimits {α : Type} (first second : Except Fault α) : Prop :=
  second = first ∨ ∃ fault : Fault, fault.IsLimit ∧ first = .error fault

section UpToLimits

variable {α β : Type}

theorem upToLimits_refl (result : Except Fault α) : UpToLimits result result := Or.inl rfl

theorem upToLimits_overflow (second : Except Fault α) :
    UpToLimits (.error .stackOverflow) second :=
  Or.inr ⟨_, Or.inr rfl, rfl⟩

theorem upToLimits_bind {first first' : Except Fault β} {second second' : β → Except Fault α}
    (h : UpToLimits first first')
    (hSecond : ∀ value, first = .ok value → UpToLimits (second value) (second' value)) :
    UpToLimits (first >>= second) (first' >>= second') := by
  rcases h with rfl | ⟨fault, hLimit, rfl⟩
  · cases first' with
    | error fault => exact upToLimits_refl _
    | ok value => exact hSecond value rfl
  · exact Or.inr ⟨fault, hLimit, rfl⟩

/-- A condition that holds of the first machine holds of the second one. -/
theorem upToLimits_require {condition condition' : Bool} {fault : Fault} (hLimit : fault.IsLimit)
    (h : condition = true → condition' = true) :
    UpToLimits (Machine.require condition fault) (Machine.require condition' fault) := by
  cases condition with
  | true =>
    rw [h rfl]
    exact upToLimits_refl _
  | false => exact Or.inr ⟨fault, hLimit, rfl⟩

end UpToLimits

/-! ## Wider registers -/

namespace Registers

/-- A stack of `size` registers, of which the new ones hold zero. -/
def widen (size : Nat) (registers : Registers) : Registers :=
  { registers with
    cells := registers.cells ++ Array.replicate (size - registers.size) .zero }

variable {size : Nat} {registers : Registers}

theorem size_widen (h : registers.size ≤ size) : (registers.widen size).size = size := by
  simp only [widen, Registers.size, Array.size_append, Array.size_replicate] at h ⊢
  omega

theorem getElem?_widen {address : Nat} (h : address < registers.size) :
    (registers.widen size).cells[address]? = registers.cells[address]? :=
  Array.getElem?_append_left h

theorem getElem?_widen_above {address : Nat} (hAbove : registers.size ≤ address)
    (hInside : address < size) : (registers.widen size).cells[address]? = some .zero := by
  have hNew : address - registers.cells.size < size - registers.size := by
    unfold Registers.size at *
    omega
  rw [widen, Array.getElem?_append_right hAbove, Array.getElem?_replicate, if_pos hNew]

theorem upToLimits_locate (h : registers.size ≤ size) (mode : Addressing) (index : UInt16) :
    UpToLimits (registers.locate mode index) ((registers.widen size).locate mode index) := by
  have hSize := size_widen h
  unfold locate
  cases mode
  all_goals
    simp only
    split
    · rename_i hInside
      rw [if_pos (by rw [hSize]; exact Nat.lt_of_lt_of_le hInside h)]
      exact upToLimits_refl _
    · exact upToLimits_overflow _

theorem upToLimits_get (address : Nat) :
    UpToLimits (registers.get address) ((registers.widen size).get address) := by
  by_cases hInside : address < registers.size
  · unfold get
    rw [getElem?_widen hInside]
    exact upToLimits_refl _
  · have hPast : registers.cells[address]? = none :=
      Array.getElem?_eq_none (Nat.le_of_not_lt hInside)
    unfold get
    rw [hPast]
    exact upToLimits_overflow _

theorem upToLimits_long (address : Nat) :
    UpToLimits (registers.long address) ((registers.widen size).long address) :=
  upToLimits_bind (upToLimits_get address) fun _ _ => upToLimits_refl _

theorem upToLimits_bool (address : Nat) :
    UpToLimits (registers.bool address) ((registers.widen size).bool address) :=
  upToLimits_bind (upToLimits_get address) fun _ _ => upToLimits_refl _

theorem upToLimits_address (address : Nat) :
    UpToLimits (registers.address address) ((registers.widen size).address address) :=
  upToLimits_bind (upToLimits_get address) fun _ _ => upToLimits_refl _

theorem upToLimits_handle (address : Nat) :
    UpToLimits (registers.handle address) ((registers.widen size).handle address) :=
  upToLimits_bind (upToLimits_get address) fun _ _ => upToLimits_refl _

theorem upToLimits_baseAbove (h : registers.size ≤ size) (amount : UInt16) :
    UpToLimits (registers.baseAbove amount) ((registers.widen size).baseAbove amount) := by
  have hSize := size_widen h
  unfold baseAbove
  simp only
  split
  · rename_i hInside
    rw [if_pos (by rw [hSize]; exact Nat.lt_of_lt_of_le hInside h)]
    exact upToLimits_refl _
  · exact upToLimits_overflow _

theorem write_widen {address : Nat} (h : address < registers.size) (value : Value) :
    (registers.widen size).write address value = (registers.write address value).widen size := by
  simp only [widen, write, Registers.size, Array.size_setIfInBounds] at h ⊢
  rw [Array.setIfInBounds_append_left h]

end Registers

/-! ## Wider heaps -/

namespace Arena

/-- The heap with another limit of live allocations. -/
def widen (limit : Nat) (heap : Arena) : Arena := { heap with limit }

variable (limit : Nat) (heap : Arena)

theorem isFull_widen {limit : Nat} {heap : Arena} (h : heap.limit ≤ limit)
    (hFull : heap.isFull = false) : (heap.widen limit).isFull = false := by
  have hParts := Bool.or_eq_false_iff.1 hFull
  have hRoom : heap.live < heap.limit := Nat.lt_of_not_le (of_decide_eq_false hParts.1)
  exact Bool.or_eq_false_iff.2
    ⟨decide_eq_false (Nat.not_le_of_lt (Nat.lt_of_lt_of_le hRoom h)), hParts.2⟩

theorem insert_widen (size : UInt16) (mode : TraceMode) :
    (heap.widen limit).insert size mode =
      ((heap.insert size mode).1, (heap.insert size mode).2.widen limit) := by
  unfold insert place
  simp only [widen]
  rcases heap.vacant.back? with _ | index <;> rfl

theorem erase_widen (handle : Handle) :
    (heap.widen limit).erase handle = (heap.erase handle).widen limit := by
  unfold erase
  rw [show (heap.widen limit).get? handle = heap.get? handle from rfl]
  rcases heap.get? handle with _ | alloc <;> rfl

theorem nextEpoch_widen :
    (heap.widen limit).nextEpoch = (heap.nextEpoch.1, heap.nextEpoch.2.widen limit) := by
  unfold nextEpoch
  rw [show (heap.widen limit).epoch = heap.epoch from rfl]
  simp only
  split <;> rfl

theorem markFrom_widen (epoch : UInt32) (work : List Handle) (visited : Array Handle) :
    (heap.widen limit).markFrom epoch work visited =
      ((heap.markFrom epoch work visited).1.widen limit,
        (heap.markFrom epoch work visited).2) := by
  -- No step of the walk looks at the limit.
  fun_induction markFrom epoch work visited heap with
  | case1 => rw [markFrom]
  | case2 visited heap handle rest hGet ih =>
    have hNone : (heap.widen limit).get? handle = none := hGet
    rw [markFrom]
    split
    · exact ih
    · simp_all
  | case3 visited heap handle rest alloc hGet hMark ih =>
    have hSome : (heap.widen limit).get? handle = some alloc := hGet
    rw [markFrom]
    split
    · simp_all
    · rename_i found hFound
      cases hSome.symm.trans hFound
      rw [dif_pos hMark]
      exact ih
  | case4 visited heap handle rest alloc hGet hMark work ih =>
    have hSome : (heap.widen limit).get? handle = some alloc := hGet
    rw [markFrom]
    split
    · simp_all
    · rename_i found hFound
      cases hSome.symm.trans hFound
      rw [dif_neg hMark]
      exact ih

theorem mark_widen (roots : List Handle) :
    (heap.widen limit).mark roots =
      ((heap.mark roots).1, (heap.mark roots).2.1, (heap.mark roots).2.2.widen limit) := by
  unfold mark
  rw [nextEpoch_widen]
  simp only
  rw [markFrom_widen]

end Arena

/-! ## Wider memories -/

/-- The collector with another limit of frames. -/
def Collector.widen (frameLimit : Nat) (collector : Collector) : Collector :=
  { collector with frameLimit }

theorem Collector.modifyCurrent_widen (frameLimit : Nat) (collector : Collector)
    (change : Frame → Frame) :
    (collector.widen frameLimit).modifyCurrent change =
      (collector.modifyCurrent change).widen frameLimit := by
  unfold modifyCurrent
  rw [show (collector.widen frameLimit).frames = collector.frames from rfl]
  split <;> rfl

namespace Memory

/-- The memory with other limits of live allocations and of frames. -/
def widen (heapLimit frameLimit : Nat) (memory : Memory) : Memory :=
  { heap := memory.heap.widen heapLimit, collector := memory.collector.widen frameLimit }

variable (heapLimit frameLimit : Nat) (memory : Memory)

theorem insert_widen (size : UInt16) (mode : TraceMode) :
    (memory.widen heapLimit frameLimit).insert size mode =
      ((memory.insert size mode).1,
        (memory.insert size mode).2.widen heapLimit frameLimit) := by
  unfold insert
  simp only [widen, Arena.insert_widen, Collector.register, Collector.modifyCurrent_widen]
  rfl

theorem free_widen (handle : Handle) :
    (memory.widen heapLimit frameLimit).free handle =
      (memory.free handle).widen heapLimit frameLimit := by
  simp only [free, widen, Arena.erase_widen, Collector.forget, Collector.modifyCurrent_widen]

theorem sweepOne_widen (epoch : UInt32) (state : SweepReport × Memory) (handle : Handle) :
    sweepOne epoch (state.1, state.2.widen heapLimit frameLimit) handle =
      ((sweepOne epoch state handle).1,
        (sweepOne epoch state handle).2.widen heapLimit frameLimit) := by
  have hContains : (state.2.heap.widen heapLimit).contains handle =
      state.2.heap.contains handle := rfl
  have hMarked : (state.2.heap.widen heapLimit).isMarked handle epoch =
      state.2.heap.isMarked handle epoch := rfl
  unfold sweepOne
  simp only [widen, hContains, hMarked, Collector.register, Collector.modifyCurrent_widen]
  split
  · split
    · rfl
    · simp only [Arena.erase_widen]
  · rfl

theorem foldl_sweepOne_widen (epoch : UInt32) (entries : Array Handle)
    (state : SweepReport × Memory) :
    entries.foldl (sweepOne epoch) (state.1, state.2.widen heapLimit frameLimit) =
      ((entries.foldl (sweepOne epoch) state).1,
        (entries.foldl (sweepOne epoch) state).2.widen heapLimit frameLimit) :=
  Array.foldl_hom
    (fun state : SweepReport × Memory => (state.1, state.2.widen heapLimit frameLimit))
    (sweepOne_widen heapLimit frameLimit epoch)

theorem closeFrame_widen :
    (memory.widen heapLimit frameLimit).closeFrame =
      (memory.closeFrame.1, memory.closeFrame.2.widen heapLimit frameLimit) := by
  unfold closeFrame
  rw [show (memory.widen heapLimit frameLimit).collector.frames = memory.collector.frames from rfl]
  rcases memory.collector.frames.back? with _ | frame
  · rfl
  · simp only [show (memory.widen heapLimit frameLimit).heap = memory.heap.widen heapLimit from rfl,
      Arena.mark_widen]
    exact foldl_sweepOne_widen heapLimit frameLimit _ frame.owned ({}, ⟨_, memory.collector.pop⟩)

theorem closeFrames_widen (n : Nat) (total : SweepReport) (memory : Memory) :
    closeFrames n total (memory.widen heapLimit frameLimit) =
      ((closeFrames n total memory).1,
        (closeFrames n total memory).2.widen heapLimit frameLimit) := by
  induction n generalizing total memory with
  | zero => rfl
  | succ n ih =>
    rw [closeFrames, closeFrame_widen]
    exact ih _ _

theorem unwind_widen :
    (memory.widen heapLimit frameLimit).unwind =
      (memory.unwind.1, memory.unwind.2.widen heapLimit frameLimit) :=
  closeFrames_widen _ _ _ _ _

end Memory

/-! ## Wider machines -/

/-- A configuration with at least the registers and the limits of another one, with as many
globals and with the same pool. -/
structure Config.Widens (config wider : Config) : Prop where
  globals : wider.globalCount = config.globalCount
  pool : wider.poolLimit = config.poolLimit
  stack : config.stackSize ≤ wider.stackSize
  frames : config.frameLimit ≤ wider.frameLimit
  heap : config.heapLimit ≤ wider.heapLimit

namespace Machine

/-- The machine with the sizes of another configuration; new registers hold zero. -/
def widen (wider : Config) (machine : Machine σ) : Machine σ :=
  { machine with
    config := wider
    registers := machine.registers.widen wider.stackSize
    memory := machine.memory.widen wider.heapLimit wider.frameLimit }

variable {config wider : Config} {machine : Machine σ} {ins : Instruction}

section Plan

variable (h : machine.Bounded config) (hWidens : config.Widens wider)

include h hWidens

theorem Bounded.size_le : machine.registers.size ≤ wider.stackSize := by
  have hSize : machine.registers.size = config.stackSize := congrArg (·.2.2) h.sizes
  rw [hSize]
  exact hWidens.stack

theorem upToLimits_locate (slot : Nat) :
    UpToLimits (machine.locate ins slot) ((machine.widen wider).locate ins slot) :=
  Registers.upToLimits_locate (h.size_le hWidens) _ _

theorem upToLimits_planAllocate (address : Nat) (size mode : UInt16) :
    UpToLimits (machine.planAllocate address size mode)
      ((machine.widen wider).planAllocate address size mode) := by
  have hLimit : machine.memory.heap.limit = config.heapLimit := congrArg (·.1.1) h.limits
  refine upToLimits_bind (upToLimits_refl _) fun _ _ => ?_
  refine upToLimits_bind (upToLimits_require (Or.inl rfl) ?_) fun _ _ => upToLimits_refl _
  simp only [Bool.not_eq_true']
  exact Arena.isFull_widen (hLimit ▸ hWidens.heap)

theorem upToLimits_planCompute (op : Operation) :
    UpToLimits (machine.planCompute ins op) ((machine.widen wider).planCompute ins op) := by
  unfold planCompute
  split
  · refine upToLimits_bind (upToLimits_locate h hWidens 0) fun left _ => ?_
    refine upToLimits_bind (upToLimits_locate h hWidens 1) fun right _ => ?_
    refine upToLimits_bind (upToLimits_locate h hWidens 2) fun target _ => ?_
    refine upToLimits_bind (Registers.upToLimits_get left) fun _ _ => ?_
    exact upToLimits_bind (Registers.upToLimits_get right) fun _ _ => upToLimits_refl _
  · refine upToLimits_bind (upToLimits_locate h hWidens 0) fun source _ => ?_
    refine upToLimits_bind (upToLimits_locate h hWidens 1) fun target _ => ?_
    exact upToLimits_bind (Registers.upToLimits_get source) fun _ _ => upToLimits_refl _
  · exact upToLimits_refl _

end Plan

theorem upToLimits_planFree (address : Nat) :
    UpToLimits (machine.planFree address) ((machine.widen wider).planFree address) :=
  upToLimits_bind (Registers.upToLimits_handle address) fun _ _ => upToLimits_refl _

theorem upToLimits_planTrace (address : Nat) :
    UpToLimits (machine.planTrace address) ((machine.widen wider).planTrace address) :=
  upToLimits_bind (Registers.upToLimits_handle address) fun _ _ => upToLimits_refl _

/-- A widened machine plans what the machine plans, unless that comes to a limit. -/
theorem upToLimits_planFor (h : machine.Bounded config) (hWidens : config.Widens wider)
    (op : Operation) :
    UpToLimits (machine.planFor ins op) ((machine.widen wider).planFor ins op) := by
  have hLocate := @upToLimits_locate _ _ _ _ ins h hWidens
  unfold planFor
  cases op with
  | abort | jump | ret | gcClean | stackDeoffset => exact upToLimits_refl _
  | foreign =>
    refine upToLimits_bind (hLocate 0) fun id _ => upToLimits_bind (hLocate 1) fun input _ => ?_
    refine upToLimits_bind (hLocate 2) fun output _ => ?_
    refine upToLimits_bind (Registers.upToLimits_long id) fun _ _ => ?_
    exact upToLimits_bind (Registers.upToLimits_get input) fun _ _ => upToLimits_refl _
  | move =>
    refine upToLimits_bind (hLocate 0) fun _ _ => upToLimits_bind (hLocate 1) fun source _ => ?_
    exact upToLimits_bind (Registers.upToLimits_get source) fun _ _ => upToLimits_refl _
  | set | label => exact upToLimits_bind (hLocate 0) fun _ _ => upToLimits_refl _
  | jumpCheck =>
    refine upToLimits_bind (hLocate 0) fun condition _ => ?_
    exact upToLimits_bind (Registers.upToLimits_bool condition) fun _ _ => upToLimits_refl _
  | call =>
    have hCalls : machine.config = config := congrArg Prod.fst h.sizes
    refine upToLimits_bind (hLocate 0) fun callee _ => ?_
    refine upToLimits_bind (Registers.upToLimits_address callee) fun target _ => ?_
    refine upToLimits_bind (upToLimits_require (Or.inr rfl) ?_) fun _ _ => upToLimits_refl _
    simp only [decide_eq_true_eq, hCalls]
    exact fun hRoom => Nat.lt_of_lt_of_le hRoom hWidens.frames
  | loadAlloc =>
    refine upToLimits_bind (hLocate 0) fun array _ => upToLimits_bind (hLocate 1) fun index _ => ?_
    refine upToLimits_bind (hLocate 2) fun _ _ => ?_
    refine upToLimits_bind (Registers.upToLimits_handle array) fun _ _ => ?_
    exact upToLimits_bind (Registers.upToLimits_long index) fun _ _ => upToLimits_refl _
  | storeAlloc =>
    refine upToLimits_bind (hLocate 0) fun array _ => upToLimits_bind (hLocate 1) fun index _ => ?_
    refine upToLimits_bind (hLocate 2) fun source _ => ?_
    refine upToLimits_bind (Registers.upToLimits_handle array) fun _ _ => ?_
    refine upToLimits_bind (Registers.upToLimits_long index) fun _ _ => ?_
    exact upToLimits_bind (Registers.upToLimits_get source) fun _ _ => upToLimits_refl _
  | loadAllocI | loadAllocIBound | length =>
    refine upToLimits_bind (hLocate 0) fun array _ => upToLimits_bind (hLocate 1) fun _ _ => ?_
    exact upToLimits_bind (Registers.upToLimits_handle array) fun _ _ => upToLimits_refl _
  | storeAllocI | storeAllocIBound =>
    refine upToLimits_bind (hLocate 0) fun array _ => upToLimits_bind (hLocate 1) fun source _ => ?_
    refine upToLimits_bind (Registers.upToLimits_handle array) fun _ _ => ?_
    exact upToLimits_bind (Registers.upToLimits_get source) fun _ _ => upToLimits_refl _
  | confTrace =>
    refine upToLimits_bind (hLocate 0) fun array _ => ?_
    exact upToLimits_bind (Registers.upToLimits_handle array) fun _ _ => upToLimits_refl _
  | dynamicConf | dynamicConfAll =>
    refine upToLimits_bind (hLocate 0) fun array _ => upToLimits_bind (hLocate 1) fun flag _ => ?_
    refine upToLimits_bind (Registers.upToLimits_handle array) fun _ _ => ?_
    exact upToLimits_bind (Registers.upToLimits_bool flag) fun _ _ => upToLimits_refl _
  | stackOffset =>
    exact upToLimits_bind (Registers.upToLimits_baseAbove (h.size_le hWidens) ins.a) fun _ _ =>
      upToLimits_refl _
  | alloc =>
    refine upToLimits_bind (hLocate 0) fun target _ => upToLimits_bind (hLocate 1) fun size _ => ?_
    refine upToLimits_bind (Registers.upToLimits_long size) fun _ _ => ?_
    refine upToLimits_bind (upToLimits_refl _) fun _ _ => ?_
    exact upToLimits_planAllocate h hWidens _ _ _
  | allocI =>
    exact upToLimits_bind (hLocate 0) fun _ _ => upToLimits_planAllocate h hWidens _ _ _
  | free => exact upToLimits_bind (hLocate 0) fun _ _ => upToLimits_planFree _
  | gcTrace => exact upToLimits_bind (hLocate 0) fun _ _ => upToLimits_planTrace _
  | dynamicFree =>
    refine upToLimits_bind (hLocate 0) fun _ _ => upToLimits_bind (hLocate 1) fun flag _ => ?_
    refine upToLimits_bind (Registers.upToLimits_bool flag) fun taken _ => ?_
    cases taken with
    | true => exact upToLimits_planFree _
    | false => exact upToLimits_refl _
  | dynamicTrace =>
    refine upToLimits_bind (hLocate 0) fun _ _ => upToLimits_bind (hLocate 1) fun flag _ => ?_
    refine upToLimits_bind (Registers.upToLimits_bool flag) fun taken _ => ?_
    cases taken with
    | true => exact upToLimits_planTrace _
    | false => exact upToLimits_refl _
  | gcNewFrame =>
    have hFrames : machine.memory.collector.frameLimit = config.frameLimit :=
      congrArg Prod.snd h.limits
    refine upToLimits_bind (upToLimits_require (Or.inr rfl) ?_) fun _ _ => upToLimits_refl _
    simp only [Collector.canOpen, decide_eq_true_eq, hFrames]
    exact fun hRoom => Nat.lt_of_lt_of_le hRoom hWidens.frames
  | _ => exact upToLimits_planCompute h hWidens _

end Machine

/-! ## Instructions and runs -/

def Turn.widen (wider : Config) : Turn σ → Turn σ
  | .next machine => .next (machine.widen wider)
  | .finished machine => .finished (machine.widen wider)
  | .faulted fault warning machine => .faulted fault warning (machine.widen wider)

def Execution.widen (wider : Config) (execution : Execution σ) : Execution σ :=
  { execution with machine := execution.machine.widen wider }

theorem Turn.ends_widen (wider : Config) (turn : Turn σ) :
    (turn.widen wider).Ends ↔ turn.Ends := by
  cases turn <;> exact Iff.rfl

namespace Machine

variable {config wider : Config} {machine last : Machine σ} {code : Array Instruction}

/-- An effect that fits does the same to a widened machine. -/
theorem commit_widen {effect : Effect} (hFits : machine.Fits effect)
    (hHost : ¬ effect.CallsHost) :
    (machine.widen wider).commit effect = (machine.commit effect).widen wider := by
  cases effect with
  | write address value =>
    simp only [commit, Turn.widen, writeRegister, advance, widen, Registers.write_widen hFits]
  | allocate address size mode =>
    simp only [commit, Turn.widen, allocateInto, advance, widen, Memory.insert_widen,
      Registers.write_widen hFits]
  | free handle =>
    simp only [commit, Turn.widen, changeMemory, advance, widen, Memory.free_widen]
  | trace handle =>
    simp only [commit, Turn.widen, changeCollector, changeMemory, advance, widen, Memory.widen,
      Collector.addTrace, Collector.modifyCurrent_widen]
    rfl
  | closeFrame =>
    simp only [commit, Turn.widen, changeMemory, advance, widen, Memory.closeFrame_widen]
  | foreign id input address => exact absurd trivial hHost
  | _ => rfl

/-- An instruction that is no call into the host does the same to a widened machine, or comes
to a limit. -/
theorem step_widen (h : machine.Bounded config) (hWidens : config.Widens wider)
    (hFetched : machine.fetched? code ≠ some .foreign) :
    (machine.widen wider).step code = (machine.step code).widen wider ∨
      ∃ fault : Fault, fault.IsLimit ∧ machine.step code = .faulted fault none machine := by
  unfold step
  rw [show (machine.widen wider).haltRequested = machine.haltRequested from rfl,
    show (machine.widen wider).ip = machine.ip from rfl]
  split
  · exact Or.inl rfl
  · rcases hFetch : code[machine.ip]? with _ | ins
    · exact Or.inl rfl
    · simp only [exec, plan]
      rcases hDecode : ins.opcode.decode? with _ | op
      · exact Or.inl rfl
      · have hOp : op ≠ .foreign := by
          rintro rfl
          exact hFetched (by simp [fetched?, hFetch, hDecode])
        simp only
        rcases @upToLimits_planFor _ _ _ _ ins h hWidens op with hSame | ⟨fault, hLimit, hPlan⟩
        · rw [hSame]
          rcases hPlan : machine.planFor ins op with fault | effect
          · exact Or.inl rfl
          · exact Or.inl (commit_widen (fits_planFor h.inBounds.base ins op effect hPlan)
              (machine.noCall_planFor ins hOp effect hPlan))
        · rw [hPlan]
          exact Or.inr ⟨fault, hLimit, rfl⟩

theorem Bounded.after (h : machine.Bounded config) {n : Nat}
    (hAfter : after code n machine = some last) : last.Bounded config := by
  induction n generalizing machine with
  | zero =>
    cases hAfter
    exact h
  | succ n ih =>
    obtain ⟨next, hStep, hNext⟩ := after_succ.1 hAfter
    exact ih (h.undergoes (.becomes (.next hStep))) hNext

/-- As long as the machine goes on, a widened one goes on in the same way. -/
theorem after_widen (h : machine.Bounded config) (hWidens : config.Widens wider)
    (hCalls : ∀ n before, after code n machine = some before →
      before.fetched? code ≠ some .foreign) {n : Nat} (hAfter : after code n machine = some last) :
    after code n (machine.widen wider) = some (last.widen wider) := by
  induction n generalizing last with
  | zero =>
    cases hAfter
    rfl
  | succ n ih =>
    obtain ⟨before, hBefore, hStep⟩ := after_succ_last.1 hAfter
    refine after_succ_last.2 ⟨before.widen wider, ih hBefore, ?_⟩
    rcases step_widen (h.after hBefore) hWidens (hCalls n before hBefore) with hSame |
      ⟨fault, -, hFault⟩
    · rw [hSame, hStep]
      rfl
    · rw [hStep] at hFault
      cases hFault

theorem conclude_widen (wider : Config) (turn : Turn σ) :
    conclude (turn.widen wider) = (conclude turn).widen wider := by
  cases turn with
  | next machine | finished machine => rfl
  | faulted fault warning machine =>
    simp only [conclude, Turn.widen, Execution.widen, stop, unwind, widen, Memory.unwind_widen]
    rfl

/-! ## Machines to begin with -/

theorem fresh_widen (hWidens : config.Widens wider) (host : σ) :
    fresh wider host = (fresh config host).widen wider := by
  have hCells : Array.replicate config.stackSize Value.zero ++
      Array.replicate (wider.stackSize - config.stackSize) Value.zero =
        Array.replicate wider.stackSize Value.zero := by
    rw [Array.replicate_append_replicate, Nat.add_sub_cancel' hWidens.stack]
  simp [fresh, widen, Registers.widen, Registers.size, Memory.make, Memory.widen, Arena.widen,
    Collector.widen, hWidens.globals, hWidens.pool, hCells]

theorem copyConstants_widen (size : Nat) (constants : List Constant) (address : Nat)
    {registers : Registers} (h : address + constants.length ≤ registers.size) :
    copyConstants (registers.widen size) address constants =
      (copyConstants registers address constants).widen size := by
  induction constants generalizing address registers with
  | nil => rfl
  | cons constant constants ih =>
    rw [List.length_cons] at h
    rw [copyConstants, Registers.write_widen (by omega)]
    refine ih (address + 1) ?_
    rw [size_write]
    omega

theorem load_widen (h : machine.Bounded config) (hWidens : config.Widens wider)
    {program : Program} {loaded : Machine σ} (hLoad : machine.load program = .ok loaded) :
    (machine.widen wider).load program = .ok (loaded.widen wider) := by
  have hConfig : machine.config = config := congrArg Prod.fst h.sizes
  have hGlobals : machine.registers.globals = config.globalCount := congrArg (·.2.1) h.sizes
  have hBase := h.inBounds.base
  unfold load at hLoad ⊢
  rw [hConfig] at hLoad
  split at hLoad
  · cases hLoad
  · rename_i hFit
    cases hLoad
    have hRoom : 0 + program.constants.toList.length ≤ machine.registers.size := by
      rw [Array.length_toList, ← hGlobals] at *
      have hGlobals := hBase.1
      have hSize := hBase.2
      omega
    rw [if_neg (by change ¬ wider.globalCount < _; rwa [hWidens.globals])]
    simp only [widen, copyConstants_widen _ _ _ hRoom]

/-! ## The law -/

/-- `other` is in the state of `machine`, with further registers that nothing has written. -/
structure Extended (machine other : Machine σ) : Prop where
  ip : other.ip = machine.ip
  base : other.registers.base = machine.registers.base
  calls : other.calls = machine.calls
  lastHalt : other.lastHalt = machine.lastHalt
  registers : ∀ i < machine.registers.size,
    other.registers.cells[i]? = machine.registers.cells[i]?
  above : ∀ i, machine.registers.size ≤ i → i < other.registers.size →
    other.registers.cells[i]? = some .zero
  /-- The slots, the vacant slots, the pool, the number of live allocations and the marks. -/
  heap : ∃ limit, other.memory.heap = { machine.memory.heap with limit }
  frames : other.memory.collector.stack = machine.memory.collector.stack

theorem extended_widen (h : machine.Bounded config) (hWidens : config.Widens wider) :
    machine.Extended (machine.widen wider) where
  ip := rfl
  base := rfl
  calls := rfl
  lastHalt := rfl
  registers _ hi := Registers.getElem?_widen hi
  above i hAbove hInside := by
    rw [show (machine.widen wider).registers.size = wider.stackSize from
      Registers.size_widen (h.size_le hWidens)] at hInside
    exact Registers.getElem?_widen_above hAbove hInside
  heap := ⟨wider.heapLimit, rfl⟩
  frames := rfl

/-- Two machines of one number of globals and one pool, of which the second is not smaller in
anything, load the same constants. If a run of the first that comes to no call into the host
ends, and not at a limit, then the second ends it after as many instructions, with the same
fault at the same instruction or without one, with the same log, and in the same state, but
for further registers that are all zero. -/
theorem larger_limits_change_no_run_that_met_none (config wider : Config) (host : σ)
    (first second : Machine σ) (hFirst : make config host = .ok first)
    (hSecond : make wider host = .ok second) (hWidens : config.Widens wider) (program : Program)
    (loaded : Machine σ) (hLoad : first.load program = .ok loaded) (code : Array Instruction)
    (hCalls : ∀ n before, after code n loaded.start = some before →
      before.fetched? code ≠ some .foreign)
    (fuel : Nat) (execution : Execution σ) (hRun : loaded.execute fuel code = some execution)
    (hHalt : ∀ halt, execution.halt = some halt → ¬ halt.fault.IsLimit) :
    ∃ loaded', second.load program = .ok loaded' ∧
      ∃ n last last', n < fuel ∧
        after code n loaded.start = some last ∧ after code n loaded'.start = some last' ∧
        (last.step code).Ends ∧ (last'.step code).Ends ∧
        execution = conclude (last.step code) ∧
        ∃ other, loaded'.execute fuel code = some other ∧ other = conclude (last'.step code) ∧
          other.halt = execution.halt ∧ other.records = execution.records ∧
          execution.machine.registers.size = config.stackSize ∧
          other.machine.registers.size = wider.stackSize ∧
          execution.machine.Extended other.machine := by
  have hMade : second = first.widen wider := by
    rw [(make_eq_ok.1 hSecond).2, (make_eq_ok.1 hFirst).2, fresh_widen hWidens]
  have hBounded := bounded_of_reached hFirst .refl
  have hLoaded : loaded.start.Bounded config :=
    (hBounded.undergoes (.becomes (.load hLoad))).undergoes (.becomes .start)
  obtain ⟨n, last, hn, hAfter, hEnds, rfl⟩ := execute_eq_some.1 hRun
  have hLast := hLoaded.after hAfter
  have hAfter' := after_widen hLoaded hWidens hCalls hAfter
  -- The last instruction does not come to a limit, or the run would have ended there.
  have hStep : (last.widen wider).step code = (last.step code).widen wider := by
    rcases step_widen hLast hWidens (hCalls n last hAfter) with hSame | ⟨fault, hLimit, hFault⟩
    · exact hSame
    · rw [hFault] at hHalt
      exact absurd hLimit (hHalt _ rfl)
  have hEnds' : ((last.widen wider).step code).Ends := by
    rw [hStep]
    exact (Turn.ends_widen wider _).2 hEnds
  have hEnd : conclude ((last.widen wider).step code) =
      (conclude (last.step code)).widen wider := by
    rw [hStep, conclude_widen]
  have hConcluded : (conclude (last.step code)).machine.Bounded config := by
    rcases hTurn : last.step code with next | ended | ⟨fault, warning, ended⟩
    · rw [hTurn] at hEnds
      exact hEnds.elim
    · exact hLast.undergoes (.becomes (.finish hTurn))
    · exact hLast.undergoes (.becomes (.fault hTurn))
  refine ⟨loaded.widen wider, hMade ▸ load_widen hBounded hWidens hLoad, n, last, _, hn, hAfter,
    hAfter', hEnds, hEnds', rfl, _, execute_eq_some.2 ⟨n, _, hn, hAfter', hEnds', rfl⟩, rfl, ?_⟩
  rw [hEnd]
  exact ⟨rfl, rfl, congrArg (·.2.2) hConcluded.sizes,
    Registers.size_widen (hConcluded.size_le hWidens), extended_widen hConcluded hWidens⟩

/-- A program that makes an array inside a frame and reads a cell that was not written. -/
def smallUnwritten : Program where
  header := {}
  constants := #[.long 7]
  instructions :=
    #[⟨.make .gcNewFrame 0, 0, 0, 0⟩, ⟨.make .allocI 0, 0, 1, 1⟩,
      ⟨.make .loadAllocIBound 0, 0, 0, 0⟩]

/-- The sizes of the small machine, with one register more and higher limits. -/
def smallWider : Config :=
  { stackSize := 3, globalCount := 1, frameLimit := 5, heapLimit := 9, poolLimit := 1 }

/-- The small machine and the wider one stop at the read, in the same state but for the third
register. -/
theorem a_third_register_stays_zero :
    small.config.Widens smallWider ∧
    ∃ second loaded loaded', make smallWider () = .ok second ∧
      small.load smallUnwritten = .ok loaded ∧ second.load smallUnwritten = .ok loaded' ∧
      ∃ execution other, loaded.execute 3 smallUnwritten.instructions = some execution ∧
        loaded'.execute 3 smallUnwritten.instructions = some other ∧
        execution.halt = some ⟨.uninitializedRead, 2⟩ ∧ other.halt = execution.halt ∧
        other.machine.registers.cells[2]? = some .zero ∧
        execution.machine.Extended other.machine := by
  have hWidens : small.config.Widens smallWider := ⟨rfl, rfl, by decide, by decide, by decide⟩
  let loaded : Machine Unit := { small with registers := small.registers.write 0 (.long 7) }
  let opened := (loaded.start.changeCollector fun _ collector => collector.push).advance
  let filled := (opened.allocateInto 1 1 .always).advance
  have hPlans : loaded.start.plan ⟨.make .gcNewFrame 0, 0, 0, 0⟩ = .ok .openFrame ∧
      opened.plan ⟨.make .allocI 0, 0, 1, 1⟩ = .ok (.allocate 1 1 .always) ∧
      filled.exec ⟨.make .loadAllocIBound 0, 0, 0, 0⟩ =
        .faulted .uninitializedRead none filled := by
    refine ⟨by decide +kernel, by decide +kernel, ?_⟩
    have hPlan : filled.plan ⟨.make .loadAllocIBound 0, 0, 0, 0⟩ = .error .uninitializedRead := by
      decide +kernel
    unfold exec
    rw [hPlan]
  have hStop : filled.step smallUnwritten.instructions =
      .faulted .uninitializedRead none filled := hPlans.2.2
  have hRun : loaded.execute 3 smallUnwritten.instructions =
      some (conclude (.faulted .uninitializedRead none filled)) := by
    refine execute_eq_some.2 ⟨2, filled, by decide, ?_, hStop ▸ trivial, by rw [hStop]⟩
    exact after_succ.2 ⟨opened, step_of_plan rfl rfl hPlans.1,
      after_succ.2 ⟨filled, step_of_plan rfl rfl hPlans.2.1, rfl⟩⟩
  have hNoCall : ∀ ins ∈ smallUnwritten.instructions, ins.opcode.decode? ≠ some .foreign := by
    decide +kernel
  have hNoLimit : ∀ halt, some (⟨.uninitializedRead, 2⟩ : Halt) = some halt →
      ¬ halt.fault.IsLimit := by
    intro halt hHalt
    cases hHalt
    decide
  obtain ⟨loaded', hLoad', _, _, _, -, -, -, -, -, -, other, hOther, -, hHalt, -, hSize, hWider,
      hSame⟩ :=
    larger_limits_change_no_run_that_met_none small.config smallWider () small
      (fresh smallWider ()) make_small rfl hWidens smallUnwritten loaded rfl
      smallUnwritten.instructions (fun _ before _ => before.fetched?_ne hNoCall) 3 _ hRun hNoLimit
  refine ⟨hWidens, _, loaded, loaded', rfl, rfl, hLoad', _, other, hRun, hOther, rfl, hHalt, ?_,
    hSame⟩
  exact hSame.above 2 (by rw [hSize]; decide) (by rw [hWider]; decide)

end Machine

end RegisterMachine

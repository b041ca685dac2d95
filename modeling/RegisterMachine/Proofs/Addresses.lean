-- Where addresses can be. An address comes into the heap only by a store, and it goes where
-- its array goes; a host function that stores none adds none; and no computation makes one.
import RegisterMachine.Proofs.HostCalls

namespace RegisterMachine

variable {σ : Type}

/-! ## Values -/

def Value.isAddress : Value → Bool
  | .address _ => true
  | _ => false

/-- If the value is an address, it lies in a stream of `size` instructions. -/
def Value.Inside (size : Nat) : Value → Prop
  | .address index => index < size
  | _ => True

variable {size : Nat}

theorem Value.inside_of_isAddress {value : Value} (h : value.isAddress = false) :
    value.Inside size := by
  cases value with
  | address index => cases h
  | _ => trivial

theorem Value.inside_ofConstant (constant : Constant) : (ofConstant constant).Inside size := by
  cases constant <;> trivial

/-! ## The heap -/

def Allocation.Inside (size : Nat) (alloc : Allocation) : Prop :=
  ∀ value ∈ alloc.values, value.Inside size

/-- Every slot of every live allocation holds a value that lies inside. -/
def Arena.Inside (size : Nat) (heap : Arena) : Prop :=
  ∀ handle alloc, heap.get? handle = some alloc → alloc.Inside size

theorem Allocation.inside_write {alloc : Allocation} (h : alloc.Inside size) {value : Value}
    (hValue : value.Inside size) (position : Nat) : (alloc.write position value).Inside size := by
  intro other hOther
  rcases Array.mem_or_eq_of_mem_setIfInBounds hOther with hOld | rfl
  · exact h other hOld
  · exact hValue

theorem Allocation.inside_setFlag {alloc : Allocation} (h : alloc.Inside size) (position : Nat)
    (flagged : Bool) : (alloc.setFlag position flagged).Inside size := h

namespace Arena

variable {heap : Arena}

theorem inside_modify (h : heap.Inside size) {handle : Handle}
    {change : Allocation → Allocation}
    (hChange : ∀ alloc : Allocation, alloc.Inside size → (change alloc).Inside size) :
    (heap.modify handle change).Inside size := by
  intro other alloc hGet
  rw [get?_modify] at hGet
  split at hGet
  · obtain ⟨old, hOld, rfl⟩ := Option.map_eq_some_iff.1 hGet
    exact hChange old (h handle old hOld)
  · exact h other alloc hGet

theorem inside_write (h : heap.Inside size) {value : Value} (hValue : value.Inside size)
    (handle : Handle) (position : Nat) : (heap.write handle position value).Inside size :=
  inside_modify h fun _ hAlloc => Allocation.inside_write hAlloc hValue position

/-- The slots of a new allocation hold zero, whatever its store was used for before. -/
theorem inside_insert (hs : heap.Sound) (hFull : heap.isFull = false) (h : heap.Inside size)
    (length : UInt16) (mode : TraceMode) : (heap.insert length mode).2.Inside size := by
  intro other alloc hGet
  rw [get?_insert hs hFull] at hGet
  split at hGet
  · rw [newAllocation_eq hs] at hGet
    cases hGet
    intro value hValue
    obtain ⟨-, rfl⟩ := Array.mem_replicate.1 hValue
    trivial
  · exact h other alloc hGet

theorem inside_erase (h : heap.Inside size) (handle : Handle) :
    (heap.erase handle).Inside size := by
  intro other alloc hGet
  rw [get?_erase] at hGet
  split at hGet
  · cases hGet
  · exact h other alloc hGet

theorem gives_load (h : heap.Inside size) (handle : Handle) (index : Int64) :
    Gives (·.Inside size) (heap.load handle index) := by
  refine gives_bind fun alloc hGet => gives_bind fun position _ => ?_
  split
  · rename_i value _ hValue
    exact gives_ok (h handle alloc (get_eq_ok.1 hGet) value (Array.mem_of_getElem? hValue))
  · exact gives_error _
  · exact gives_error _

theorem gives_loadUnchecked (h : heap.Inside size) (handle : Handle) (index : Nat) :
    Gives (·.Inside size) (heap.loadUnchecked handle index) := by
  refine gives_bind fun alloc hGet => ?_
  unfold Allocation.loadUnchecked
  split
  · rename_i value hValue
    exact gives_ok (h handle alloc (get_eq_ok.1 hGet) value (Array.mem_of_getElem? hValue))
  · exact gives_error _

end Arena

theorem Memory.inside_closeFrame {memory : Memory} (hs : memory.heap.Sound)
    (h : memory.heap.Inside size) : memory.closeFrame.2.heap.Inside size := by
  rcases hBack : memory.collector.frames.back? with _ | closed
  · rw [closeFrame_of_root hBack]
    exact h
  · intro handle alloc hGet
    obtain ⟨old, mark, hOld, rfl⟩ := (closes_closeFrame hs hBack).get? handle alloc hGet
    exact h handle old hOld

theorem Memory.inside_closeFrames (n : Nat) (total : SweepReport) {memory : Memory}
    (hs : memory.Sound) (h : memory.heap.Inside size) :
    (closeFrames n total memory).2.heap.Inside size := by
  induction n generalizing total memory with
  | zero => exact h
  | succ n ih => exact ih _ (sound_closeFrame hs) (inside_closeFrame hs.heap h)

/-! ## Functions of the host -/

/-- The value that a request puts into a cell, if it puts one. -/
def Request.stored? : Request σ → Option Value
  | .store _ _ value | .storeUnchecked _ _ value => some value
  | _ => none

/-- The request puts no address into a cell. -/
def Request.PutsNoAddress (request : Request σ) : Prop :=
  ∀ value, request.stored? = some value → value.isAddress = false

/-- When it is run in `world`, the function neither stores an address nor returns one. -/
def Script.GivesNoAddress (script : Script σ Value) (world : World σ) : Prop :=
  script.Keeps Request.PutsNoAddress (·.isAddress = false) world

theorem World.inside_changeHeap {world : World σ} (h : world.memory.heap.Inside size)
    {handle : Handle} {α : Type} {checked : Except Fault α}
    {change : α → Allocation → Allocation}
    (hChange : ∀ value (alloc : Allocation), alloc.Inside size → (change value alloc).Inside size) :
    (world.changeHeap (checked.map fun value heap =>
      heap.modify handle (change value))).2.memory.heap.Inside size := by
  cases checked with
  | error fault => exact h
  | ok value => exact Arena.inside_modify h (hChange value)

theorem World.inside_answer {world : World σ} (hs : world.memory.heap.Sound)
    (h : world.memory.heap.Inside size) (request : Request σ)
    (hStored : ∀ value, request.stored? = some value → value.Inside size) :
    (world.answer request).2.memory.heap.Inside size := by
  cases request with
  | allocate length mode =>
    unfold answer
    by_cases hFull : world.memory.heap.isFull = true
    · simp only [hFull, if_true]
      exact h
    · simp only [hFull]
      exact Arena.inside_insert hs (by simpa using hFull) h length mode
  | store handle index value | storeUnchecked handle index value =>
    exact inside_changeHeap h fun position alloc hAlloc =>
      Allocation.inside_write hAlloc (hStored value rfl) position
  | setFlag handle index flagged =>
    exact inside_changeHeap h fun position alloc hAlloc =>
      Allocation.inside_setFlag hAlloc position flagged
  | setMode handle mode => exact inside_changeHeap h fun _ _ hAlloc => hAlloc
  | _ => exact h

theorem Script.inside_run (script : Script σ Value) {world : World σ} (hs : world.memory.Sound)
    (h : world.memory.heap.Inside size) (hHost : script.GivesNoAddress world) :
    (script.run world).2.memory.heap.Inside size ∧
      ∀ value, (script.run world).1 = .ok value → value.Inside size := by
  induction script generalizing world with
  | done result =>
    refine ⟨h, ?_⟩
    intro value hValue
    cases hValue
    exact Value.inside_of_isAddress hHost
  | fail reason =>
    refine ⟨h, ?_⟩
    intro value hValue
    cases hValue
  | ask request next ih =>
    have hSound := ((world.serves_answer hs.heap request).turns hs.heap fun _ => True).sound hs
    refine ih (world.answer request).1 hSound ?_ hHost.2
    exact World.inside_answer hs.heap h request fun value hStored =>
      Value.inside_of_isAddress (hHost.1 value hStored)

/-! ## What instructions compute -/

theorem gives_onLongs {f : Int64 → Int64 → Value} (hf : ∀ x y, (f x y).Inside size)
    (x y : Value) : Gives (·.Inside size) (onLongs f x y) :=
  gives_bind fun _ _ => gives_bind fun _ _ => gives_ok (hf _ _)

theorem gives_onFloats {f : UInt64 → UInt64 → Value} (hf : ∀ x y, (f x y).Inside size)
    (x y : Value) : Gives (·.Inside size) (onFloats f x y) :=
  gives_bind fun _ _ => gives_bind fun _ _ => gives_ok (hf _ _)

theorem gives_onDividedLongs (f : Int64 → Int64 → Int64) (x y : Value) :
    Gives (·.Inside size) (onDividedLongs f x y) := by
  refine gives_bind fun _ _ => gives_bind fun _ _ => ?_
  split
  · exact gives_error _
  · exact gives_ok trivial

theorem gives_onDividedFloats (f : UInt64 → UInt64 → UInt64) (x y : Value) :
    Gives (·.Inside size) (onDividedFloats f x y) := by
  refine gives_bind fun _ _ => gives_bind fun _ _ => ?_
  split
  · exact gives_error _
  · exact gives_ok trivial

/-- No operation makes an address of two values. -/
theorem Operation.gives_binary {op : Operation} {f : Value → Value → Except Fault Value}
    (h : op.binary? = some f) (x y : Value) : Gives (·.Inside size) (f x y) := by
  cases op with
  | and =>
    cases h
    refine gives_bind fun first _ => ?_
    cases first with
    | true => exact gives_bind fun _ _ => gives_ok trivial
    | false => exact gives_ok trivial
  | or =>
    cases h
    refine gives_bind fun first _ => ?_
    cases first with
    | true => exact gives_ok trivial
    | false => exact gives_bind fun _ _ => gives_ok trivial
  | boolEqual | charEqual =>
    cases h
    exact gives_bind fun _ _ => gives_bind fun _ _ => gives_ok trivial
  | longEqual | longMore | longLess | longMoreEqual | longLessEqual | longAdd | longSubtract
  | longMultiply | longExponentiate =>
    cases h
    apply gives_onLongs
    intro _ _
    trivial
  | floatEqual | floatMore | floatLess | floatMoreEqual | floatLessEqual | floatAdd
  | floatSubtract | floatMultiply | floatExponentiate =>
    cases h
    apply gives_onFloats
    intro _ _
    trivial
  | longDivide | longModulo =>
    cases h
    exact gives_onDividedLongs _ x y
  | floatDivide | floatModulo =>
    cases h
    exact gives_onDividedFloats _ x y
  | _ => cases h

/-- No operation makes an address of one value. -/
theorem Operation.gives_unary {op : Operation} {f : Value → Except Fault Value}
    (h : op.unary? = some f) (x : Value) : Gives (·.Inside size) (f x) := by
  cases op with
  | not | longNegate | floatNegate =>
    cases h
    exact gives_bind fun _ _ => gives_ok trivial
  | _ => cases h

namespace Machine

theorem gives_immediate (word kind : UInt16) : Gives (·.Inside size) (immediate word kind) := by
  refine gives_bind fun found _ => ?_
  cases found with
  | char =>
    simp only
    split
    · exact gives_ok trivial
    · exact gives_error _
  | _ => exact gives_ok trivial

end Machine

end RegisterMachine

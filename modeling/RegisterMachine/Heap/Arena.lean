-- The arena: the owner of every live allocation. Allocations live in slots. A
-- release moves the slot to its next generation, so that a handle that
-- outlives its allocation is noticed when it is used. Released allocations are
-- kept in a pool, as they were when they were released, and are cleared when a
-- later allocation takes them.
import RegisterMachine.Heap.Allocation

namespace RegisterMachine

structure Slot where
  generation : UInt32
  content : Option Allocation
  deriving DecidableEq, Repr, Inhabited

/-- Empties a slot and moves it to its next generation. -/
def Slot.vacate (slot : Slot) : Slot := ⟨slot.generation + 1, none⟩

structure Arena where
  slots : Array Slot := #[]
  /-- The empty slots; the last one is used first. -/
  vacant : Array UInt32 := #[]
  /-- The released allocations that wait for reuse. -/
  pool : Array Allocation := #[]
  /-- The number of live allocations. -/
  live : Nat := 0
  /-- The most live allocations. -/
  limit : Nat
  /-- The most allocations in the pool. -/
  poolLimit : Nat
  /-- The number of the last marking pass. -/
  epoch : UInt32 := 0
  deriving DecidableEq, Repr, Inhabited

namespace Arena

/-- The live allocation of a handle. -/
def get? (heap : Arena) (handle : Handle) : Option Allocation :=
  match heap.slots[handle.index.toNat]? with
  | some slot => if slot.generation = handle.generation then slot.content else none
  | none => none

/-- The live allocation of a handle; a stale handle is an internal fault. -/
def get (heap : Arena) (handle : Handle) : Except Fault Allocation :=
  match heap.get? handle with
  | some alloc => .ok alloc
  | none => .error .internal

def contains (heap : Arena) (handle : Handle) : Bool := (heap.get? handle).isSome

/-- Changes the allocation of a handle, if it is live. -/
def modify (heap : Arena) (handle : Handle) (change : Allocation → Allocation) : Arena :=
  { heap with
    slots := heap.slots.modify handle.index.toNat fun slot =>
      if slot.generation = handle.generation then
        { slot with content := slot.content.map change }
      else slot }

/-! ## Allocation and release -/

/-- Whether no further allocation can be made. -/
def isFull (heap : Arena) : Bool :=
  heap.limit ≤ heap.live || (heap.vacant.isEmpty && UInt32.size ≤ heap.slots.size)

/-- Takes the entry at `i` out of an array and moves the last entry into its place. -/
def swapRemove {α : Type} (entries : Array α) (i : Nat) : Array α :=
  match entries.back? with
  | some last => (entries.setIfInBounds i last).pop
  | none => entries

/-- The first released allocation of the pool whose store has room for `size`
slots, if there is one, and the pool without it. -/
def takeReleased (pool : Array Allocation) (size : Nat) : Option Allocation × Array Allocation :=
  match pool.findIdx? (size ≤ ·.capacity) with
  | some i => (pool[i]?, swapRemove pool i)
  | none => (none, pool)

/-- The array for an allocation of `size` slots, and the pool without what it
was made of: a released array that is recycled, else a new one. -/
def supply (pool : Array Allocation) (size : Nat) (mode : TraceMode) :
    Allocation × Array Allocation :=
  match takeReleased pool size with
  | (some released, pool) => (released.recycle size mode, pool)
  | (none, pool) => (.fresh size size mode, pool)

/-- Puts an allocation into the slot that was vacated last, else into a new slot. -/
def place (heap : Arena) (alloc : Allocation) : Handle × Arena :=
  match heap.vacant.back? with
  | some index =>
    let generation := (heap.slots[index.toNat]?.map Slot.generation).getD 0
    (⟨index, generation⟩,
      { heap with
        slots := heap.slots.modify index.toNat fun slot => { slot with content := some alloc }
        vacant := heap.vacant.pop
        live := heap.live + 1 })
  | none =>
    (⟨UInt32.ofNat heap.slots.size, 0⟩,
      { heap with
        slots := heap.slots.push ⟨0, some alloc⟩
        live := heap.live + 1 })

/-- Makes an allocation in an arena that is not full. -/
def insert (heap : Arena) (size : UInt16) (mode : TraceMode) : Handle × Arena :=
  let (alloc, pool) := supply heap.pool size.toNat mode
  { heap with pool }.place alloc

def allocate (heap : Arena) (size : UInt16) (mode : TraceMode) : Except Fault (Handle × Arena) :=
  if heap.isFull then .error .memory else .ok (heap.insert size mode)

/-- Releases the allocation of a handle, if it is live, into the pool, if there
is room in it. -/
def erase (heap : Arena) (handle : Handle) : Arena :=
  match heap.get? handle with
  | none => heap
  | some alloc =>
    { heap with
      slots := heap.slots.modify handle.index.toNat Slot.vacate
      vacant := heap.vacant.push handle.index
      pool := if heap.pool.size < heap.poolLimit then heap.pool.push alloc else heap.pool
      live := heap.live - 1 }

def release (heap : Arena) (handle : Handle) : Except Fault Arena :=
  if heap.contains handle then .ok (heap.erase handle) else .error .internal

/-- The slots that hold an allocation, in order. -/
def occupied (heap : Arena) : List UInt32 :=
  (heap.slots.toList.zipIdx.filter fun (slot, _) => slot.content.isSome).map fun (_, index) =>
    UInt32.ofNat index

/-- Releases every allocation and empties the pool. Also gives the number of
allocations that were live. -/
def clear (heap : Arena) : Nat × Arena :=
  (heap.live,
    { heap with
      slots := heap.slots.map fun slot => if slot.content.isSome then slot.vacate else slot
      vacant := heap.vacant ++ heap.occupied.toArray
      pool := #[]
      live := 0 })

/-! ## Access through a handle -/

def load (heap : Arena) (handle : Handle) (index : Int64) : Except Fault Value := do
  (← heap.get handle).load index

def loadUnchecked (heap : Arena) (handle : Handle) (index : Nat) : Except Fault Value := do
  (← heap.get handle).loadUnchecked index

/-- The position of a cell of a live allocation. -/
def position (heap : Arena) (handle : Handle) (index : Int64) : Except Fault Nat := do
  (← heap.get handle).position index

def positionUnchecked (heap : Arena) (handle : Handle) (index : Nat) : Except Fault Nat := do
  (← heap.get handle).positionUnchecked index

def write (heap : Arena) (handle : Handle) (position : Nat) (value : Value) : Arena :=
  heap.modify handle (·.write position value)

def store (heap : Arena) (handle : Handle) (index : Int64) (value : Value) :
    Except Fault Arena := do
  let position ← heap.position handle index
  pure (heap.write handle position value)

def storeUnchecked (heap : Arena) (handle : Handle) (index : Nat) (value : Value) :
    Except Fault Arena := do
  let position ← heap.positionUnchecked handle index
  pure (heap.write handle position value)

def setFlag (heap : Arena) (handle : Handle) (index : Int64) (flagged : Bool) :
    Except Fault Arena := do
  let position ← heap.position handle index
  pure (heap.modify handle (·.setFlag position flagged))

def setMode (heap : Arena) (handle : Handle) (mode : TraceMode) : Except Fault Arena :=
  if heap.contains handle then .ok (heap.modify handle (·.setMode mode)) else .error .internal

end Arena

end RegisterMachine

-- Renamings of heap handles: a bijection of the slots, and for each slot a shift of its
-- generations. Whatever holds handles is renamed by renaming each of them, and whatever does
-- not look inside a handle commutes with that.
import Mathlib.Logic.Equiv.Defs
import Mathlib.Logic.Function.Basic
import RegisterMachine.Machine.Step
import RegisterMachine.Proofs.BareHeap
import RegisterMachine.Proofs.Reachability

namespace RegisterMachine

structure Renaming where
  slot : Equiv.Perm UInt32
  shift : UInt32 → UInt32

namespace Renaming

variable (ρ : Renaming)

/-! ## Handles -/

def handle (h : Handle) : Handle := ⟨ρ.slot h.index, h.generation + ρ.shift h.index⟩

theorem handle_injective : Function.Injective ρ.handle := by
  intro x y h
  obtain ⟨hIndex, hGeneration⟩ := Handle.mk.inj h
  have hSlot : x.index = y.index := ρ.slot.injective hIndex
  rw [hSlot] at hGeneration
  have hSame : x.generation = y.generation := by simpa using hGeneration
  cases x
  cases y
  simp_all

@[simp]
theorem handle_inj {x y : Handle} : ρ.handle x = ρ.handle y ↔ x = y := ρ.handle_injective.eq_iff

/-- Every handle is the new name of a handle. -/
theorem handle_surjective : Function.Surjective ρ.handle := by
  intro h
  refine ⟨⟨ρ.slot.symm h.index, h.generation - ρ.shift (ρ.slot.symm h.index)⟩, ?_⟩
  simp [handle]

/-! ## Values -/

def value : Value → Value
  | .handle h => .handle (ρ.handle h)
  | other => other

@[simp]
theorem value_handle (h : Handle) : ρ.value (.handle h) = .handle (ρ.handle h) := rfl

@[simp]
theorem value_zero : ρ.value .zero = .zero := rfl

@[simp]
theorem value_ofConstant (constant : Constant) :
    ρ.value (.ofConstant constant) = .ofConstant constant := by
  cases constant <;> rfl

@[simp]
theorem asLong_value (v : Value) : (ρ.value v).asLong = v.asLong := by cases v <;> rfl

@[simp]
theorem asFloat_value (v : Value) : (ρ.value v).asFloat = v.asFloat := by cases v <;> rfl

@[simp]
theorem asChar_value (v : Value) : (ρ.value v).asChar = v.asChar := by cases v <;> rfl

@[simp]
theorem asBool_value (v : Value) : (ρ.value v).asBool = v.asBool := by cases v <;> rfl

@[simp]
theorem asAddress_value (v : Value) : (ρ.value v).asAddress = v.asAddress := by cases v <;> rfl

@[simp]
theorem asHandle_value (v : Value) : (ρ.value v).asHandle = v.asHandle.map ρ.handle := by
  cases v <;> rfl

theorem value_eq_handle {v : Value} {h : Handle} :
    ρ.value v = .handle (ρ.handle h) ↔ v = .handle h := by
  cases v <;> simp [value]

/-! ## Allocations -/

def allocation (alloc : Allocation) : Allocation :=
  { alloc with values := alloc.values.map ρ.value }

section Allocation

variable (alloc : Allocation)

@[simp]
theorem capacity_allocation : (ρ.allocation alloc).capacity = alloc.capacity := by
  simp [allocation, Allocation.capacity]

theorem allocation_fresh (capacity limit : Nat) (mode : TraceMode) :
    ρ.allocation (.fresh capacity limit mode) = .fresh capacity limit mode := by
  simp [allocation, Allocation.fresh, value_zero]

theorem allocation_write (position : Nat) (v : Value) :
    ρ.allocation (alloc.write position v) = (ρ.allocation alloc).write position (ρ.value v) := by
  simp only [allocation, Allocation.write, Array.map_setIfInBounds]

theorem allocation_setFlag (position : Nat) (flagged : Bool) :
    ρ.allocation (alloc.setFlag position flagged)
      = (ρ.allocation alloc).setFlag position flagged := rfl

theorem load_allocation (index : Int64) :
    (ρ.allocation alloc).load index = (alloc.load index).map ρ.value := by
  have hPosition : (ρ.allocation alloc).position index = alloc.position index := rfl
  unfold Allocation.load
  rw [hPosition]
  rcases alloc.position index with fault | i
  · rfl
  · have hValue : (ρ.allocation alloc).values[i]? = alloc.values[i]?.map ρ.value := by
      simp [allocation]
    have hWritten : (ρ.allocation alloc).written[i]? = alloc.written[i]? := rfl
    simp only [bind, Except.bind, hValue, hWritten]
    rcases alloc.written[i]? with _ | _ | _ <;> rcases alloc.values[i]? with _ | v <;> rfl

theorem loadUnchecked_allocation (index : Nat) :
    (ρ.allocation alloc).loadUnchecked index = (alloc.loadUnchecked index).map ρ.value := by
  unfold Allocation.loadUnchecked allocation
  rw [Array.getElem?_map]
  rcases alloc.values[index]? with _ | v <;> rfl

theorem positionUnchecked_allocation (index : Nat) :
    (ρ.allocation alloc).positionUnchecked index = alloc.positionUnchecked index := by
  unfold Allocation.positionUnchecked
  rw [capacity_allocation]

/-- A renamed array leads to the new names of what it led to. -/
theorem leads_allocation {child : Handle} :
    (ρ.allocation alloc).Leads (ρ.handle child) ↔ alloc.Leads child := by
  unfold Allocation.Leads allocation
  simp only [Array.getElem?_map, Option.map_eq_some_iff]
  constructor
  · rintro ⟨i, hi, hWritten, ⟨v, hValue, hHandle⟩, hMode⟩
    exact ⟨i, hi, hWritten, hValue.trans (congrArg some (ρ.value_eq_handle.1 hHandle)), hMode⟩
  · rintro ⟨i, hi, hWritten, hValue, hMode⟩
    exact ⟨i, hi, hWritten, ⟨_, hValue, rfl⟩, hMode⟩

end Allocation

/-! ## Frames -/

def frame (f : Frame) : Frame :=
  { f with owned := f.owned.map ρ.handle, traced := f.traced.map ρ.handle }

def collector (c : Collector) : Collector :=
  { c with root := ρ.frame c.root, frames := c.frames.map ρ.frame }

theorem filter_map_handle {keep keep' : Handle → Bool} (h : ∀ x, keep' (ρ.handle x) = keep x)
    (entries : Array Handle) :
    (entries.map ρ.handle).filter keep' = (entries.filter keep).map ρ.handle := by
  have hSame : keep' ∘ ρ.handle = keep := funext h
  rw [Array.filter_map, hSame]

theorem lastIndexBelow?_map (entries : Array Handle) (h : Handle) (n : Nat) :
    Frame.lastIndexBelow? (entries.map ρ.handle) (ρ.handle h) n
      = Frame.lastIndexBelow? entries h n := by
  induction n with
  | zero => rfl
  | succ n ih =>
    rw [Frame.lastIndexBelow?, Frame.lastIndexBelow?, ih, Array.getElem?_map]
    rcases entries[n]? with _ | entry
    · rfl
    · simp

theorem lastIndex?_map (entries : Array Handle) (h : Handle) :
    Frame.lastIndex? (entries.map ρ.handle) (ρ.handle h) = Frame.lastIndex? entries h := by
  unfold Frame.lastIndex?
  rw [lastIndexBelow?_map, Array.size_map]

theorem swapRemove_map (entries : Array Handle) (i : Nat) :
    Arena.swapRemove (entries.map ρ.handle) i = (Arena.swapRemove entries i).map ρ.handle := by
  unfold Arena.swapRemove
  rw [Array.back?_map]
  rcases entries.back? with _ | last
  · rfl
  · simp only [Option.map_some, Array.map_pop, Array.map_setIfInBounds]

theorem removeLast_map (entries : Array Handle) (h : Handle) :
    Frame.removeLast (entries.map ρ.handle) (ρ.handle h)
      = (Frame.removeLast entries h).map ρ.handle := by
  unfold Frame.removeLast
  rw [lastIndex?_map]
  rcases Frame.lastIndex? entries h with _ | i
  · rfl
  · exact ρ.swapRemove_map entries i

theorem forget_frame (f : Frame) (h : Handle) :
    (ρ.frame f).forget (ρ.handle h) = ρ.frame (f.forget h) := by
  have hKeep : ∀ x, decide (ρ.handle x ≠ ρ.handle h) = decide (x ≠ h) := by simp
  unfold Frame.forget frame
  rw [removeLast_map, ρ.filter_map_handle hKeep]

theorem isEmpty_collector (c : Collector) :
    (ρ.collector c).frames.isEmpty = c.frames.isEmpty := by
  simp [collector, Array.isEmpty]

theorem modifyCurrent_collector {change change' : Frame → Frame}
    (h : ∀ f, change' (ρ.frame f) = ρ.frame (change f)) (c : Collector) :
    (ρ.collector c).modifyCurrent change' = ρ.collector (c.modifyCurrent change) := by
  unfold Collector.modifyCurrent
  rw [isEmpty_collector]
  split
  · simp only [collector, h]
  · have hModify := Arena.map_modify (fun f => (h f).symm) c.frames (c.frames.size - 1)
    simp only [collector, Array.size_map, hModify]

theorem push_collector (c : Collector) : (ρ.collector c).push = ρ.collector c.push := by
  simp [Collector.push, collector, frame]

theorem pop_collector (c : Collector) : (ρ.collector c).pop = ρ.collector c.pop := by
  simp [Collector.pop, collector]

theorem depth_collector (c : Collector) : (ρ.collector c).depth = c.depth := by
  simp [Collector.depth, collector]

theorem canOpen_collector (c : Collector) : (ρ.collector c).canOpen = c.canOpen := by
  unfold Collector.canOpen
  rw [depth_collector]
  rfl

theorem forget_collector (c : Collector) (h : Handle) :
    (ρ.collector c).forget (ρ.handle h) = ρ.collector (c.forget h) :=
  ρ.modifyCurrent_collector (ρ.forget_frame · h) c

section Live

variable {heap other : Arena} (hLive : ∀ h, other.contains (ρ.handle h) = heap.contains h)

include hLive

theorem compact_frame (f : Frame) : (ρ.frame f).compact other = ρ.frame (f.compact heap) := by
  unfold Frame.compact frame
  rw [ρ.filter_map_handle hLive, ρ.filter_map_handle hLive]
  simp only [Array.size_map]

theorem own_frame (f : Frame) (h : Handle) :
    (ρ.frame f).own other (ρ.handle h) = ρ.frame (f.own heap h) := by
  have hSize : (ρ.frame f).owned.size = f.owned.size := by simp [frame]
  have hAt : (ρ.frame f).compactAt = f.compactAt := rfl
  unfold Frame.own
  rw [hSize, hAt, ρ.compact_frame hLive]
  split <;> simp [frame]

theorem trace_frame (f : Frame) (h : Handle) :
    (ρ.frame f).trace other (ρ.handle h) = ρ.frame (f.trace heap h) := by
  have hSize : (ρ.frame f).traced.size = f.traced.size := by simp [frame]
  have hAt : (ρ.frame f).compactAt = f.compactAt := rfl
  have hTracing : (ρ.frame f).isTracing (ρ.handle h) = f.isTracing h := by
    simp only [Frame.isTracing, frame, lastIndex?_map]
  unfold Frame.trace Frame.pushTrace
  rw [hTracing, hSize, hAt, ρ.compact_frame hLive]
  split
  · rfl
  · split <;> simp [frame]

theorem register_collector (c : Collector) (h : Handle) :
    (ρ.collector c).register other (ρ.handle h) = ρ.collector (c.register heap h) :=
  ρ.modifyCurrent_collector (ρ.own_frame hLive · h) c

theorem addTrace_collector (c : Collector) (h : Handle) :
    (ρ.collector c).addTrace other (ρ.handle h) = ρ.collector (c.addTrace heap h) :=
  ρ.modifyCurrent_collector (ρ.trace_frame hLive · h) c

end Live

/-! ## Registers -/

def registers (r : Registers) : Registers := { r with cells := r.cells.map ρ.value }

section Registers

variable (r : Registers)

theorem size_registers : (ρ.registers r).size = r.size := by
  simp [registers, Registers.size]

theorem locate_registers (mode : Addressing) (index : UInt16) :
    (ρ.registers r).locate mode index = r.locate mode index := by
  unfold Registers.locate
  rw [size_registers]
  rfl

theorem get_registers (address : Nat) :
    (ρ.registers r).get address = (r.get address).map ρ.value := by
  unfold Registers.get registers
  rw [Array.getElem?_map]
  rcases r.cells[address]? with _ | v <;> rfl

/-- What is read from a value without looking inside a handle is read as before. -/
theorem read_registers {α : Type} {read : Value → Except Fault α}
    (h : ∀ v, read (ρ.value v) = read v) (address : Nat) :
    ((ρ.registers r).get address >>= read) = (r.get address >>= read) := by
  rw [get_registers]
  rcases r.get address with fault | v
  · rfl
  · exact h v

theorem long_registers (address : Nat) : (ρ.registers r).long address = r.long address :=
  ρ.read_registers r ρ.asLong_value address

theorem bool_registers (address : Nat) : (ρ.registers r).bool address = r.bool address :=
  ρ.read_registers r ρ.asBool_value address

theorem address_registers (address : Nat) :
    (ρ.registers r).address address = r.address address :=
  ρ.read_registers r ρ.asAddress_value address

theorem handle_registers (address : Nat) :
    (ρ.registers r).handle address = (r.handle address).map ρ.handle := by
  unfold Registers.handle
  rw [get_registers]
  rcases r.get address with fault | v
  · rfl
  · exact ρ.asHandle_value v

theorem baseAbove_registers (amount : UInt16) :
    (ρ.registers r).baseAbove amount = r.baseAbove amount := by
  unfold Registers.baseAbove
  rw [size_registers]
  rfl

theorem write_registers (address : Nat) (v : Value) :
    (ρ.registers r).write address (ρ.value v) = ρ.registers (r.write address v) := by
  simp [Registers.write, registers]

theorem copyConstants_registers (address : Nat) (constants : List Constant) :
    Machine.copyConstants (ρ.registers r) address constants
      = ρ.registers (Machine.copyConstants r address constants) := by
  induction constants generalizing r address with
  | nil => rfl
  | cons constant rest ih =>
    rw [Machine.copyConstants, Machine.copyConstants, ← ih, ← write_registers, value_ofConstant]

end Registers

/-! ## Operations and effects -/

/-- A computation goes on from a renamed value as from the old one. -/
theorem bind_map {α α' β β' : Type} {first : Except Fault α} {first' : Except Fault α'}
    {old : α → Except Fault β} {new : α' → Except Fault β'} {rename : α → α'} {rename' : β → β'}
    (hFirst : first' = first.map rename) (h : ∀ v, new (rename v) = (old v).map rename') :
    (first' >>= new) = (first >>= old).map rename' := by
  subst hFirst
  rcases first with fault | v
  · rfl
  · exact h v

theorem bind_same {α β β' : Type} {first first' : Except Fault α} {old : α → Except Fault β}
    {new : α → Except Fault β'} {rename : β → β'} (hFirst : first' = first)
    (h : ∀ v, new v = (old v).map rename) : (first' >>= new) = (first >>= old).map rename := by
  subst hFirst
  rcases first' with fault | v
  · rfl
  · exact h v

/-- What is computed from two values of another kind than handles has no handle in it. -/
theorem both_value {α : Type} {read : Value → Except Fault α}
    (hRead : ∀ v, read (ρ.value v) = read v) {f : α → α → Except Fault Value}
    (h : ∀ a b, f a b = (f a b).map ρ.value) (x y : Value) :
    (read (ρ.value x) >>= fun a => read (ρ.value y) >>= f a) =
      (read x >>= fun a => read y >>= f a).map ρ.value :=
  bind_same (hRead x) fun a => bind_same (hRead y) (h a)

theorem unary?_value {op : Operation} {f : Value → Except Fault Value} (h : op.unary? = some f)
    (x : Value) : f (ρ.value x) = (f x).map ρ.value := by
  cases op with
  | not | longNegate | floatNegate =>
    cases h
    cases x <;> rfl
  | _ => cases h

theorem binary?_value {op : Operation} {f : Value → Value → Except Fault Value}
    (h : op.binary? = some f) (x y : Value) :
    f (ρ.value x) (ρ.value y) = (f x y).map ρ.value := by
  cases op with
  | and | or =>
    cases h
    rcases x with _ | _ | _ | (_ | _) | _ | _ <;> cases y <;> rfl
  | boolEqual =>
    cases h
    exact ρ.both_value ρ.asBool_value (fun _ _ => rfl) x y
  | charEqual =>
    cases h
    exact ρ.both_value ρ.asChar_value (fun _ _ => rfl) x y
  | longDivide | longModulo =>
    cases h
    refine ρ.both_value ρ.asLong_value (fun a b => ?_) x y
    split <;> rfl
  | floatDivide | floatModulo =>
    cases h
    refine ρ.both_value ρ.asFloat_value (fun a b => ?_) x y
    split <;> rfl
  | longEqual | longMore | longLess | longMoreEqual | longLessEqual | longAdd | longSubtract
  | longMultiply | longExponentiate =>
    cases h
    exact ρ.both_value ρ.asLong_value (fun _ _ => rfl) x y
  | floatEqual | floatMore | floatLess | floatMoreEqual | floatLessEqual | floatAdd
  | floatSubtract | floatMultiply | floatExponentiate =>
    cases h
    exact ρ.both_value ρ.asFloat_value (fun _ _ => rfl) x y
  | _ => cases h

def effect : Effect → Effect
  | .write address v => .write address (ρ.value v)
  | .store h position v => .store (ρ.handle h) position (ρ.value v)
  | .setFlag h position flagged => .setFlag (ρ.handle h) position flagged
  | .setMode h mode => .setMode (ρ.handle h) mode
  | .free h => .free (ρ.handle h)
  | .trace h => .trace (ρ.handle h)
  | .foreign id input address => .foreign id (ρ.value input) address
  | other => other

end Renaming

end RegisterMachine

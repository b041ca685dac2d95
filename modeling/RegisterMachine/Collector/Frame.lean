-- Collector frames: the allocations that were made in a scope, and those of
-- them that are to outlive it.
import RegisterMachine.Heap.Arena

namespace RegisterMachine

/-- The least length at which a frame takes dead entries out. -/
def Frame.compactLeast : Nat := 64

structure Frame where
  /-- The allocations of the scope, dead ones perhaps among them. -/
  owned : Array Handle := #[]
  /-- The allocations that are kept, with all that they lead to, when the scope ends. -/
  traced : Array Handle := #[]
  /-- The length at which dead entries are next taken out. -/
  compactAt : Nat := Frame.compactLeast
  deriving DecidableEq, Repr, Inhabited

namespace Frame

/-- Takes the dead entries out. This is done again when the longer list has doubled. -/
def compact (frame : Frame) (heap : Arena) : Frame :=
  let owned := frame.owned.filter heap.contains
  let traced := frame.traced.filter heap.contains
  { owned, traced, compactAt := max (2 * max owned.size traced.size) compactLeast }

def own (frame : Frame) (heap : Arena) (handle : Handle) : Frame :=
  let frame := if frame.compactAt ≤ frame.owned.size then frame.compact heap else frame
  { frame with owned := frame.owned.push handle }

/-- The last of the first `n` places at which `handle` stands. -/
def lastIndexBelow? (entries : Array Handle) (handle : Handle) : Nat → Option Nat
  | 0 => none
  | n + 1 =>
    match entries[n]? with
    | some entry => if entry = handle then some n else lastIndexBelow? entries handle n
    | none => lastIndexBelow? entries handle n

/-- The last place at which `handle` stands. -/
def lastIndex? (entries : Array Handle) (handle : Handle) : Option Nat :=
  lastIndexBelow? entries handle entries.size

theorem isSome_lastIndexBelow? (entries : Array Handle) (handle : Handle) (n : Nat) :
    (lastIndexBelow? entries handle n).isSome ↔ ∃ i < n, entries[i]? = some handle := by
  induction n with
  | zero => simp [lastIndexBelow?]
  | succ n ih =>
    have hStep : (∃ i < n + 1, entries[i]? = some handle)
        ↔ entries[n]? = some handle ∨ ∃ i < n, entries[i]? = some handle := by
      constructor
      · rintro ⟨i, hi, h⟩
        rcases Nat.lt_succ_iff_lt_or_eq.1 hi with hlt | rfl
        · exact Or.inr ⟨i, hlt, h⟩
        · exact Or.inl h
      · rintro (h | ⟨i, hi, h⟩)
        · exact ⟨n, Nat.lt_succ_self n, h⟩
        · exact ⟨i, Nat.lt_succ_of_lt hi, h⟩
    rw [lastIndexBelow?, hStep, ← ih]
    split
    · rename_i entry hEntry
      by_cases h : entry = handle <;> simp [h, hEntry]
    · rename_i hNone
      simp [hNone]

theorem isSome_lastIndex? {entries : Array Handle} {handle : Handle} :
    (lastIndex? entries handle).isSome ↔ handle ∈ entries := by
  rw [lastIndex?, isSome_lastIndexBelow?, Array.mem_iff_getElem?]
  constructor
  · rintro ⟨i, _, h⟩
    exact ⟨i, h⟩
  · rintro ⟨i, h⟩
    exact ⟨i, (Array.getElem?_eq_some_iff.1 h).1, h⟩

/-- Whether the frame has a trace of `handle`. -/
def isTracing (frame : Frame) (handle : Handle) : Bool := (lastIndex? frame.traced handle).isSome

theorem isTracing_iff_mem {frame : Frame} {handle : Handle} :
    frame.isTracing handle ↔ handle ∈ frame.traced :=
  isSome_lastIndex?

/-- Adds a trace, whether the frame has it or not. -/
def pushTrace (frame : Frame) (heap : Arena) (handle : Handle) : Frame :=
  let frame := if frame.compactAt ≤ frame.traced.size then frame.compact heap else frame
  { frame with traced := frame.traced.push handle }

/-- Adds a trace that the frame does not have yet. -/
def trace (frame : Frame) (heap : Arena) (handle : Handle) : Frame :=
  if frame.isTracing handle then frame else frame.pushTrace heap handle

/-- Takes the last entry of `handle` out, and moves the last entry of all into its place. -/
def removeLast (entries : Array Handle) (handle : Handle) : Array Handle :=
  match lastIndex? entries handle with
  | some i => Arena.swapRemove entries i
  | none => entries

/-- Drops a handle from both lists. -/
def forget (frame : Frame) (handle : Handle) : Frame :=
  { frame with
    owned := removeLast frame.owned handle
    traced := frame.traced.filter (· ≠ handle) }

/-- Drops one trace of a handle. -/
def untrace (frame : Frame) (handle : Handle) : Frame :=
  { frame with traced := removeLast frame.traced handle }

end Frame

/-- The open frames, above a root frame that is never closed. -/
structure Collector where
  root : Frame := {}
  /-- The frames above the root; the last one is the current one. -/
  frames : Array Frame := #[]
  /-- The most frames above the root. -/
  frameLimit : Nat
  deriving DecidableEq, Repr, Inhabited

namespace Collector

/-- The number of frames above the root. -/
def depth (collector : Collector) : Nat := collector.frames.size

/-- The innermost frame. -/
def current (collector : Collector) : Frame := collector.frames.back?.getD collector.root

def modifyCurrent (collector : Collector) (change : Frame → Frame) : Collector :=
  if collector.frames.isEmpty then { collector with root := change collector.root }
  else
    { collector with
      frames := collector.frames.modify (collector.frames.size - 1) change }

def canOpen (collector : Collector) : Bool := collector.depth < collector.frameLimit

def push (collector : Collector) : Collector :=
  { collector with frames := collector.frames.push {} }

/-- Opens a frame. -/
def openFrame (collector : Collector) : Except Fault Collector :=
  if collector.canOpen then .ok collector.push else .error .stackOverflow

/-- Makes the current frame the owner of an allocation. -/
def register (collector : Collector) (heap : Arena) (handle : Handle) : Collector :=
  collector.modifyCurrent (·.own heap handle)

/-- Drops an allocation that was freed from the current frame. The entries of
other frames stay until they are taken out as dead ones. -/
def forget (collector : Collector) (handle : Handle) : Collector :=
  collector.modifyCurrent (·.forget handle)

def addTrace (collector : Collector) (heap : Arena) (handle : Handle) : Collector :=
  collector.modifyCurrent (·.trace heap handle)

/-- Keeps a live allocation, of whatever frame, beyond the current frame. -/
def trace (collector : Collector) (heap : Arena) (handle : Handle) : Except Fault Collector :=
  if heap.contains handle then .ok (collector.addTrace heap handle) else .error .internal

/-- Drops one trace of the current frame; says whether there was one. -/
def untrace (collector : Collector) (handle : Handle) : Bool × Collector :=
  (collector.current.isTracing handle, collector.modifyCurrent (·.untrace handle))

/-- Drops every frame and every entry. -/
def reset (collector : Collector) : Collector :=
  { collector with root := {}, frames := #[] }

end Collector

end RegisterMachine

-- Two heaps that differ in the names of their handles. One of them begins without slots and
-- the other with some empty slots of earlier use; a renaming says which slot of the second
-- stands for which slot of the first, made or yet to be made. Every operation keeps the two
-- in step.
import Mathlib.Data.Fintype.EquivFin
import RegisterMachine.Proofs.Renamings
import RegisterMachine.Proofs.Sweep

namespace RegisterMachine

/-! ## Limits -/

namespace Arena

/-- The most live allocations, and the most released ones in the pool. -/
def limits (heap : Arena) : Nat × Nat := (heap.limit, heap.poolLimit)

theorem limits_insert (heap : Arena) (size : UInt16) (mode : TraceMode) :
    (heap.insert size mode).2.limits = heap.limits := by
  unfold insert place
  simp only
  split <;> rfl

theorem limits_erase (heap : Arena) (handle : Handle) :
    (heap.erase handle).limits = heap.limits := by
  unfold erase
  split <;> rfl

theorem limits_of_contents {heap heap' : Arena} (h : heap'.contents = heap.contents) :
    heap'.limits = heap.limits :=
  have hFields : heap'.contents.limits = heap.contents.limits := congrArg limits h
  hFields

theorem limits_mark (heap : Arena) (roots : List Handle) :
    (heap.mark roots).2.2.limits = heap.limits :=
  limits_of_contents (contents_mark heap roots)

/-! ## What an allocation takes -/

theorem ne_empty_of_back? {entries : Array UInt32} {i : UInt32} (h : entries.back? = some i) :
    entries ≠ #[] := by
  rintro rfl
  simp at h

section Insert

variable (heap : Arena) (size : UInt16) (mode : TraceMode)

theorem index_insert : (heap.insert size mode).1.index
    = heap.vacant.back?.getD (UInt32.ofNat heap.slots.size) := by
  unfold insert place
  simp only
  split
  · rename_i hBack
    rw [hBack]
    rfl
  · rename_i hBack
    rw [hBack]
    rfl

theorem pop_insert : (heap.insert size mode).2.vacant = heap.vacant.pop := by
  unfold insert place
  simp only
  split
  · rfl
  · rename_i hBack
    have hEmpty : heap.vacant = #[] := by simpa using hBack
    simp [hEmpty]

theorem size_insert : (heap.insert size mode).2.slots.size
    = if heap.vacant = #[] then heap.slots.size + 1 else heap.slots.size := by
  unfold insert place
  simp only
  split
  · rename_i hBack
    simp [ne_empty_of_back? hBack]
  · rename_i hBack
    have hEmpty : heap.vacant = #[] := by simpa using hBack
    simp [hEmpty]

theorem live_insert : (heap.insert size mode).2.live = heap.live + 1 := by
  unfold insert place
  simp only
  split <;> rfl

end Insert

end Arena

/-! ## Heaps in step -/

/-- The slots that the second heap begins with and the first has yet to make, when it has
made `made` slots; the next one stands last. -/
def Renaming.unmade (ρ : Renaming) (start made : Nat) : List UInt32 :=
  ((List.range' made (start - made)).map fun k => ρ.slot (UInt32.ofNat k)).reverse

/-- How the slot that stands for the slot `i` looks, when `i` looks as it does. -/
def Renaming.state (ρ : Renaming) (start : Nat) (i : UInt32) :
    Option (UInt32 × Bool) → Option (UInt32 × Bool)
  | some (generation, full) => some (generation + ρ.shift i, full)
  | none => if i.toNat < start then some (ρ.shift i, false) else none

namespace Arena

/-- What an array holds under the new names of handles, without its mark. -/
def renamed (ρ : Renaming) (alloc : Allocation) : Allocation := (ρ.allocation alloc).setMark 0

theorem capacity_renamed (ρ : Renaming) (alloc : Allocation) :
    (renamed ρ alloc).capacity = alloc.capacity := ρ.capacity_allocation alloc

/-- `other` is `heap` with other names, and began with `start` empty slots. -/
structure Renamed (ρ : Renaming) (start : Nat) (heap other : Arena) : Prop where
  sound : heap.Sound
  otherSound : other.Sound
  /-- Slots beyond those of the beginning have their old names. -/
  fixed : ∀ i : UInt32, start ≤ i.toNat → ρ.slot i = i ∧ ρ.shift i = 0
  states : ∀ i : UInt32, other.stateAt (ρ.slot i).toNat = ρ.state start i (heap.stateAt i.toNat)
  contents : ∀ h, other.contents.get? (ρ.handle h) = (heap.contents.get? h).map ρ.allocation
  vacant : other.vacant.toList
    = ρ.unmade start heap.slots.size ++ heap.vacant.toList.map ρ.slot
  size : other.slots.size = max start heap.slots.size
  live : other.live = heap.live
  pool : other.pool.map (·.setMark 0) = heap.pool.map (renamed ρ)
  limits : other.limits = heap.limits

theorem unmade_succ {ρ : Renaming} {start made : Nat} (h : made < start) :
    ρ.unmade start made = ρ.unmade start (made + 1) ++ [ρ.slot (UInt32.ofNat made)] := by
  unfold Renaming.unmade
  have hRange : List.range' made (start - made)
      = made :: List.range' (made + 1) (start - (made + 1)) := by
    rw [← List.range'_succ]
    congr 1
    omega
  rw [hRange, List.map_cons, List.reverse_cons]

theorem unmade_of_le {ρ : Renaming} {start made : Nat} (h : start ≤ made) :
    ρ.unmade start made = [] := by
  simp [Renaming.unmade, Nat.sub_eq_zero_of_le h]

namespace Renamed

variable {ρ : Renaming} {start : Nat} {heap other : Arena} (h : Renamed ρ start heap other)

include h

/-! ## Looking at the heaps -/

/-- What a handle and its new name stand for: nothing, or allocations that differ in the names
of handles and in their marks. -/
theorem get?_cases (x : Handle) :
    heap.get? x = none ∧ other.get? (ρ.handle x) = none ∨
    ∃ alloc mark, heap.get? x = some alloc ∧
      other.get? (ρ.handle x) = some ((ρ.allocation alloc).setMark mark) := by
  have hSame := h.contents x
  rw [get?_contents, get?_contents] at hSame
  rcases hGet : heap.get? x with _ | alloc
  · rw [hGet] at hSame
    exact Or.inl ⟨rfl, by simpa using hSame⟩
  · rw [hGet] at hSame
    obtain ⟨alloc', hGet', hEq⟩ := Option.map_eq_some_iff.1 hSame
    refine Or.inr ⟨alloc, alloc'.mark, rfl, ?_⟩
    have hAlloc : alloc' = (alloc'.setMark 0).setMark alloc'.mark := rfl
    rw [hGet', hAlloc, hEq]
    rfl

theorem contains (x : Handle) : other.contains (ρ.handle x) = heap.contains x := by
  unfold Arena.contains
  rcases h.get?_cases x with ⟨hGet, hGet'⟩ | ⟨alloc, mark, hGet, hGet'⟩ <;> simp [hGet, hGet']

/-- What is read from an allocation alike under both names is read alike from the heaps. -/
theorem get_bind {α β : Type} {read : Allocation → Except Fault α}
    {read' : Allocation → Except Fault β} {rename : α → β}
    (hRead : ∀ alloc mark, read' ((ρ.allocation alloc).setMark mark) = (read alloc).map rename)
    (x : Handle) : (other.get (ρ.handle x) >>= read') = (heap.get x >>= read).map rename := by
  unfold Arena.get
  rcases h.get?_cases x with ⟨hGet, hGet'⟩ | ⟨alloc, mark, hGet, hGet'⟩
  · rw [hGet, hGet']
    rfl
  · rw [hGet, hGet']
    exact hRead alloc mark

theorem load (x : Handle) (index : Int64) :
    other.load (ρ.handle x) index = (heap.load x index).map ρ.value :=
  h.get_bind (fun alloc _ => ρ.load_allocation alloc index) x

theorem loadUnchecked (x : Handle) (index : Nat) :
    other.loadUnchecked (ρ.handle x) index = (heap.loadUnchecked x index).map ρ.value :=
  h.get_bind (fun alloc _ => ρ.loadUnchecked_allocation alloc index) x

theorem position (x : Handle) (index : Int64) :
    other.position (ρ.handle x) index = (heap.position x index).map id := by
  refine h.get_bind (fun alloc mark => ?_) x
  rw [Except.map_id]
  rfl

theorem positionUnchecked (x : Handle) (index : Nat) :
    other.positionUnchecked (ρ.handle x) index = (heap.positionUnchecked x index).map id := by
  refine h.get_bind (fun alloc mark => ?_) x
  rw [Except.map_id]
  exact ρ.positionUnchecked_allocation alloc index

theorem isFull : other.isFull = heap.isFull := by
  have hLimit : other.limit = heap.limit := congrArg Prod.fst h.limits
  have hSize := h.size
  have hVacant := h.vacant
  unfold Arena.isFull
  rw [hLimit, h.live]
  congr 1
  by_cases hMade : heap.slots.size < start
  · -- A slot is waiting in the other heap, and can still be made in this one.
    have hStart := h.otherSound.size_le
    have hOther : other.vacant.isEmpty = false := by
      rw [unmade_succ hMade] at hVacant
      simp [← Array.isEmpty_toList, hVacant]
    have hRoom : ¬ UInt32.size ≤ heap.slots.size := by
      simp only [UInt32.size]
      omega
    simp [hOther, hRoom]
  · have hOther : other.vacant.isEmpty = heap.vacant.isEmpty := by
      rw [unmade_of_le (Nat.le_of_not_lt hMade)] at hVacant
      rw [← Array.isEmpty_toList, ← Array.isEmpty_toList, hVacant]
      simp
    have hSame : other.slots.size = heap.slots.size := by omega
    rw [hOther, hSame]

/-! ## Changes of one slot -/

section Change

variable {heap' other' : Arena} {x : Handle}

/-- A slot and the slot that stands for it change alike, and no other slot changes. -/
theorem states_of_change {state state' : Option (UInt32 × Bool)}
    (hHeap : ∀ i, heap'.stateAt i = if x.index.toNat = i then state else heap.stateAt i)
    (hOther : ∀ i, other'.stateAt i
      = if (ρ.handle x).index.toNat = i then state' else other.stateAt i)
    (hState : state' = ρ.state start x.index state) (i : UInt32) :
    other'.stateAt (ρ.slot i).toNat = ρ.state start i (heap'.stateAt i.toNat) := by
  rw [hHeap, hOther]
  by_cases hi : x.index = i
  · subst hi
    have hSlot : (ρ.handle x).index = ρ.slot x.index := rfl
    rw [hSlot, if_pos rfl, if_pos rfl]
    exact hState
  · have hOld : ¬ x.index.toNat = i.toNat := fun hNat => hi (UInt32.toNat_inj.1 hNat)
    have hNew : ¬ (ρ.handle x).index.toNat = (ρ.slot i).toNat :=
      fun hNat => hi (ρ.slot.injective (UInt32.toNat_inj.1 hNat))
    rw [if_neg hOld, if_neg hNew]
    exact h.states i

/-- A handle and its new name come to stand for the same, and no other handle changes. -/
theorem contents_of_change {content content' : Option Allocation}
    (hHeap : ∀ y, heap'.get? y = if y = x then content else heap.get? y)
    (hOther : ∀ y, other'.get? y = if y = ρ.handle x then content' else other.get? y)
    (hContent : content'.map (·.setMark 0)
      = (content.map (·.setMark 0)).map ρ.allocation) (y : Handle) :
    other'.contents.get? (ρ.handle y) = (heap'.contents.get? y).map ρ.allocation := by
  rw [get?_contents, get?_contents, hHeap, hOther]
  by_cases hy : y = x
  · rw [if_pos hy, if_pos (congrArg ρ.handle hy)]
    exact hContent
  · rw [if_neg hy, if_neg (hy ∘ ρ.handle_inj.1), ← get?_contents, ← get?_contents]
    exact h.contents y

end Change

/-! ## Allocation -/

/-- Which slots the two heaps take next: vacated ones, or a new one here for one of the
beginning there, or new ones. -/
theorem next_cases :
    (∃ i, heap.vacant.back? = some i ∧ other.vacant.back? = some (ρ.slot i) ∧
      other.vacant.pop.toList
        = ρ.unmade start heap.slots.size ++ heap.vacant.pop.toList.map ρ.slot) ∨
    (heap.vacant = #[] ∧ heap.slots.size < start ∧
      other.vacant.back? = some (ρ.slot (UInt32.ofNat heap.slots.size)) ∧
      other.vacant.pop.toList = ρ.unmade start (heap.slots.size + 1)) ∨
    heap.vacant = #[] ∧ start ≤ heap.slots.size ∧ other.vacant = #[] := by
  have hVacant := h.vacant
  -- The last entry of the other list, and the entries before it.
  have hLast : ∀ {entries : List UInt32} {i : UInt32}, other.vacant.toList = entries ++ [i] →
      other.vacant.back? = some i ∧ other.vacant.pop.toList = entries := by
    intro entries i hEntries
    rw [Array.toList_pop, hEntries, ← Array.getLast?_toList, hEntries]
    simp
  rcases hBack : heap.vacant.back? with _ | i
  · have hEmpty : heap.vacant = #[] := by simpa using hBack
    rw [hEmpty] at hVacant
    right
    by_cases hMade : heap.slots.size < start
    · rw [unmade_succ hMade] at hVacant
      exact Or.inl ⟨hEmpty, hMade, hLast (by simpa using hVacant)⟩
    · rw [unmade_of_le (Nat.le_of_not_lt hMade)] at hVacant
      exact Or.inr ⟨hEmpty, Nat.le_of_not_lt hMade, by simpa using hVacant⟩
  · have hSplit : heap.vacant.toList = heap.vacant.pop.toList ++ [i] := by
      rw [Array.toList_pop]
      exact (List.dropLast_append_getLast? i (by simpa using hBack)).symm
    rw [hSplit, List.map_append, ← List.append_assoc] at hVacant
    exact Or.inl ⟨i, rfl, hLast hVacant⟩

section Insert

variable (size : UInt16) (mode : TraceMode)

theorem vacant_insert : (other.insert size mode).2.vacant.toList
    = ρ.unmade start (heap.insert size mode).2.slots.size
      ++ (heap.insert size mode).2.vacant.toList.map ρ.slot := by
  rw [pop_insert, pop_insert, Arena.size_insert]
  rcases h.next_cases with ⟨i, hBack, -, hPop⟩ | ⟨hEmpty, -, -, hPop⟩ | ⟨hEmpty, hMade, hOther⟩
  · rw [if_neg (ne_empty_of_back? hBack)]
    exact hPop
  · rw [if_pos hEmpty, hEmpty, hPop]
    simp
  · rw [if_pos hEmpty, hEmpty, hOther, unmade_of_le (by omega)]
    simp

theorem size_insert : (other.insert size mode).2.slots.size
    = max start (heap.insert size mode).2.slots.size := by
  have hSize := h.size
  rw [Arena.size_insert, Arena.size_insert]
  rcases h.next_cases with ⟨i, hBack, hOther, -⟩ | ⟨hEmpty, hMade, hOther, -⟩ |
    ⟨hEmpty, hMade, hOther⟩
  · rw [if_neg (ne_empty_of_back? hBack), if_neg (ne_empty_of_back? hOther)]
    exact hSize
  · rw [if_pos hEmpty, if_neg (ne_empty_of_back? hOther)]
    omega
  · rw [if_pos hEmpty, if_pos hOther]
    omega

variable (hFull : heap.isFull = false)

include hFull

/-- The other heap takes the slot that stands for the one that is taken here. -/
theorem slot_insert :
    (other.insert size mode).1.index = ρ.slot (heap.insert size mode).1.index := by
  rw [Arena.index_insert, Arena.index_insert]
  rcases h.next_cases with ⟨i, hBack, hOther, -⟩ | ⟨hEmpty, -, hOther, -⟩ |
    ⟨hEmpty, hMade, hOther⟩
  · rw [hBack, hOther]
    rfl
  · rw [hEmpty, hOther]
    rfl
  · have hRoom : heap.slots.size < 2 ^ 32 := by
      simp only [Arena.isFull, hEmpty, Array.isEmpty_empty, Bool.true_and, Bool.or_eq_false_iff,
        decide_eq_false_iff_not, Nat.not_le] at hFull
      exact hFull.2
    have hNat : (UInt32.ofNat heap.slots.size).toNat = heap.slots.size :=
      UInt32.toNat_ofNat_of_lt' hRoom
    have hSize := h.size
    rw [hEmpty, hOther, hSize, Nat.max_eq_right hMade]
    exact (h.fixed (UInt32.ofNat heap.slots.size) (by rw [hNat]; exact hMade)).1.symm

/-- The two heaps give out a handle and its new name. -/
theorem handle_insert : (other.insert size mode).1 = ρ.handle (heap.insert size mode).1 := by
  have hIndex := h.slot_insert size mode hFull
  have hVacancy := vacancy_insert h.sound hFull size mode
  have hOther := vacancy_insert h.otherSound (h.isFull.trans hFull) size mode
  have hState := h.states (heap.insert size mode).1.index
  unfold Vacancy at hOther
  rw [hIndex, hState] at hOther
  refine handle_eq (by rw [hIndex]; rfl) ?_
  change _ = (heap.insert size mode).1.generation + ρ.shift (heap.insert size mode).1.index
  rcases hVacancy with hEmpty | ⟨hNone, hZero⟩
  · rw [hEmpty] at hOther
    simpa [Renaming.state, eq_comm] using hOther
  · rw [hNone] at hOther
    rw [hZero]
    by_cases hStart : (heap.insert size mode).1.index.toNat < start
    · simpa [Renaming.state, hStart, eq_comm] using hOther
    · have hShift := (h.fixed _ (Nat.le_of_not_lt hStart)).2
      simpa [Renaming.state, hStart, hShift] using hOther

theorem insert : Renamed ρ start (heap.insert size mode).2 (other.insert size mode).2 := by
  have hFull' : other.isFull = false := h.isFull.trans hFull
  have hHandle := h.handle_insert size mode hFull
  have hPool : takeReleased (other.pool.map (·.setMark 0)) size.toNat =
      takeReleased (heap.pool.map (renamed ρ)) size.toNat := by rw [h.pool]
  have hNew : other.newAllocation size mode = heap.newAllocation size mode := by
    rw [newAllocation_eq h.otherSound, newAllocation_eq h.sound,
      ← suppliedCapacity_map (fun alloc => alloc.capacity_setMark 0), h.pool,
      suppliedCapacity_map (capacity_renamed ρ)]
  refine ⟨sound_insert h.sound hFull size mode, sound_insert h.otherSound hFull' size mode,
    h.fixed, ?_, ?_, ?_, ?_, ?_, ?_, ?_⟩
  · have hState := stateAt_insert h.otherSound hFull' size mode
    rw [hHandle] at hState
    exact h.states_of_change (stateAt_insert h.sound hFull size mode) hState rfl
  · have hGet := get?_insert h.otherSound hFull' size mode
    rw [hHandle, hNew] at hGet
    refine h.contents_of_change (get?_insert h.sound hFull size mode) hGet ?_
    rw [newAllocation_eq h.sound]
    exact congrArg some (ρ.allocation_fresh _ _ mode).symm
  · exact h.vacant_insert size mode
  · exact h.size_insert size mode
  · rw [live_insert, live_insert, h.live]
  · rw [takeReleased_map (fun alloc => alloc.capacity_setMark 0),
      takeReleased_map (capacity_renamed ρ)] at hPool
    rw [pool_insert, pool_insert]
    exact congrArg Prod.snd hPool
  · rw [limits_insert, limits_insert, h.limits]

end Insert

/-! ## Release and change -/

theorem erase (x : Handle) : Renamed ρ start (heap.erase x) (other.erase (ρ.handle x)) := by
  rcases h.get?_cases x with ⟨hGet, hGet'⟩ | ⟨alloc, mark, hGet, hGet'⟩
  · rw [erase_of_stale hGet, erase_of_stale hGet']
    exact h
  · have hPoolSize : other.pool.size = heap.pool.size := by
      simpa using congrArg Array.size h.pool
    have hPoolLimit : other.poolLimit = heap.poolLimit := congrArg Prod.snd h.limits
    refine ⟨sound_erase h.sound x, sound_erase h.otherSound _, h.fixed, ?_, ?_, ?_, ?_, ?_, ?_, ?_⟩
    · refine h.states_of_change (stateAt_erase hGet) (stateAt_erase hGet') ?_
      have hNext : x.generation + ρ.shift x.index + 1 = x.generation + 1 + ρ.shift x.index := by
        rw [UInt32.add_assoc, UInt32.add_comm (ρ.shift x.index), ← UInt32.add_assoc]
      exact congrArg (fun generation => some (generation, false)) hNext
    · exact h.contents_of_change (get?_erase heap x) (get?_erase other _) rfl
    · have hVacant := h.vacant
      unfold Arena.erase
      rw [hGet, hGet']
      simp [hVacant, Renaming.handle]
    · have hSize := h.size
      unfold Arena.erase
      rw [hGet, hGet']
      simpa using hSize
    · unfold Arena.erase
      rw [hGet, hGet']
      simp only [h.live]
    · rw [pool_erase hGet, pool_erase hGet', hPoolSize, hPoolLimit]
      split
      · rw [Array.map_push, Array.map_push, h.pool]
        rfl
      · exact h.pool
    · rw [limits_erase, limits_erase, h.limits]

/-- Changes that agree up to names and marks keep the heaps in step. -/
theorem modify {x : Handle} {change change' : Allocation → Allocation}
    (hSound : (heap.modify x change).Sound) (hSound' : (other.modify (ρ.handle x) change').Sound)
    (hChange : ∀ alloc mark, (change' ((ρ.allocation alloc).setMark mark)).setMark 0
      = ρ.allocation ((change alloc).setMark 0)) :
    Renamed ρ start (heap.modify x change) (other.modify (ρ.handle x) change') := by
  refine ⟨hSound, hSound', h.fixed, ?_, ?_, ?_, ?_, h.live, h.pool, h.limits⟩
  · intro i
    rw [stateAt_modify, stateAt_modify]
    exact h.states i
  · refine h.contents_of_change (get?_modify heap x · change) (get?_modify other _ · change') ?_
    rcases h.get?_cases x with ⟨hGet, hGet'⟩ | ⟨alloc, mark, hGet, hGet'⟩
    · rw [hGet, hGet']
      rfl
    · rw [hGet, hGet']
      exact congrArg some (hChange alloc mark)
  · have hVacant := h.vacant
    unfold Arena.modify
    simpa using hVacant
  · have hSize := h.size
    unfold Arena.modify
    simpa using hSize

theorem write (x : Handle) (position : Nat) (v : Value) :
    Renamed ρ start (heap.write x position v)
      (other.write (ρ.handle x) position (ρ.value v)) := by
  refine h.modify (sound_write h.sound x position v) (sound_write h.otherSound _ _ _) ?_
  intro alloc mark
  exact congrArg (·.setMark 0) (ρ.allocation_write alloc position v).symm

theorem setFlag (x : Handle) (position : Nat) (flagged : Bool) :
    Renamed ρ start (heap.modify x (·.setFlag position flagged))
      (other.modify (ρ.handle x) (·.setFlag position flagged)) := by
  refine h.modify (sound_setFlag h.sound x position flagged) (sound_setFlag h.otherSound _ _ _) ?_
  intro alloc mark
  exact congrArg (·.setMark 0) (ρ.allocation_setFlag alloc position flagged).symm

theorem setMode (x : Handle) (mode : TraceMode) :
    Renamed ρ start (heap.modify x (·.setMode mode))
      (other.modify (ρ.handle x) (·.setMode mode)) := by
  refine h.modify (sound_setMode h.sound x mode) (sound_setMode h.otherSound _ _) ?_
  intro alloc mark
  rfl

/-! ## Marking -/

/-- The marks of a heap play no part. -/
theorem of_contents {heap' other' : Arena} (hHeap : heap'.contents = heap.contents)
    (hOther : other'.contents = other.contents) (hSound : heap'.Sound) (hSound' : other'.Sound) :
    Renamed ρ start heap' other' := by
  have hFields : ∀ {first second : Arena}, second.contents = first.contents →
      second.vacant = first.vacant ∧ second.slots.size = first.slots.size ∧
        second.live = first.live := by
    intro first second hSame
    have hVacant : second.contents.vacant = first.contents.vacant := by rw [hSame]
    have hSlots : second.contents.slots.size = first.contents.slots.size := by rw [hSame]
    have hLive : second.contents.live = first.contents.live := by rw [hSame]
    exact ⟨hVacant, by simpa [Arena.contents, eraseMarks] using hSlots, hLive⟩
  obtain ⟨hVacant, hSize, hLive⟩ := hFields hHeap
  obtain ⟨hVacant', hSize', hLive'⟩ := hFields hOther
  refine ⟨hSound, hSound', h.fixed, ?_, ?_, ?_, ?_, ?_, ?_, ?_⟩
  · intro i
    rw [stateAt_of_contents hHeap, stateAt_of_contents hOther]
    exact h.states i
  · intro x
    rw [hHeap, hOther]
    exact h.contents x
  · rw [hVacant', hVacant, hSize]
    exact h.vacant
  · rw [hSize', hSize]
    exact h.size
  · rw [hLive', hLive, h.live]
  · rw [pool_of_contents hHeap, pool_of_contents hOther, h.pool]
  · rw [limits_of_contents hHeap, limits_of_contents hOther, h.limits]

theorem reaches_of_reaches {roots : List Handle} {x : Handle} (hReach : heap.Reaches roots x) :
    other.Reaches (roots.map ρ.handle) (ρ.handle x) := by
  induction hReach with
  | root hMem hLive => exact .root (List.mem_map_of_mem hMem) ((h.contains _).trans hLive)
  | @step parent child alloc _ hGet hLeads hLive ih =>
    rcases h.get?_cases parent with ⟨hNone, -⟩ | ⟨alloc', mark, hSome, hGet'⟩
    · rw [hGet] at hNone
      cases hNone
    · rw [hGet] at hSome
      cases hSome
      have hLeads' := (ρ.leads_allocation alloc).2 hLeads
      exact .step ih hGet' hLeads' ((h.contains child).trans hLive)

theorem reaches_iff {roots : List Handle} {x : Handle} :
    other.Reaches (roots.map ρ.handle) (ρ.handle x) ↔ heap.Reaches roots x := by
  refine ⟨fun hReach => ?_, h.reaches_of_reaches⟩
  generalize hName : ρ.handle x = y at hReach
  induction hReach generalizing x with
  | root hMem hLive =>
    subst hName
    obtain ⟨root, hRoot, hSame⟩ := List.mem_map.1 hMem
    rw [ρ.handle_inj] at hSame
    subst hSame
    exact .root hRoot ((h.contains root).symm.trans hLive)
  | @step parent child alloc _ hGet hLeads hLive ih =>
    subst hName
    obtain ⟨parent, rfl⟩ := ρ.handle_surjective parent
    rcases h.get?_cases parent with ⟨-, hNone⟩ | ⟨alloc', mark, hGet', hSome⟩
    · rw [hGet] at hNone
      cases hNone
    · rw [hGet] at hSome
      cases hSome
      have hLeads' := (ρ.leads_allocation alloc').1 hLeads
      exact .step (ih rfl) hGet' hLeads' ((h.contains x).symm.trans hLive)

theorem mark (roots : List Handle) :
    Renamed ρ start (heap.mark roots).2.2 (other.mark (roots.map ρ.handle)).2.2 :=
  h.of_contents (contents_mark heap roots) (contents_mark other _) (sound_mark h.sound roots)
    (sound_mark h.otherSound _)

/-- Marking passes from the same roots reach the same allocations. -/
theorem isMarked_mark (roots : List Handle) (x : Handle) :
    (other.mark (roots.map ρ.handle)).2.2.isMarked (ρ.handle x)
        (other.mark (roots.map ρ.handle)).1
      = (heap.mark roots).2.2.isMarked x (heap.mark roots).1 := by
  rw [Bool.eq_iff_iff, Arena.isMarked_mark h.sound, Arena.isMarked_mark h.otherSound]
  exact h.reaches_iff

end Renamed

/-! ## The beginning -/

section Beginning

variable {heap : Arena} (hs : heap.Sound)
  (hEmpty : ∀ i g, heap.stateAt i ≠ some (g, true))

include hs hEmpty

/-- In an empty heap every slot is vacant. -/
theorem mem_vacant_of_empty (i : UInt32) : i ∈ heap.vacant ↔ i.toNat < heap.slots.size := by
  rw [hs.mem_vacant, ← stateAt_isSome]
  rcases hState : heap.stateAt i.toNat with _ | ⟨g, _ | _⟩
  · simp
  · simp
  · exact absurd hState (hEmpty _ g)

theorem length_vacant_of_empty : heap.vacant.toList.reverse.length = heap.slots.size := by
  have hPerm : heap.vacant.toList.Perm ((List.range heap.slots.size).map UInt32.ofNat) := by
    rw [List.perm_ext_iff_of_nodup hs.vacant_nodup ?_]
    · intro i
      rw [Array.mem_toList_iff, mem_vacant_of_empty hs hEmpty, List.mem_map]
      constructor
      · intro hi
        exact ⟨i.toNat, List.mem_range.2 hi, UInt32.ofNat_toNat⟩
      · rintro ⟨k, hk, rfl⟩
        have hlt := List.mem_range.1 hk
        rw [UInt32.toNat_ofNat_of_lt' (Nat.lt_of_lt_of_le hlt hs.size_le)]
        exact hlt
    · refine List.Nodup.map_on ?_ List.nodup_range
      intro i hi j hj hij
      have hi' := Nat.lt_of_lt_of_le (List.mem_range.1 hi) hs.size_le
      have hj' := Nat.lt_of_lt_of_le (List.mem_range.1 hj) hs.size_le
      rw [← UInt32.toNat_ofNat_of_lt' hi', ← UInt32.toNat_ofNat_of_lt' hj', hij]
  simpa using hPerm.length_eq

/-- The slot that is used when a heap without slots makes its slot `i`. -/
def stand (heap : Arena) (i : UInt32) : UInt32 := heap.vacant.toList.reverse[i.toNat]?.getD i

theorem getElem?_stand {i : UInt32} (hi : i.toNat < heap.slots.size) :
    heap.vacant.toList.reverse[i.toNat]? = some (heap.stand i) := by
  have hLength : i.toNat < heap.vacant.toList.reverse.length := by
    rw [length_vacant_of_empty hs hEmpty]
    exact hi
  unfold stand
  rw [List.getElem?_eq_getElem hLength]
  rfl

theorem stand_lt {i : UInt32} (hi : i.toNat < heap.slots.size) :
    (heap.stand i).toNat < heap.slots.size := by
  have hMem := List.mem_of_getElem? (getElem?_stand hs hEmpty hi)
  rw [List.mem_reverse, Array.mem_toList_iff] at hMem
  exact (mem_vacant_of_empty hs hEmpty _).1 hMem

theorem stand_of_le {i : UInt32} (hi : heap.slots.size ≤ i.toNat) : heap.stand i = i := by
  have hLength : heap.vacant.toList.reverse.length ≤ i.toNat := by
    rw [length_vacant_of_empty hs hEmpty]
    exact hi
  unfold stand
  rw [List.getElem?_eq_none hLength]
  rfl

theorem stand_injective : Function.Injective heap.stand := by
  intro i j hij
  by_cases hi : i.toNat < heap.slots.size <;> by_cases hj : j.toNat < heap.slots.size
  · have hI := getElem?_stand hs hEmpty hi
    have hJ := getElem?_stand hs hEmpty hj
    rw [← hij, ← hI] at hJ
    have hLength : j.toNat < heap.vacant.toList.reverse.length := by
      rw [length_vacant_of_empty hs hEmpty]
      exact hj
    have hNat := (List.getElem?_inj hLength (List.nodup_reverse.2 hs.vacant_nodup)).1 hJ
    exact (UInt32.toNat_inj.1 hNat).symm
  · have hlt := stand_lt hs hEmpty hi
    rw [hij, stand_of_le hs hEmpty (Nat.le_of_not_lt hj)] at hlt
    exact absurd hlt hj
  · have hlt := stand_lt hs hEmpty hj
    rw [← hij, stand_of_le hs hEmpty (Nat.le_of_not_lt hi)] at hlt
    exact absurd hlt hi
  · rw [stand_of_le hs hEmpty (Nat.le_of_not_lt hi), stand_of_le hs hEmpty (Nat.le_of_not_lt hj)]
      at hij
    exact hij

/-- The slots are used in the order in which a heap without slots makes its own. -/
theorem reverse_vacant_of_empty : heap.vacant.toList.reverse
    = (List.range' 0 heap.slots.size).map fun k => heap.stand (UInt32.ofNat k) := by
  apply List.ext_getElem?
  intro k
  rw [List.getElem?_map]
  by_cases hk : k < heap.slots.size
  · have hNat : (UInt32.ofNat k).toNat = k :=
      UInt32.toNat_ofNat_of_lt' (Nat.lt_of_lt_of_le hk hs.size_le)
    have hStand := @getElem?_stand _ hs hEmpty (UInt32.ofNat k) (by rw [hNat]; exact hk)
    rw [hNat] at hStand
    simp [hStand, hk]
  · have hLength : heap.vacant.toList.reverse.length ≤ k := by
      rw [length_vacant_of_empty hs hEmpty]
      exact Nat.le_of_not_lt hk
    rw [List.getElem?_eq_none hLength]
    simp [hk]

/-- An empty heap with slots of earlier use is a heap without slots, with other names. -/
theorem renamed_of_empty (hLive : heap.live = 0) (hPool : heap.pool = #[]) :
    ∃ ρ, Renamed ρ heap.slots.size { limit := heap.limit, poolLimit := heap.poolLimit } heap := by
  have hFinite : Finite UInt32 := Finite.of_injective UInt32.toFin fun _ _ => UInt32.toFin_inj.1
  have hBijective := Finite.injective_iff_bijective.1 (stand_injective hs hEmpty)
  let ρ : Renaming :=
    ⟨Equiv.ofBijective heap.stand hBijective, fun i => heap.generationAt (heap.stand i).toNat⟩
  have hNone : ∀ i : UInt32, heap.slots.size ≤ i.toNat → heap.stateAt i.toNat = none := by
    intro i hi
    rw [← Option.not_isSome_iff_eq_none, stateAt_isSome]
    omega
  refine ⟨ρ, sound_empty _ _, hs, ?_, ?_, ?_, ?_, ?_, hLive, by simp [hPool], rfl⟩
  · intro i hi
    have hStand : heap.stand i = i := stand_of_le hs hEmpty hi
    refine ⟨hStand, ?_⟩
    change heap.generationAt (heap.stand i).toNat = 0
    simp [generationAt, hStand, hNone i hi]
  · intro i
    change heap.stateAt (heap.stand i).toNat = ρ.state heap.slots.size i none
    by_cases hi : i.toNat < heap.slots.size
    · have hMem := (mem_vacant_of_empty hs hEmpty _).2 (stand_lt hs hEmpty hi)
      obtain ⟨g, hState⟩ := (hs.mem_vacant _).1 hMem
      have hShift : ρ.shift i = g := by
        change heap.generationAt (heap.stand i).toNat = g
        simp [generationAt, hState]
      simp [Renaming.state, hi, hShift, hState]
    · have hle := Nat.le_of_not_lt hi
      simp [Renaming.state, hi, stand_of_le hs hEmpty hle, hNone i hle]
  · intro x
    have hStale : heap.get? (ρ.handle x) = none := by
      rw [← contains_eq_false, ← Bool.not_eq_true, contains_iff_stateAt]
      exact hEmpty _ _
    rw [get?_contents, get?_contents, hStale]
    rfl
  · have hUnmade : ρ.unmade heap.slots.size 0 = heap.vacant.toList := by
      rw [← heap.vacant.toList.reverse_reverse, reverse_vacant_of_empty hs hEmpty]
      rfl
    simpa using hUnmade.symm
  · simp

end Beginning

end Arena

end RegisterMachine

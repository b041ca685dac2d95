-- The lifetimes of handles. A release moves a slot to its next generation, so
-- as long as no slot starts its generations again, the handles that were given
-- out are the ones at or below the generations of their slots, and a new
-- allocation gets a handle that no earlier one had.
import RegisterMachine.Proofs.Reachability

namespace RegisterMachine.Arena

/-! ## Generations and releases -/

/-- The generation of a slot; a slot that is yet to be made has the first one. -/
def generationAt (heap : Arena) (slot : Nat) : UInt32 :=
  ((heap.stateAt slot).map Prod.fst).getD 0

/-- How often a slot was released between two states of the arena, of which the
later one comes from the earlier one by a single step. -/
def releasesBetween (before after : Arena) (slot : Nat) : Nat :=
  if after.generationAt slot = before.generationAt slot then 0 else 1

/-- How often a slot was released along a run. -/
def releases : List Arena → Nat → Nat
  | before :: after :: rest, slot =>
    releasesBetween before after slot + releases (after :: rest) slot
  | _, _ => 0

/-- A slot is released at most once in a step. -/
theorem releases_le_length (heaps : List Arena) (slot : Nat) :
    releases heaps slot ≤ heaps.length := by
  induction heaps with
  | nil => exact Nat.le_refl 0
  | cons before rest ih =>
    rcases rest with _ | ⟨after, rest⟩
    · exact Nat.zero_le _
    · have hStep : releasesBetween before after slot ≤ 1 := by
        unfold releasesBetween
        split <;> omega
      rw [releases, List.length_cons]
      omega

/-- A step moves each slot on by one generation at most. -/
def Ages (before after : Arena) : Prop :=
  ∀ slot, after.generationAt slot = before.generationAt slot ∨
    after.generationAt slot = before.generationAt slot + 1

/-- A step takes no slot back to an earlier generation. -/
def Steady (before after : Arena) : Prop :=
  ∀ slot, before.generationAt slot ≤ after.generationAt slot

theorem generationAt_of_stateAt {before after : Arena} {slot : Nat}
    (h : after.stateAt slot = before.stateAt slot) :
    after.generationAt slot = before.generationAt slot := by
  unfold generationAt
  rw [h]

/-- The generation of a slot counts its releases. -/
theorem Ages.generationAt_eq {before after : Arena} (h : Ages before after) (slot : Nat) :
    after.generationAt slot =
      before.generationAt slot + UInt32.ofNat (releasesBetween before after slot) := by
  unfold releasesBetween
  split
  · rename_i hSame
    rw [hSame]
    simp
  · rename_i hNew
    rcases h slot with hOld | hNext
    · exact absurd hOld hNew
    · exact hNext

/-- A run in which no slot is released `2 ^ 32` times takes no slot back. `count`
is what was released before the run. -/
theorem isChain_steady {count : Nat → Nat} {first : Arena} {rest : List Arena}
    (hAges : (first :: rest).IsChain Ages)
    (hFirst : ∀ slot, first.generationAt slot = UInt32.ofNat (count slot))
    (hCount : ∀ slot, count slot + releases (first :: rest) slot < 2 ^ 32) :
    (first :: rest).IsChain Steady := by
  induction rest generalizing first count with
  | nil => simp
  | cons next rest ih =>
    rw [List.isChain_cons_cons] at hAges ⊢
    obtain ⟨hStep, hRest⟩ := hAges
    have hNext : ∀ slot, next.generationAt slot =
        UInt32.ofNat (count slot + releasesBetween first next slot) := by
      intro slot
      rw [hStep.generationAt_eq slot, hFirst, UInt32.ofNat_add]
    refine ⟨?_, ih hRest hNext ?_⟩
    · intro slot
      have hBound := hCount slot
      have hSize : UInt32.size = 2 ^ 32 := rfl
      rw [releases] at hBound
      rw [hFirst, hNext, UInt32.le_iff_toNat_le, UInt32.toNat_ofNat_of_lt' (by omega),
        UInt32.toNat_ofNat_of_lt' (by omega)]
      exact Nat.le_add_right _ _
    · intro slot
      have hBound := hCount slot
      rw [releases] at hBound
      omega

/-! ## Steps that only release -/

/-- Each slot keeps its state, or its allocation is released. -/
def Sheds (before after : Arena) : Prop :=
  ∀ i, after.stateAt i = before.stateAt i ∨
    ∃ g, before.stateAt i = some (g, true) ∧ after.stateAt i = some (g + 1, false)

theorem sheds_of_stateAt {before after : Arena}
    (h : ∀ i, after.stateAt i = before.stateAt i) : Sheds before after :=
  fun i => Or.inl (h i)

theorem sheds_of_contents {before after : Arena} (h : after.contents = before.contents) :
    Sheds before after :=
  sheds_of_stateAt (stateAt_of_contents h)

/-- A slot that was released stays empty, so it is not released again. -/
theorem Sheds.trans {first second third : Arena} (h : Sheds first second)
    (h' : Sheds second third) : Sheds first third := by
  intro i
  rcases h i with hSame | ⟨g, hLive, hGone⟩
  · rcases h' i with hSame' | ⟨g, hLive, hGone⟩
    · exact Or.inl (hSame'.trans hSame)
    · exact Or.inr ⟨g, hSame ▸ hLive, hGone⟩
  · rcases h' i with hSame' | ⟨g', hLive', _⟩
    · exact Or.inr ⟨g, hLive, hSame'.trans hGone⟩
    · rw [hGone] at hLive'
      simp at hLive'

theorem sheds_erase (heap : Arena) (handle : Handle) : Sheds heap (heap.erase handle) := by
  rcases hGet : heap.get? handle with _ | alloc
  · rw [erase_of_stale hGet]
    exact sheds_of_stateAt fun _ => rfl
  · intro i
    rw [stateAt_erase hGet]
    by_cases hi : handle.index.toNat = i
    · rw [if_pos hi]
      have hLive := contains_iff_stateAt.1 (contains_eq_true.2 ⟨alloc, hGet⟩)
      exact Or.inr ⟨handle.generation, hi ▸ hLive, rfl⟩
    · rw [if_neg hi]
      exact Or.inl rfl

theorem sheds_clear (heap : Arena) : Sheds heap heap.clear.2 := by
  intro i
  rw [stateAt_clear]
  rcases heap.stateAt i with _ | ⟨g, _ | _⟩
  · exact Or.inl rfl
  · exact Or.inl rfl
  · exact Or.inr ⟨g, rfl, rfl⟩

theorem Sheds.ages {before after : Arena} (h : Sheds before after) : Ages before after := by
  intro slot
  rcases h slot with hSame | ⟨g, hLive, hGone⟩
  · exact Or.inl (generationAt_of_stateAt hSame)
  · right
    unfold generationAt
    rw [hLive, hGone]
    rfl

theorem Sheds.contains_of_contains {before after : Arena} (h : Sheds before after)
    {handle : Handle} (hLive : after.contains handle = true) : before.contains handle = true := by
  rw [contains_iff_stateAt] at hLive ⊢
  rcases h handle.index.toNat with hSame | ⟨g, _, hGone⟩
  · rw [← hSame, hLive]
  · rw [hGone] at hLive
    simp at hLive

/-- No slot is taken back halfway when none is taken back in the end. -/
theorem Sheds.steady {first second third : Arena} (h : Sheds first second)
    (h' : Sheds second third) (hSteady : Steady first third) :
    Steady first second ∧ Steady second third := by
  suffices hSlot : ∀ slot, first.generationAt slot ≤ second.generationAt slot ∧
      second.generationAt slot ≤ third.generationAt slot from
    ⟨fun slot => (hSlot slot).1, fun slot => (hSlot slot).2⟩
  intro slot
  have hle := hSteady slot
  rcases h slot with hSame | ⟨_, _, hGone⟩
  · rw [generationAt_of_stateAt hSame]
    exact ⟨UInt32.le_refl _, hle⟩
  · rcases h' slot with hSame | ⟨_, hLive, _⟩
    · rw [generationAt_of_stateAt hSame] at hle ⊢
      exact ⟨hle, UInt32.le_refl _⟩
    · rw [hGone] at hLive
      simp at hLive

/-! ## Handles that were given out -/

/-- The slot of the handle has left the generation of the handle, or holds its
allocation. -/
def Issued (heap : Arena) (handle : Handle) : Prop :=
  ∃ g occupied, heap.stateAt handle.index.toNat = some (g, occupied) ∧
    (handle.generation < g ∨ handle.generation = g ∧ occupied = true)

theorem issued_of_contains {heap : Arena} {handle : Handle} (h : heap.contains handle = true) :
    heap.Issued handle :=
  ⟨handle.generation, true, contains_iff_stateAt.1 h, Or.inr ⟨rfl, rfl⟩⟩

theorem Issued.of_sheds {before after : Arena} (h : Sheds before after)
    (hSteady : Steady before after) {handle : Handle} (hIssued : before.Issued handle) :
    after.Issued handle := by
  obtain ⟨g, occupied, hState, hGeneration⟩ := hIssued
  rcases h handle.index.toNat with hSame | ⟨g', hLive, hGone⟩
  · exact ⟨g, occupied, hSame.trans hState, hGeneration⟩
  · rw [hState, Option.some.injEq, Prod.mk.injEq] at hLive
    obtain ⟨rfl, rfl⟩ := hLive
    -- The next generation is a higher one, as the slot is not taken back.
    have hle := hSteady handle.index.toNat
    simp only [generationAt, hState, hGone, Option.map_some, Option.getD_some] at hle
    have hlt : g < g + 1 := by
      apply UInt32.lt_add_one
      rintro rfl
      exact absurd hle (by decide)
    refine ⟨g + 1, false, hGone, Or.inl ?_⟩
    rcases hGeneration with hOld | ⟨hOld, _⟩
    · exact UInt32.lt_trans hOld hlt
    · exact hOld ▸ hlt

section Insert

variable {heap : Arena} (hs : heap.Sound) (hFull : heap.isFull = false)
  (size : UInt16) (mode : TraceMode)

include hs hFull

theorem generationAt_insert (slot : Nat) :
    (heap.insert size mode).2.generationAt slot = heap.generationAt slot := by
  unfold generationAt
  rw [stateAt_insert hs hFull]
  split
  · rename_i hSlot
    subst hSlot
    rcases vacancy_insert hs hFull size mode with h | ⟨h, hZero⟩
    · rw [h]
      rfl
    · rw [h, hZero]
      rfl
  · rfl

/-- A new allocation gets a handle that was not given out before. -/
theorem not_issued_new : ¬ heap.Issued (heap.insert size mode).1 := by
  rintro ⟨g, occupied, hState, hGeneration⟩
  rcases vacancy_insert hs hFull size mode with h | ⟨h, _⟩
  · rw [h, Option.some.injEq, Prod.mk.injEq] at hState
    obtain ⟨rfl, rfl⟩ := hState
    rcases hGeneration with hlt | ⟨_, hFalse⟩
    · exact UInt32.lt_irrefl _ hlt
    · cases hFalse
  · rw [h] at hState
    cases hState

theorem issued_insert {handle : Handle} :
    (heap.insert size mode).2.Issued handle ↔
      heap.Issued handle ∨ handle = (heap.insert size mode).1 := by
  unfold Issued
  rw [stateAt_insert hs hFull]
  by_cases hIndex : (heap.insert size mode).1.index.toNat = handle.index.toNat
  · rw [if_pos hIndex, ← hIndex]
    have hNew : handle = (heap.insert size mode).1 ↔
        handle.generation = (heap.insert size mode).1.generation :=
      ⟨fun h => by rw [h], handle_eq hIndex.symm⟩
    rw [hNew]
    rcases vacancy_insert hs hFull size mode with h | ⟨h, hZero⟩
    · simp [h]
    · simp [h, hZero]
  · have hNe : handle ≠ (heap.insert size mode).1 := fun h => hIndex (by rw [h])
    simp [hIndex, hNe]

end Insert

end RegisterMachine.Arena

-- Scopes: what runs from the opening of a frame to its closing. However many frames
-- are opened and closed in between, nothing from outside the scope is released but
-- what is freed, and of what was made inside only that stays which the last traces reach.
import RegisterMachine.Proofs.MachineOwnership

namespace RegisterMachine

open RegisterMachine.Frame

/-- The frames above the first `depth` ones over the root. -/
def Collector.above (collector : Collector) (depth : Nat) : List Frame :=
  collector.stack.drop (depth + 1)

namespace Memory

/-! ## Inside a scope -/

/-- Where the allocations stand inside a scope that was opened at `depth`: those of `kept`
are live and belong to no frame of the scope, and a live one that is not of `old` belongs
to one of them. -/
structure Scoped (depth : Nat) (kept old : Handle → Prop) (memory : Memory) : Prop where
  kept : ∀ handle, kept handle → memory.heap.contains handle = true ∧
    handle ∉ ownedBy (memory.collector.above depth)
  made : ∀ handle, memory.heap.contains handle = true →
    old handle ∨ handle ∈ ownedBy (memory.collector.above depth)

section Steps

variable {depth : Nat} {kept old dropped : Handle → Prop} {before after : Memory}

/-- The innermost frames of the scope are replaced by one frame. -/
theorem Scoped.of_stack (h : Scoped depth kept old before) {lower tops : List Frame}
    {top : Frame} (hBefore : before.collector.stack = lower ++ tops)
    (hAfter : after.collector.stack = lower ++ [top]) (hDepth : depth < lower.length)
    (hKept : ∀ handle, kept handle → before.heap.contains handle = true →
      handle ∉ ownedBy tops → after.heap.contains handle = true ∧ handle ∉ top.owned.toList)
    (hMade : ∀ handle, after.heap.contains handle = true → handle ∉ top.owned.toList →
      before.heap.contains handle = true ∧ handle ∉ ownedBy tops) :
    Scoped depth kept old after := by
  have hOld : before.collector.above depth = lower.drop (depth + 1) ++ tops := by
    rw [Collector.above, hBefore, List.drop_append_of_le_length hDepth]
  have hNew : after.collector.above depth = lower.drop (depth + 1) ++ [top] := by
    rw [Collector.above, hAfter, List.drop_append_of_le_length hDepth]
  constructor
  · intro handle hHandle
    obtain ⟨hLive, hNot⟩ := h.kept handle hHandle
    rw [hOld, ownedBy_append, List.mem_append, not_or] at hNot
    obtain ⟨hStays, hTop⟩ := hKept handle hHandle hLive hNot.2
    rw [hNew, ownedBy_append, ownedBy_singleton, List.mem_append, not_or]
    exact ⟨hStays, hNot.1, hTop⟩
  · intro handle hLive
    rw [hNew, ownedBy_append, ownedBy_singleton, List.mem_append]
    by_cases hTop : handle ∈ top.owned.toList
    · exact Or.inr (Or.inr hTop)
    · obtain ⟨hWas, hNot⟩ := hMade handle hLive hTop
      rcases h.made handle hWas with hHandle | hMem
      · exact Or.inl hHandle
      · rw [hOld, ownedBy_append, List.mem_append] at hMem
        exact Or.inr (Or.inl (hMem.resolve_right hNot))

theorem Scoped.of_retraces (h : Scoped depth kept old before)
    (hSheds : Arena.Sheds before.heap after.heap)
    (hRetraces : Collector.Retraces after.heap before.collector after.collector)
    (hDrops : ∀ handle, kept handle → before.heap.contains handle = true →
      after.heap.contains handle = true)
    (hDepth : depth < after.collector.depth) : Scoped depth kept old after := by
  refine h.of_stack (Collector.stack_eq before.collector)
    (by rw [Collector.stack_eq, hRetraces.outer]) ?_ ?_ ?_
  · rwa [← hRetraces.outer, Collector.length_outer]
  · intro handle hHandle hLive hNot
    rw [ownedBy_singleton] at hNot
    exact ⟨hDrops handle hHandle hLive, fun hMem => hNot (hRetraces.current.owned handle hMem)⟩
  · intro handle hLive hNot
    refine ⟨hSheds.contains_of_contains hLive, ?_⟩
    rw [← List.count_eq_zero] at hNot
    rw [ownedBy_singleton, ← List.count_eq_zero, ← hRetraces.current.count handle hLive, hNot]

theorem Scoped.insert (h : Scoped depth kept old before) (hs : before.heap.Sound)
    (hFull : before.heap.isFull = false) (size : UInt16) (mode : TraceMode)
    (hDepth : depth < before.collector.depth) :
    Scoped depth kept old (before.insert size mode).2 := by
  have hNew := Arena.not_contains_new hs hFull size mode
  obtain ⟨top, hAfter, hExtends⟩ := before.stack_insert size mode
  refine h.of_stack (Collector.stack_eq before.collector) hAfter ?_ ?_ ?_
  · rwa [Collector.length_outer]
  · intro handle _ hLive hNot
    rw [ownedBy_singleton] at hNot
    refine ⟨(Arena.contains_insert hs hFull size mode handle).2 (Or.inr hLive), ?_⟩
    intro hMem
    rcases hExtends.mem_owned hMem with hOld | hEq
    · exact hNot hOld
    · rw [List.mem_singleton.1 hEq, hNew] at hLive
      cases hLive
  · intro handle hLive hNot
    rw [ownedBy_singleton]
    rcases (Arena.contains_insert hs hFull size mode handle).1 hLive with hEq | hWas
    · exact absurd (hExtends.mem_of_live hLive (Or.inr (by simp [hEq]))) hNot
    · exact ⟨hWas, fun hMem => hNot (hExtends.mem_of_live hLive (Or.inl hMem))⟩

theorem Scoped.push (h : Scoped depth kept old before) (hDepth : depth ≤ before.collector.depth) :
    Scoped depth kept old { before with collector := before.collector.push } := by
  refine h.of_stack (List.append_nil _).symm (Collector.stack_push _) ?_ ?_ ?_
  · rw [Collector.length_stack]
    omega
  · intro handle _ hLive _
    exact ⟨hLive, by simp⟩
  · intro handle hLive _
    exact ⟨hLive, by simp [ownedBy]⟩

theorem Scoped.of_closes {closed : Frame} (h : Scoped depth kept old before)
    (hCloses : Closes before closed after)
    (hBack : before.collector.frames.back? = some closed)
    (hDepth : depth < after.collector.depth) : Scoped depth kept old after := by
  obtain ⟨parent, hAfter, hExtends⟩ := hCloses.stack
  have hLength := Collector.length_stack after.collector
  simp only [hAfter, List.length_append, List.length_singleton] at hLength
  refine h.of_stack (Collector.stack_of_back?_pop hBack) hAfter (by omega) ?_ ?_
  · intro handle _ hLive hNot
    simp only [ownedBy_cons, ownedBy_nil, List.append_nil, List.mem_append, not_or] at hNot
    refine ⟨(hCloses.contains handle).2 ⟨hLive, Or.inl (by simpa using hNot.2)⟩, ?_⟩
    intro hMem
    rcases hExtends.mem_owned hMem with hOld | hPromoted
    · exact hNot.1 hOld
    · exact hNot.2 (List.mem_filter.1 hPromoted).1
  · intro handle hLive hNot
    simp only [ownedBy_cons, ownedBy_nil, List.append_nil, List.mem_append, not_or]
    refine ⟨hCloses.sheds.contains_of_contains hLive, ?_, ?_⟩
    · exact fun hMem => hNot (hExtends.mem_of_live hLive (Or.inl hMem))
    · intro hMem
      exact hNot (hExtends.mem_of_live hLive (Or.inr (List.mem_filter.2 ⟨hMem, hLive⟩)))

theorem Turns.scoped (hTurns : Turns dropped before after) (hs : before.Sound)
    (h : Scoped depth kept old before) (hKept : ∀ handle, kept handle → ¬ dropped handle)
    (hBefore : depth ≤ before.collector.depth) (hAfter : depth < after.collector.depth) :
    Scoped depth kept old after := by
  cases hTurns with
  | keep _ hSheds hRetraces hDrops =>
    refine h.of_retraces hSheds hRetraces ?_ hAfter
    exact fun handle hHandle hLive => (hDrops handle hLive).resolve_right (hKept handle hHandle)
  | @allocate size mode hFull =>
    have hDepth := (Serves.allocate hFull : Serves before (before.insert size mode).2).depth
    exact h.insert hs.heap hFull size mode (hDepth ▸ hAfter)
  | openFrame => exact h.push hBefore
  | closeFrame hBack => exact h.of_closes (closes_closeFrame hs.heap hBack) hBack hAfter
  | unwind =>
    -- Neither of these ends inside a scope.
    rw [depth_unwind hs] at hAfter
    exact absurd hAfter (Nat.not_lt_zero depth)
  | reset => exact absurd hAfter (Nat.not_lt_zero depth)

theorem scoped_of_served (h : Scoped depth kept old before)
    (hServed : Relation.ReflTransGen Serves before after) (hs : before.Sound)
    (hDepth : depth < before.collector.depth) : Scoped depth kept old after := by
  induction hServed with
  | refl => exact h
  | tail hFirst hStep ih =>
    have hSound := sound_of_served hFirst hs
    have hSame := depth_of_served hFirst
    refine (hStep.turns hSound.heap fun _ => False).scoped hSound ih (fun _ _ => id) ?_ ?_
    · omega
    · rw [hStep.depth]
      omega

theorem Moves.scoped (hMoves : Moves dropped before after) (hs : before.Sound)
    (h : Scoped depth kept old before) (hKept : ∀ handle, kept handle → ¬ dropped handle)
    (hBefore : depth < before.collector.depth) (hAfter : depth < after.collector.depth) :
    Scoped depth kept old after := by
  obtain ⟨served, hServed, hTurns⟩ := hMoves
  refine hTurns.scoped (sound_of_served hServed hs) (scoped_of_served h hServed hs hBefore)
    hKept ?_ hAfter
  rw [depth_of_served hServed]
  omega

end Steps

/-! ## The end of a scope -/

/-- When the last frame of a scope is closed, what is from outside stays, and what was made
inside stays when it is reached, and goes to the frame that is current again. -/
theorem scope_ends {depth : Nat} {kept old : Handle → Prop} {before after : Memory}
    {closed : Frame} (h : Scoped depth kept old before) (hCloses : Closes before closed after)
    (hBack : before.collector.frames.back? = some closed)
    (hDepth : after.collector.depth = depth) :
    (∀ handle, kept handle → after.heap.contains handle = true) ∧
    ∀ handle, after.heap.contains handle = true → ¬ old handle →
      before.heap.Reaches closed.traced.toList handle ∧ handle ∈ after.collector.current.owned := by
  obtain ⟨parent, hStack, hExtends⟩ := hCloses.stack
  have hAbove : before.collector.above depth = [closed] := by
    have hLength := Collector.length_stack after.collector
    rw [hStack, List.length_append, List.length_singleton, hDepth] at hLength
    rw [Collector.length_outer, ← Collector.length_stack] at hLength
    rw [Collector.above, Collector.stack_of_back? hBack, ← hLength, List.drop_left]
  have hCurrent : after.collector.current = parent := by
    rw [Collector.stack_eq] at hStack
    exact List.singleton_inj.1 (List.append_inj' hStack rfl).2
  constructor
  · intro handle hHandle
    obtain ⟨hLive, hNot⟩ := h.kept handle hHandle
    rw [hAbove, ownedBy_singleton, Array.mem_toList_iff] at hNot
    exact (hCloses.contains handle).2 ⟨hLive, Or.inl hNot⟩
  · intro handle hLive hNew
    obtain ⟨hWas, hReason⟩ := (hCloses.contains handle).1 hLive
    have hMem := (h.made handle hWas).resolve_left hNew
    rw [hAbove, ownedBy_singleton] at hMem
    refine ⟨hReason.resolve_left (not_not_intro (Array.mem_toList_iff.1 hMem)), ?_⟩
    rw [hCurrent, ← Array.mem_toList_iff]
    exact hExtends.mem_of_live hLive (Or.inr (List.mem_filter.2 ⟨hMem, hLive⟩))

theorem Scoped.imp_old {depth : Nat} {kept old more : Handle → Prop} {memory : Memory}
    (h : Scoped depth kept old memory)
    (hMore : ∀ handle, memory.heap.contains handle = true → old handle → more handle) :
    Scoped depth kept more memory :=
  ⟨h.kept, fun handle hLive => (h.made handle hLive).imp_left (hMore handle hLive)⟩

/-- At the depth at which a scope is opened, no frame is inside it. -/
theorem scoped_before {memory : Memory} {kept old : Handle → Prop}
    (hKept : ∀ handle, kept handle → memory.heap.contains handle = true)
    (hOld : ∀ handle, memory.heap.contains handle = true → old handle) :
    Scoped memory.collector.depth kept old memory := by
  have hAbove : memory.collector.above memory.collector.depth = [] := by
    rw [Collector.above, ← Collector.length_stack, List.drop_length]
  constructor
  · intro handle hHandle
    rw [hAbove]
    exact ⟨hKept handle hHandle, List.not_mem_nil⟩
  · exact fun handle hLive => Or.inl (hOld handle hLive)

end Memory

/-! ## Runs of a scope -/

namespace Machine

open Memory

variable {σ : Type}

/-- The machines `path 0` to `path (last + 1)` run through a scope, without a fault: from the
instruction that opens a frame to the one that first comes back to the depth before. -/
structure Scope (code : Array Instruction) (path : Nat → Machine σ) (last : Nat) : Prop where
  steps : ∀ k ≤ last, (path k).step code = .next (path (k + 1))
  opens : (path 0).fetched? code = some .gcNewFrame
  inside : ∀ k, 0 < k → k ≤ last →
    (path 0).memory.collector.depth < (path k).memory.collector.depth
  closes : (path last).fetched? code = some .gcClean
  back : (path (last + 1)).memory.collector.depth = (path 0).memory.collector.depth

theorem Scope.last_pos {code : Array Instruction} {path : Nat → Machine σ} {last : Nat}
    (h : Scope code path last) : 0 < last := by
  rcases Nat.eq_zero_or_pos last with rfl | hPos
  · have hSame := h.opens.symm.trans h.closes
    cases hSame
  · exact hPos

section Path

variable {code : Array Instruction} {path : Nat → Machine σ} {last : Nat}
  {kept : Handle → Prop}

/-- What holds inside holds after every instruction of the scope but the last one. -/
theorem Scope.scoped (h : Scope code path last) (hs : (path 0).memory.Sound)
    (hKept : ∀ handle, kept handle → (path 0).memory.heap.contains handle = true ∧
      ∀ k ≤ last, ¬ (path k).Frees code handle)
    (k : Nat) (hk : k < last) :
    (path (k + 1)).memory.Sound ∧
      Scoped (path 0).memory.collector.depth kept
        (fun handle => ∀ j ≤ k + 1, (path j).memory.heap.contains handle = true)
        (path (k + 1)).memory := by
  induction k with
  | zero =>
    have hMemory := memory_of_gcNewFrame h.opens (h.steps 0 (by omega))
    have hTurns : Turns (fun _ => False) (path 0).memory (path 1).memory := hMemory ▸ .openFrame
    have hFirst := scoped_before (fun handle hHandle => (hKept handle hHandle).1)
      (fun (handle : Handle) hLive => hLive)
    have hAfter := hTurns.scoped hs hFirst (fun _ _ => id) (Nat.le_refl _)
      (h.inside 1 (by omega) (by omega))
    refine ⟨hTurns.sound hs, hAfter.imp_old ?_⟩
    intro handle hNow hOld j hj
    rcases Nat.le_one_iff_eq_zero_or_eq_one.1 hj with rfl | rfl
    · exact hOld
    · exact hNow
  | succ k ih =>
    obtain ⟨hSound, hScoped⟩ := ih (by omega)
    have hMoves := moves_step hSound code
    rw [h.steps (k + 1) (by omega)] at hMoves
    have hAfter := hMoves.scoped hSound hScoped
      (fun handle hHandle => (hKept handle hHandle).2 (k + 1) (by omega))
      (h.inside (k + 1) (by omega) (by omega)) (h.inside (k + 2) (by omega) (by omega))
    refine ⟨hMoves.sound hSound, hAfter.imp_old ?_⟩
    intro handle hNow hOld j hj
    rcases Nat.lt_or_ge j (k + 2) with hlt | hge
    · exact hOld j (by omega)
    · have hEq : j = k + 2 := by omega
      exact hEq ▸ hNow

end Path

/-! ## The law -/

/-- Every scope of every program, in whatever state it is opened. An allocation that was live
before and was not freed inside is live after it. An allocation that was made inside and is
live after it was reached from the traces of the frame that was closed last, and is owned by
the frame that is current again. -/
theorem a_scope_keeps_what_it_found_and_what_it_reaches (config : Config) (host : σ)
    (first : Machine σ) (hMake : make config host = .ok first) (code : Array Instruction)
    (path : Nat → Machine σ) (last : Nat)
    (hReached : Relation.ReflTransGen Undergoes first (path 0)) (hScope : Scope code path last) :
    (∀ handle, (path 0).memory.heap.contains handle = true →
      (∀ k ≤ last, ¬ (path k).Frees code handle) →
      (path (last + 1)).memory.heap.contains handle = true) ∧
    ∀ handle, ∀ k ≤ last, (path k).memory.heap.contains handle = false →
      (path (k + 1)).memory.heap.contains handle = true →
      (path (last + 1)).memory.heap.contains handle = true →
      ∃ closed, (path last).memory.collector.frames.back? = some closed ∧
        (path last).memory.heap.Reaches closed.traced.toList handle ∧
        handle ∈ (path (last + 1)).memory.collector.current.owned := by
  have hs : (path 0).memory.Sound := by
    refine sound_of_reached ?_ hReached
    rw [memory_make hMake]
    exact sound_make _ _ _
  have hPos := hScope.last_pos
  let kept : Handle → Prop := fun handle => (path 0).memory.heap.contains handle = true ∧
    ∀ k ≤ last, ¬ (path k).Frees code handle
  obtain ⟨hSound, hScoped⟩ := hScope.scoped hs (fun _ (h : kept _) => h) (last - 1) (by omega)
  rw [Nat.sub_add_cancel hPos] at hSound hScoped
  obtain ⟨hOpen, hMemory⟩ := memory_of_gcClean hScope.closes (hScope.steps last (Nat.le_refl _))
  obtain ⟨closed, hBack⟩ := Collector.back?_of_isEmpty hOpen
  have hCloses : Closes (path last).memory closed (path (last + 1)).memory :=
    hMemory ▸ closes_closeFrame hSound.heap hBack
  obtain ⟨hOutside, hInside⟩ := scope_ends hScoped hCloses hBack hScope.back
  refine ⟨fun handle hLive hFrees => hOutside handle ⟨hLive, hFrees⟩, ?_⟩
  intro handle k hk hDead _ hLive
  have hNew : ¬ ∀ j ≤ last, (path j).memory.heap.contains handle = true := by
    intro hAlways
    rw [hAlways k hk] at hDead
    cases hDead
  obtain ⟨hReach, hOwned⟩ := hInside handle hLive hNew
  exact ⟨closed, hBack, hReach, hOwned⟩

/-- A scope that makes an allocation and traces it. -/
def smallScope : Array Instruction :=
  #[⟨.make .gcNewFrame 0, 0, 0, 0⟩, ⟨.make .allocI 0, 0, 1, 1⟩, ⟨.make .gcTrace 0, 0, 0, 0⟩,
    ⟨.make .gcClean 0, 0, 0, 0⟩]

/-- The run of the scope on a machine that has an allocation already. -/
def smallPath : Nat → Machine Unit
  | 0 => { small with memory := (small.memory.insert 1 .always).2 }
  | k + 1 => ((smallPath k).step smallScope).machine

theorem smallPath_steps (k : Nat) (hk : k ≤ 3) :
    (smallPath k).step smallScope = .next (smallPath (k + 1)) := by
  have hRuns : ∀ k ≤ 3, (smallPath k).haltRequested = false := by decide +kernel
  have hFetch : ∀ k ≤ 3, smallScope[(smallPath k).ip]? = smallScope[k]? := by decide +kernel
  have hPlans : (smallPath 0).plan ⟨.make .gcNewFrame 0, 0, 0, 0⟩ = .ok .openFrame ∧
      (smallPath 1).plan ⟨.make .allocI 0, 0, 1, 1⟩ = .ok (.allocate 1 1 .always) ∧
      (smallPath 2).plan ⟨.make .gcTrace 0, 0, 0, 0⟩ = .ok (.trace ⟨1, 0⟩) ∧
      (smallPath 3).plan ⟨.make .gcClean 0, 0, 0, 0⟩ = .ok .closeFrame := by decide +kernel
  rcases k with _ | _ | _ | _ | k
  · exact next_of_plan (hRuns 0 hk) (hFetch 0 hk) hPlans.1 rfl
  · exact next_of_plan (hRuns 1 hk) (hFetch 1 hk) hPlans.2.1 rfl
  · exact next_of_plan (hRuns 2 hk) (hFetch 2 hk) hPlans.2.2.1 rfl
  · exact next_of_plan (hRuns 3 hk) (hFetch 3 hk) hPlans.2.2.2 rfl
  · omega

/-- The old allocation and the new one are live after the scope, and the new one is then
owned by the root frame. -/
theorem a_traced_allocation_outlives_its_scope :
    Relation.ReflTransGen Undergoes small (smallPath 0) ∧ Scope smallScope smallPath 3 ∧
      (smallPath 0).memory.heap.contains ⟨0, 0⟩ = true ∧
      (smallPath 1).memory.heap.contains ⟨1, 0⟩ = false ∧
      (smallPath 2).memory.heap.contains ⟨1, 0⟩ = true ∧
      (smallPath 4).memory.heap.contains ⟨0, 0⟩ = true ∧
      ⟨1, 0⟩ ∈ (smallPath 4).memory.collector.current.owned := by
  have hAllocate : small.allocate 1 .always = .ok (⟨0, 0⟩, smallPath 0) := rfl
  have hReached : Relation.ReflTransGen Undergoes small (smallPath 0) :=
    .single (.becomes (.allocate hAllocate))
  have hStep : ∀ k ≤ 3, Undergoes (smallPath k) (smallPath (k + 1)) :=
    fun k hk => .becomes (.next (smallPath_steps k hk))
  have hSound : (smallPath 3).memory.Sound :=
    sound_of_reached (show small.memory.Sound from sound_make 4 1 2)
      (((hReached.tail (hStep 0 (by omega))).tail (hStep 1 (by omega))).tail (hStep 2 (by omega)))
  have hBack : (smallPath 3).memory.collector.frames.back? =
      some { owned := #[⟨1, 0⟩], traced := #[⟨1, 0⟩] } := by decide +kernel
  have hEnd : (smallPath 3).fetched? smallScope = some .gcClean := by decide +kernel
  have hCloses : Closes (smallPath 3).memory _ (smallPath 4).memory :=
    (memory_of_gcClean hEnd (smallPath_steps 3 (by omega))).2 ▸
      closes_closeFrame hSound.heap hBack
  have hScope : Scope smallScope smallPath 3 := by
    refine ⟨smallPath_steps, by decide +kernel, ?_, hEnd, ?_⟩
    · have hDepths : ∀ k ≤ 3, 0 < k →
          (smallPath 0).memory.collector.depth < (smallPath k).memory.collector.depth := by
        decide +kernel
      exact fun k hPos hk => hDepths k hk hPos
    · have hDepth : (smallPath 3).memory.collector.depth = 1 := by decide +kernel
      have hLast := hCloses.depth hBack
      rw [hDepth] at hLast
      exact (Nat.succ.inj hLast).symm
  have hFrees : ∀ k ≤ 3, ¬ (smallPath k).Frees smallScope ⟨0, 0⟩ := by
    have hOps : ∀ k ≤ 3, (smallPath k).fetched? smallScope ≠ some .free ∧
        (smallPath k).fetched? smallScope ≠ some .dynamicFree := by decide +kernel
    rintro k hk ⟨hFree | hFree, _⟩
    · exact (hOps k hk).1 hFree
    · exact (hOps k hk).2 hFree
  have hFound : (smallPath 0).memory.heap.contains ⟨0, 0⟩ = true := by decide +kernel
  have hDead : (smallPath 1).memory.heap.contains ⟨1, 0⟩ = false := by decide +kernel
  have hNew : (smallPath 2).memory.heap.contains ⟨1, 0⟩ = true := by decide +kernel
  have hStays : (smallPath 4).memory.heap.contains ⟨1, 0⟩ = true :=
    (hCloses.contains ⟨1, 0⟩).2
      ⟨by decide +kernel, Or.inr (.root (by simp) (by decide +kernel))⟩
  obtain ⟨hOld, hInside⟩ := a_scope_keeps_what_it_found_and_what_it_reaches small.config ()
    small make_small smallScope smallPath 3 hReached hScope
  obtain ⟨closed, -, -, hOwned⟩ := hInside ⟨1, 0⟩ 1 (by omega) hDead hNew hStays
  exact ⟨hReached, hScope, hFound, hDead, hNew, hOld ⟨0, 0⟩ hFound hFrees, hOwned⟩

end Machine

end RegisterMachine

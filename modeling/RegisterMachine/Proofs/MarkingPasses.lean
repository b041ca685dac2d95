-- Marking passes, step by step. A pass gets a number, and its walks then mark what they visit
-- with that number. The number is on no allocation, and an allocation that is made later gets it
-- from a walk only, also when the numbers have started again. A walk ends on every graph: it
-- takes one turn for each root and for each handle in an array that it visits.
import Mathlib.Algebra.GroupWithZero.Nat
import Mathlib.Logic.Function.Iterate
import RegisterMachine.Proofs.TracedGraphs

namespace RegisterMachine.Arena

/-! ## Turns of a walk -/

/-- A walk under way. -/
structure Walk where
  /-- The handles that are yet to be looked at, the next one first. -/
  work : List Handle
  visited : Array Handle
  heap : Arena

/-- One turn of a walk, which takes one handle off the worklist. With an empty worklist the walk
has ended. -/
def Walk.turn (epoch : UInt32) (walk : Walk) : Walk :=
  match walk.work with
  | [] => walk
  | handle :: rest =>
    match walk.heap.get? handle with
    | none => { walk with work := rest }
    | some alloc =>
      if alloc.mark = epoch then { walk with work := rest }
      else
        { work := alloc.children.reverse ++ rest
          visited := walk.visited.push handle
          heap := walk.heap.modify handle (·.setMark epoch) }

/-- The number of handles that the collector follows out of an allocation. -/
def childCount (heap : Arena) (handle : Handle) : Nat :=
  ((heap.get? handle).map (·.children.length)).getD 0

/-- The handles that a walk visits. -/
def reached (heap : Arena) (epoch : UInt32) (work : List Handle) : Array Handle :=
  (heap.markFrom epoch work #[]).2

theorem childCount_modify_setMark (heap : Arena) (handle : Handle) (epoch : UInt32) :
    (heap.modify handle (·.setMark epoch)).childCount = heap.childCount := by
  funext other
  unfold childCount
  rw [get?_modify]
  split
  · rename_i hOther
    rw [hOther, Option.map_map]
    rfl
  · rfl

section Turns

variable {heap : Arena} {epoch : UInt32} {handle : Handle} {rest : List Handle}
  {visited : Array Handle}

theorem markFrom_of_stale (hGet : heap.get? handle = none) :
    heap.markFrom epoch (handle :: rest) visited = heap.markFrom epoch rest visited := by
  rw [markFrom]
  split
  · rfl
  · rename_i hSome
    rw [hGet] at hSome
    cases hSome

theorem markFrom_of_marked {alloc : Allocation} (hGet : heap.get? handle = some alloc)
    (hMark : alloc.mark = epoch) :
    heap.markFrom epoch (handle :: rest) visited = heap.markFrom epoch rest visited := by
  rw [markFrom]
  split
  · rfl
  · rename_i found hSome
    rw [hGet, Option.some.injEq] at hSome
    rw [dif_pos (hSome ▸ hMark)]

theorem markFrom_of_unmarked {alloc : Allocation} (hGet : heap.get? handle = some alloc)
    (hMark : alloc.mark ≠ epoch) :
    heap.markFrom epoch (handle :: rest) visited =
      (heap.modify handle (·.setMark epoch)).markFrom epoch (alloc.children.reverse ++ rest)
        (visited.push handle) := by
  rw [markFrom]
  split
  · rename_i hNone
    rw [hGet] at hNone
    cases hNone
  · rename_i found hSome
    rw [hGet, Option.some.injEq] at hSome
    subst hSome
    rw [dif_neg hMark]

end Turns

/-- A walk does not look at what was visited before it. -/
theorem markFrom_append (heap : Arena) (epoch : UInt32) (work : List Handle)
    (earlier visited : Array Handle) :
    heap.markFrom epoch work (earlier ++ visited) =
      ((heap.markFrom epoch work visited).1, earlier ++ (heap.markFrom epoch work visited).2) := by
  fun_induction markFrom epoch work visited heap with
  | case1 visited heap => rw [markFrom]
  | case2 visited heap next rest hGet ih => rw [markFrom_of_stale hGet, ih]
  | case3 visited heap next rest alloc hGet hMark ih => rw [markFrom_of_marked hGet hMark, ih]
  | case4 visited heap next rest alloc hGet hMark work ih =>
    rw [markFrom_of_unmarked hGet hMark, ← Array.append_push, ih]

theorem markFrom_eq (heap : Arena) (epoch : UInt32) (work : List Handle)
    (visited : Array Handle) :
    heap.markFrom epoch work visited =
      ((heap.markFrom epoch work #[]).1, visited ++ heap.reached epoch work) := by
  have h := heap.markFrom_append epoch work visited #[]
  rwa [Array.append_empty] at h

theorem reached_of_unmarked {heap : Arena} {epoch : UInt32} {handle : Handle} {rest : List Handle}
    {alloc : Allocation} (hGet : heap.get? handle = some alloc) (hMark : alloc.mark ≠ epoch) :
    heap.reached epoch (handle :: rest) =
      #[handle] ++ (heap.modify handle (·.setMark epoch)).reached epoch
        (alloc.children.reverse ++ rest) := by
  unfold reached
  rw [markFrom_of_unmarked hGet hMark, markFrom_eq]
  rfl

/-- A walk ends: each handle of the worklist takes one turn, and so does each handle that is put
on it by an allocation that is visited. -/
theorem iterate_turn (heap : Arena) (epoch : UInt32) (work : List Handle)
    (visited : Array Handle) :
    (Walk.turn epoch)^[work.length + ((heap.reached epoch work).toList.map heap.childCount).sum]
        ⟨work, visited, heap⟩ =
      ⟨[], (heap.markFrom epoch work visited).2, (heap.markFrom epoch work visited).1⟩ := by
  fun_induction markFrom epoch work visited heap with
  | case1 visited heap => simp [reached, markFrom]
  | case2 visited heap next rest hGet ih =>
    have hTurn : Walk.turn epoch ⟨next :: rest, visited, heap⟩ = ⟨rest, visited, heap⟩ := by
      simp [Walk.turn, hGet]
    have hReached : heap.reached epoch (next :: rest) = heap.reached epoch rest := by
      rw [reached, markFrom_of_stale hGet, reached]
    rw [hReached, List.length_cons, Nat.add_right_comm, Function.iterate_succ_apply, hTurn, ih]
  | case3 visited heap next rest alloc hGet hMark ih =>
    have hTurn : Walk.turn epoch ⟨next :: rest, visited, heap⟩ = ⟨rest, visited, heap⟩ := by
      simp [Walk.turn, hGet, hMark]
    have hReached : heap.reached epoch (next :: rest) = heap.reached epoch rest := by
      rw [reached, markFrom_of_marked hGet hMark, reached]
    rw [hReached, List.length_cons, Nat.add_right_comm, Function.iterate_succ_apply, hTurn, ih]
  | case4 visited heap next rest alloc hGet hMark work ih =>
    have hTurn : Walk.turn epoch ⟨next :: rest, visited, heap⟩ =
        ⟨work, visited.push next, heap.modify next (·.setMark epoch)⟩ := by
      simp [Walk.turn, hGet, hMark, work]
    have hCount : (next :: rest).length +
          ((heap.reached epoch (next :: rest)).toList.map heap.childCount).sum =
        work.length + (((heap.modify next (·.setMark epoch)).reached epoch work).toList.map
          (heap.modify next (·.setMark epoch)).childCount).sum + 1 := by
      have hChildren : heap.childCount next = alloc.children.length := by simp [childCount, hGet]
      rw [reached_of_unmarked hGet hMark, childCount_modify_setMark]
      simp only [Array.toList_append, List.map_append, List.sum_append, List.map_cons,
        List.map_nil, List.sum_cons, List.sum_nil, List.length_cons, hChildren, work,
        List.length_append, List.length_reverse]
      omega
    rw [hCount, Function.iterate_succ_apply, hTurn, ih]

/-! ## What a walk changes -/

/-- A walk puts its number on what it visits, and changes nothing else. -/
theorem get?_markFrom (heap : Arena) (epoch : UInt32) (work : List Handle) (other : Handle) :
    (heap.markFrom epoch work #[]).1.get? other =
      if other ∈ heap.reached epoch work then (heap.get? other).map (·.setMark epoch)
      else heap.get? other := by
  -- The induction is that of the walk; what was visited before plays no part in it.
  generalize hVisited : (#[] : Array Handle) = visited
  clear hVisited
  fun_induction markFrom epoch work visited heap with
  | case1 visited heap => simp [reached, markFrom]
  | case2 visited heap next rest hGet ih =>
    rw [reached, markFrom_of_stale hGet]
    exact ih
  | case3 visited heap next rest alloc hGet hMark ih =>
    rw [reached, markFrom_of_marked hGet hMark]
    exact ih
  | case4 visited heap next rest alloc hGet hMark work ih =>
    rw [ih, reached_of_unmarked hGet hMark, get?_modify]
    by_cases hNext : other = next
    · subst hNext
      simp [hGet, Allocation.setMark]
    · simp [hNext, work]

theorem epoch_markFrom (heap : Arena) (epoch : UInt32) (work : List Handle)
    (visited : Array Handle) : (heap.markFrom epoch work visited).1.epoch = heap.epoch := by
  fun_induction markFrom epoch work visited heap with
  | case1 => rfl
  | case2 visited heap next rest hGet ih => exact ih
  | case3 visited heap next rest alloc hGet hMark ih => exact ih
  | case4 visited heap next rest alloc hGet hMark work ih => exact ih

/-- What carries a number after a walk carried it before, or was visited. -/
theorem isMarked_of_markFrom {heap : Arena} {epoch epoch' : UInt32} {work : List Handle}
    {handle : Handle}
    (h : (heap.markFrom epoch' work #[]).1.isMarked handle epoch = true) :
    heap.isMarked handle epoch = true ∨ handle ∈ heap.reached epoch' work := by
  by_cases hReached : handle ∈ heap.reached epoch' work
  · exact Or.inr hReached
  · unfold isMarked at h ⊢
    rw [get?_markFrom, if_neg hReached] at h
    exact Or.inl h

/-! ## The numbers of passes -/

theorem nextEpoch_ne_zero (heap : Arena) : heap.nextEpoch.1 ≠ 0 := by
  unfold nextEpoch
  simp only
  split
  · exact (by decide : (1 : UInt32) ≠ 0)
  · assumption

/-- Beginning a pass marks nothing. -/
theorem isMarked_of_nextEpoch {heap : Arena} {epoch : UInt32} (hEpoch : epoch ≠ 0)
    {handle : Handle} (h : heap.nextEpoch.2.isMarked handle epoch = true) :
    heap.isMarked handle epoch = true := by
  unfold nextEpoch at h
  simp only at h
  split at h
  · obtain ⟨alloc, hGet, hMark⟩ := isMarked_iff.1 h
    have hErased : heap.eraseMarks.get? handle = (heap.get? handle).map (·.setMark 0) :=
      get?_contents heap handle
    change heap.eraseMarks.get? handle = some alloc at hGet
    rw [hErased] at hGet
    obtain ⟨old, -, rfl⟩ := Option.map_eq_some_iff.1 hGet
    exact absurd hMark.symm hEpoch
  · exact h

/-! ## Tasks -/

/-- Something done to an arena: a call, or one half of a marking pass. -/
inductive Task where
  | call (call : Call)
  /-- Begins a pass. -/
  | begin
  /-- Walks from some roots, with the number of the last pass. -/
  | walk (roots : List Handle)
  deriving DecidableEq, Repr

/-- The handles that are visited in a call. -/
def Call.visits (heap : Arena) : Call → Array Handle
  | .mark roots => (heap.mark roots).2.1
  | _ => #[]

/-- An arena, and the handles that walks have visited since they were given out. -/
structure Surveyed where
  heap : Arena
  visited : Array Handle := #[]

/-- Does one task. A handle that is given out counts as not visited. -/
def Surveyed.perform (state : Surveyed) : Task → Surveyed
  | .call call =>
    { heap := (state.heap.call call).2
      visited := state.visited.filter (· ∉ (state.heap.call call).1.issued) ++
        call.visits state.heap }
  | .begin => { state with heap := state.heap.nextEpoch.2 }
  | .walk roots =>
    { heap := (state.heap.markFrom state.heap.epoch roots.reverse #[]).1
      visited := state.visited ++ state.heap.reached state.heap.epoch roots.reverse }

/-- Does tasks one after the other. -/
def Surveyed.run (state : Surveyed) (tasks : List Task) : Surveyed :=
  tasks.foldl Surveyed.perform state

theorem sound_perform {state : Surveyed} (hs : state.heap.Sound) (task : Task) :
    (state.perform task).heap.Sound := by
  cases task with
  | call call => exact sound_call hs call
  | begin => exact sound_nextEpoch hs
  | walk roots => exact sound_markFrom hs (UInt32.le_refl _)

theorem sound_run {state : Surveyed} (hs : state.heap.Sound) (tasks : List Task) :
    (state.run tasks).heap.Sound := by
  induction tasks generalizing state with
  | nil => exact hs
  | cons task tasks ih => exact ih (sound_perform hs task)

/-! ## A number is on nothing that was not visited -/

/-- Whatever carries the number was visited. -/
def Surveyed.Tells (epoch : UInt32) (state : Surveyed) : Prop :=
  ∀ handle, state.heap.isMarked handle epoch = true → handle ∈ state.visited

/-- A change that leaves the marks alone. -/
theorem isMarked_of_modify {heap : Arena} {target handle : Handle}
    {change : Allocation → Allocation} {epoch : UInt32}
    (h : (heap.modify target change).isMarked handle epoch = true)
    (hChange : ∀ alloc, (change alloc).mark = alloc.mark) :
    heap.isMarked handle epoch = true := by
  obtain ⟨alloc, hGet, hMark⟩ := isMarked_iff.1 h
  rw [get?_modify] at hGet
  split at hGet
  · rename_i hTarget
    obtain ⟨old, hOld, rfl⟩ := Option.map_eq_some_iff.1 hGet
    exact isMarked_iff.2 ⟨old, hTarget ▸ hOld, (hChange old).symm.trans hMark⟩
  · exact isMarked_iff.2 ⟨alloc, hGet, hMark⟩

/-- Whatever mark a released array carried, it is taken off when the array is recycled. -/
theorem not_isMarked_allocate {heap after : Arena} (hs : heap.Sound) {epoch : UInt32}
    (hEpoch : epoch ≠ 0) {size : UInt16} {mode : TraceMode} {handle : Handle}
    (h : heap.allocate size mode = .ok (handle, after)) :
    after.isMarked handle epoch = false := by
  obtain ⟨hFull, rfl, rfl⟩ := allocate_eq_ok h
  rw [← Bool.not_eq_true, isMarked_iff]
  rintro ⟨alloc, hGet, hMark⟩
  rw [get?_insert hs hFull, if_pos rfl, newAllocation_eq hs] at hGet
  cases hGet
  exact hEpoch hMark.symm

/-- A call other than a marking pass marks nothing, and a new allocation has no mark. -/
theorem isMarked_of_call {heap : Arena} (hs : heap.Sound) {epoch : UInt32} (hEpoch : epoch ≠ 0)
    {call : Call} (hCall : ∀ roots, call ≠ .mark roots) {handle : Handle}
    (h : (heap.call call).2.isMarked handle epoch = true) :
    heap.isMarked handle epoch = true ∧ handle ∉ (heap.call call).1.issued := by
  have hDoes := does_call heap call
  generalize (heap.call call).1 = done at hDoes ⊢
  generalize (heap.call call).2 = after at hDoes h
  cases hDoes with
  | nothing => exact ⟨h, List.not_mem_nil⟩
  | @allocate size mode hFull =>
    obtain ⟨alloc, hGet, hMark⟩ := isMarked_iff.1 h
    rw [get?_insert hs hFull] at hGet
    split at hGet
    · rw [newAllocation_eq hs] at hGet
      cases hGet
      exact absurd hMark.symm hEpoch
    · rename_i hOld
      exact ⟨isMarked_iff.2 ⟨alloc, hGet, hMark⟩, by simpa [History.issued] using hOld⟩
  | release _ =>
    rw [Memory.isMarked_erase] at h
    simp only [Bool.and_eq_true] at h
    exact ⟨h.2, List.not_mem_nil⟩
  | clear =>
    obtain ⟨alloc, hGet, -⟩ := isMarked_iff.1 h
    rw [get?_clear] at hGet
    cases hGet
  | store | storeUnchecked | setFlag | setMode =>
    exact ⟨isMarked_of_modify h fun _ => rfl, List.not_mem_nil⟩
  | @mark roots => exact absurd rfl (hCall roots)

theorem tells_perform {state : Surveyed} (hs : state.heap.Sound) {epoch : UInt32}
    (hEpoch : epoch ≠ 0) (h : state.Tells epoch) (task : Task) :
    (state.perform task).Tells epoch := by
  intro handle hMarked
  cases task with
  | call call =>
    rw [Surveyed.perform, Array.mem_append]
    by_cases hCall : ∃ roots, call = .mark roots
    · obtain ⟨roots, rfl⟩ := hCall
      rcases isMarked_of_markFrom hMarked with hOld | hReached
      · left
        simpa [History.issued, Arena.call] using h handle (isMarked_of_nextEpoch hEpoch hOld)
      · exact Or.inr hReached
    · left
      obtain ⟨hOld, hNew⟩ := isMarked_of_call hs hEpoch (not_exists.1 hCall) hMarked
      simpa [hNew] using h handle hOld
  | begin => exact h handle (isMarked_of_nextEpoch hEpoch hMarked)
  | walk roots =>
    rw [Surveyed.perform, Array.mem_append]
    exact (isMarked_of_markFrom hMarked).imp_left (h handle)

theorem tells_run {state : Surveyed} (hs : state.heap.Sound) {epoch : UInt32}
    (hEpoch : epoch ≠ 0) (h : state.Tells epoch) (tasks : List Task) :
    (state.run tasks).Tells epoch := by
  induction tasks generalizing state with
  | nil => exact h
  | cons task tasks ih => exact ih (sound_perform hs task) (tells_perform hs hEpoch h task)

/-! ## The law -/

/-- What a walk has done: it has visited `found`, and put its number on that. -/
structure Walked (epoch : UInt32) (roots : List Handle) (before : Arena) (found : Array Handle)
    (after : Arena) : Prop where
  nodup : found.toList.Nodup
  mem : ∀ handle, handle ∈ found ↔ before.Reaches roots handle
  isMarked : ∀ handle, after.isMarked handle epoch = true ↔ before.Reaches roots handle
  contents : after.contents = before.contents
  epoch_eq : after.epoch = before.epoch
  get? : ∀ handle, after.get? handle =
    if handle ∈ found then (before.get? handle).map (·.setMark epoch) else before.get? handle

theorem reaches_reverse {heap : Arena} {roots : List Handle} {handle : Handle} :
    heap.Reaches roots.reverse handle ↔ heap.Reaches roots handle := by
  constructor
  · exact fun h => h.of_roots fun root hRoot hLive => .root (List.mem_reverse.1 hRoot) hLive
  · exact fun h => h.of_roots fun root hRoot hLive => .root (List.mem_reverse.2 hRoot) hLive

theorem walked_markFrom {heap : Arena} {epoch : UInt32}
    (hNone : ∀ handle, heap.isMarked handle epoch = false) (roots : List Handle) :
    Walked epoch roots heap (heap.reached epoch roots.reverse)
      (heap.markFrom epoch roots.reverse #[]).1 where
  nodup := nodup_markFrom List.nodup_nil (by simp)
  mem handle := by
    rw [reached, mem_markFrom, isMarked_markFrom hNone, hNone, reaches_reverse]
    simp
  isMarked handle := (isMarked_markFrom hNone).trans reaches_reverse
  contents := contents_markFrom _ _ _ _
  epoch_eq := epoch_markFrom _ _ _ _
  get? := heap.get?_markFrom epoch roots.reverse

/-- A pass marks what its roots reach. In whatever state tasks have left the arena, also after any
number of earlier passes, the number of a new pass is on no allocation, and beginning the pass
changes nothing but marks. From then on, whatever is done, an allocation carries the number only
if a walk has visited it since it was made, and an allocation that is made does not carry it, also
when it is made of a released one that did. While nothing has been visited, a walk with the number
from any roots ends after as many turns as there are roots and handles that lead out of what it
visits. It appends the allocations that the roots reach to what was visited before, each once;
they alone carry the number then, and nothing else has changed. -/
theorem a_pass_marks_what_its_roots_reach (limit poolLimit : Nat) (tasks : List Task)
    (heap : Arena) (hRun : (Surveyed.run { heap := { limit, poolLimit } } tasks).heap = heap) :
    let epoch := heap.nextEpoch.1
    (∀ handle, heap.nextEpoch.2.isMarked handle epoch = false) ∧
    heap.nextEpoch.2.contents = heap.contents ∧
    ∀ (later : List Task) (now : Surveyed),
      Surveyed.run { heap := heap.nextEpoch.2 } later = now →
      (∀ handle, now.heap.isMarked handle epoch = true → handle ∈ now.visited) ∧
      (∀ size mode handle after, now.heap.allocate size mode = .ok (handle, after) →
        after.isMarked handle epoch = false) ∧
      (now.visited = #[] → ∀ (roots : List Handle) (visited : Array Handle),
        ∃ found after,
          now.heap.markFrom epoch roots.reverse visited = (after, visited ++ found) ∧
          (Walk.turn epoch)^[roots.length + (found.toList.map now.heap.childCount).sum]
              ⟨roots.reverse, visited, now.heap⟩ = ⟨[], visited ++ found, after⟩ ∧
          Walked epoch roots now.heap found after) := by
  intro epoch
  have hs : heap.Sound := hRun ▸ sound_run (sound_empty limit poolLimit) tasks
  have hNew := isMarked_nextEpoch hs
  refine ⟨hNew, contents_nextEpoch heap, ?_⟩
  intro later now hNow
  have hNext := sound_nextEpoch hs
  have hTells : now.Tells epoch := by
    subst hNow
    refine tells_run hNext heap.nextEpoch_ne_zero ?_ later
    intro handle hMarked
    rw [hNew handle] at hMarked
    cases hMarked
  refine ⟨hTells, ?_, ?_⟩
  · intro size mode handle after hMade
    exact not_isMarked_allocate (hNow ▸ sound_run hNext later) heap.nextEpoch_ne_zero hMade
  intro hNone roots visited
  have hUnmarked : ∀ handle, now.heap.isMarked handle epoch = false := by
    intro handle
    rw [← Bool.not_eq_true]
    intro hMarked
    have hMem := hTells handle hMarked
    simp [hNone] at hMem
  refine ⟨now.heap.reached epoch roots.reverse, (now.heap.markFrom epoch roots.reverse #[]).1,
    now.heap.markFrom_eq epoch roots.reverse visited, ?_, walked_markFrom hUnmarked roots⟩
  have hTurns := now.heap.iterate_turn epoch roots.reverse visited
  rwa [List.length_reverse, now.heap.markFrom_eq epoch roots.reverse visited] at hTurns

/-- Two arrays hold each other, and a third is made in the slot of a released one when the pass has
begun. From the first of the two, which is given twice, and the stale handle, a walk of five turns
visits the two arrays, and the third stays unmarked. When the first is visited and then released,
it carries its mark into the pool, and the array that is made of it does not carry it on. -/
theorem a_cycle_is_visited_once :
    let tasks : List Task :=
      [.call (.allocate 1 .always), .call (.allocate 1 .always), .call (.allocate 1 .always),
       .call (.store ⟨0, 0⟩ 0 (.handle ⟨1, 0⟩)), .call (.store ⟨1, 0⟩ 0 (.handle ⟨0, 0⟩)), .begin,
       .call (.release ⟨2, 0⟩)]
    let heap := (Surveyed.run { heap := { limit := 8, poolLimit := 2 } } tasks).heap
    let now := Surveyed.run { heap := heap.nextEpoch.2 } [.call (.allocate 1 .always)]
    let roots : List Handle := [⟨0, 0⟩, ⟨2, 0⟩, ⟨0, 0⟩]
    let released := Surveyed.run { heap := heap.nextEpoch.2 }
      [.walk [⟨0, 0⟩], .call (.release ⟨0, 0⟩)]
    now.visited = #[] ∧ now.heap.contains ⟨2, 1⟩ = true ∧
      ∃ found after, found.toList.Perm [⟨0, 0⟩, ⟨1, 0⟩] ∧
        (Walk.turn heap.nextEpoch.1)^[5] ⟨roots.reverse, #[], now.heap⟩ =
          ⟨[], #[] ++ found, after⟩ ∧
        after.isMarked ⟨2, 1⟩ heap.nextEpoch.1 = false ∧
        (released.heap.pool.map Allocation.mark).back? = some heap.nextEpoch.1 ∧
        ∀ size mode handle made, released.heap.allocate size mode = .ok (handle, made) →
          made.isMarked handle heap.nextEpoch.1 = false := by
  intro tasks heap now roots released
  have hNone : now.visited = #[] := by decide +kernel
  have hFirst : now.heap.get? ⟨0, 0⟩ =
      some ((Allocation.fresh 1 1 .always).write 0 (.handle ⟨1, 0⟩)) := by decide +kernel
  have hSecond : now.heap.get? ⟨1, 0⟩ =
      some ((Allocation.fresh 1 1 .always).write 0 (.handle ⟨0, 0⟩)) := by decide +kernel
  have hReach₀ : now.heap.Reaches roots ⟨0, 0⟩ := .root (by decide) (by decide +kernel)
  have hReach₁ : now.heap.Reaches roots ⟨1, 0⟩ :=
    .step hReach₀ hFirst (Allocation.mem_children.1 (by decide)) (by decide +kernel)
  have hOnly : ∀ handle, now.heap.Reaches roots handle → handle = ⟨0, 0⟩ ∨ handle = ⟨1, 0⟩ := by
    intro handle hReach
    induction hReach with
    | root hMem hLive =>
      have hStale : now.heap.contains ⟨2, 0⟩ = false := by decide +kernel
      simp only [roots, List.mem_cons, List.not_mem_nil, or_false] at hMem
      rcases hMem with rfl | rfl | rfl
      · exact Or.inl rfl
      · rw [hStale] at hLive
        cases hLive
      · exact Or.inl rfl
    | step _ hGet hLeads _ ih =>
      have hChild := Allocation.mem_children.2 hLeads
      rcases ih with rfl | rfl
      · rw [hFirst, Option.some.injEq] at hGet
        subst hGet
        exact Or.inr (List.mem_singleton.1 hChild)
      · rw [hSecond, Option.some.injEq] at hGet
        subst hGet
        exact Or.inl (List.mem_singleton.1 hChild)
  obtain ⟨-, -, hLater⟩ := a_pass_marks_what_its_roots_reach 8 2 tasks heap rfl
  obtain ⟨found, after, -, hTurns, hWalked⟩ := (hLater _ now rfl).2.2 hNone roots #[]
  have hPerm : found.toList.Perm [⟨0, 0⟩, ⟨1, 0⟩] := by
    rw [List.perm_ext_iff_of_nodup hWalked.nodup (by decide)]
    intro handle
    rw [Array.mem_toList_iff, hWalked.mem]
    simp only [List.mem_cons, List.not_mem_nil, or_false]
    constructor
    · exact hOnly handle
    · rintro (rfl | rfl)
      · exact hReach₀
      · exact hReach₁
  have hCount : (found.toList.map now.heap.childCount).sum = 2 := by
    rw [(hPerm.map now.heap.childCount).sum_nat]
    decide +kernel
  rw [hCount] at hTurns
  refine ⟨hNone, by decide +kernel, found, after, hPerm, hTurns, ?_, ?_, ?_⟩
  · rw [← Bool.not_eq_true, hWalked.isMarked]
    exact fun hReach => absurd (hOnly _ hReach) (by decide)
  · obtain ⟨visited, marked, hMarked, -, hVisited⟩ :=
      (hLater [] { heap := heap.nextEpoch.2 } rfl).2.2 rfl [⟨0, 0⟩] #[]
    have hMarkedGet := hVisited.get? ⟨0, 0⟩
    rw [if_pos ((hVisited.mem _).2 (.root (by decide) (by decide +kernel)))] at hMarkedGet
    obtain ⟨alloc, hGet⟩ := contains_eq_true.1
      (show heap.nextEpoch.2.contains ⟨0, 0⟩ = true by decide +kernel)
    rw [hGet, Option.map_some] at hMarkedGet
    have hPool := pool_of_contents hVisited.contents
    have hLimit : marked.contents.poolLimit = heap.nextEpoch.2.poolLimit := by
      rw [hVisited.contents]
      rfl
    change marked.poolLimit = heap.nextEpoch.2.poolLimit at hLimit
    have hHeap : released.heap = marked.erase ⟨0, 0⟩ := by
      change ((heap.nextEpoch.2.markFrom heap.nextEpoch.2.epoch [⟨0, 0⟩].reverse #[]).1.call
        (.release ⟨0, 0⟩)).2 = _
      rw [epoch_nextEpoch, hMarked, call, release,
        if_pos (contains_eq_true.2 ⟨_, hMarkedGet⟩)]
    have hRoom : heap.nextEpoch.2.pool.size < heap.nextEpoch.2.poolLimit := by decide +kernel
    rw [hHeap, pool_erase hMarkedGet, hPool, hLimit, if_pos hRoom, Array.map_push,
      Array.back?_push]
    rfl
  · exact (hLater _ released rfl).2.1

end RegisterMachine.Arena

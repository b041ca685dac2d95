-- Texts on the heap. A text takes one cell for each of its characters, in an array that the
-- current frame owns, and is read back through checked loads. It is there to be read as long as
-- the array is live and nothing is stored through its handle, whatever else is done.
import RegisterMachine.Foreign.Text
import RegisterMachine.Proofs.MemoryActions

namespace RegisterMachine

/-! ## The text of an array -/

/-- The character that a cell shows. A cell that was not written and a cell with another value
fail in different ways. -/
def charOf : Option Value → Except Fault Char
  | none => .error .uninitializedRead
  | some value => value.asChar

theorem charOf_eq_ok {cell : Option Value} {c : Char} :
    charOf cell = .ok c ↔ cell = some (.char c) := by
  rcases cell with _ | value
  · simp [charOf]
  · cases value <;> simp [charOf, Value.asChar]

theorem charOf_eq_error {cell : Option Value} {fault : Fault} :
    charOf cell = .error fault ↔
      (cell = none ∧ fault = .uninitializedRead) ∨
        ∃ value, cell = some value ∧ (∀ c, value ≠ .char c) ∧ fault = .internal := by
  rcases cell with _ | value
  · simp [charOf, eq_comm]
  · cases value <;> simp [charOf, Value.asChar, eq_comm]

/-- Reads the characters of cells, up to the first one that fails. -/
def charsOf : List (Option Value) → Except Fault (List Char)
  | [] => .ok []
  | cell :: cells => do
    let c ← charOf cell
    return c :: (← charsOf cells)

section Cons

variable {cell : Option Value} (cells : List (Option Value))

theorem charsOf_of_error {fault : Fault} (h : charOf cell = .error fault) :
    charsOf (cell :: cells) = .error fault := by
  rw [charsOf, h]
  rfl

theorem charsOf_of_ok {c : Char} (h : charOf cell = .ok c) :
    charsOf (cell :: cells) = (charsOf cells).map (c :: ·) := by
  rw [charsOf, h]
  cases charsOf cells <;> rfl

end Cons

theorem charsOf_eq_ok {cells : List (Option Value)} {cs : List Char} :
    charsOf cells = .ok cs ↔ cells = cs.map fun c => some (.char c) := by
  induction cells generalizing cs with
  | nil => cases cs <;> simp [charsOf]
  | cons cell cells ih =>
    simp only [charsOf, Arena.bind_eq_ok, charOf_eq_ok, ih]
    cases cs with
    | nil => simp [pure, Except.pure]
    | cons c cs => simp [pure, Except.pure]

/-- A text cannot be read because of the first cell that fails. -/
theorem charsOf_eq_error {cells : List (Option Value)} {fault : Fault} :
    charsOf cells = .error fault ↔
      ∃ before cell rest, cells = before ++ cell :: rest ∧
        (∀ other ∈ before, ∃ c, other = some (.char c)) ∧ charOf cell = .error fault := by
  simp only [← charOf_eq_ok]
  induction cells with
  | nil => simp [charsOf]
  | cons cell cells ih =>
    rcases hCell : charOf cell with cause | c
    · rw [charsOf_of_error cells hCell, Except.error.injEq]
      constructor
      · rintro rfl
        exact ⟨[], cell, cells, rfl, by simp, hCell⟩
      · rintro ⟨_ | ⟨first, before⟩, other, rest, hSplit, hBefore, hOther⟩
        · cases hSplit
          exact Except.error.inj (hCell.symm.trans hOther)
        · cases hSplit
          obtain ⟨c, hOk⟩ := hBefore cell List.mem_cons_self
          cases hCell.symm.trans hOk
    · have hGoesOn : charsOf (cell :: cells) = .error fault ↔ charsOf cells = .error fault := by
        rw [charsOf_of_ok cells hCell]
        cases charsOf cells <;> simp [Except.map]
      rw [hGoesOn, ih]
      constructor
      · rintro ⟨before, other, rest, rfl, hBefore, hOther⟩
        have hAll := List.forall_mem_cons.2 ⟨⟨c, hCell⟩, hBefore⟩
        exact ⟨cell :: before, other, rest, rfl, hAll, hOther⟩
      · rintro ⟨_ | ⟨first, before⟩, other, rest, hSplit, hBefore, hOther⟩
        · cases hSplit
          cases hCell.symm.trans hOther
        · cases hSplit
          exact ⟨before, other, rest, rfl, (List.forall_mem_cons.1 hBefore).2, hOther⟩

namespace Allocation

variable {alloc : Allocation}

/-- What an array gives when it is read as a text. -/
def spelling (alloc : Allocation) : Except Fault String :=
  (charsOf alloc.shown).map String.ofList

theorem spelling_eq_ok {text : String} :
    alloc.spelling = .ok text ↔ alloc.shown = text.toList.map fun c => some (.char c) := by
  rw [spelling, Arena.map_eq_ok, ← charsOf_eq_ok]
  constructor
  · rintro ⟨cs, hCs, rfl⟩
    rwa [String.toList_ofList]
  · intro hCs
    exact ⟨text.toList, hCs, String.ofList_toList⟩

theorem spelling_eq_error {fault : Fault} :
    alloc.spelling = .error fault ↔
      ∃ before cell rest, alloc.shown = before ++ cell :: rest ∧
        (∀ other ∈ before, ∃ c, other = some (.char c)) ∧ charOf cell = .error fault := by
  rw [← charsOf_eq_error, spelling]
  cases charsOf alloc.shown <;> simp [Except.map]

theorem exists_spelling_iff :
    (∃ text, alloc.spelling = .ok text) ↔ ∀ cell ∈ alloc.shown, ∃ c, cell = some (.char c) := by
  constructor
  · rintro ⟨text, hText⟩ cell hMem
    rw [spelling_eq_ok.1 hText, List.mem_map] at hMem
    obtain ⟨c, -, rfl⟩ := hMem
    exact ⟨c, rfl⟩
  · intro hChars
    rcases hText : alloc.spelling with fault | text
    · obtain ⟨before, cell, rest, hSplit, -, hCell⟩ := spelling_eq_error.1 hText
      obtain ⟨c, rfl⟩ := hChars cell (by simp [hSplit])
      cases hCell
    · exact ⟨text, rfl⟩

end Allocation

/-- The world with another memory. -/
def World.withMemory {σ : Type} (world : World σ) (memory : Memory) : World σ :=
  { world with memory }

@[simp] theorem World.memory_withMemory {σ : Type} (world : World σ) (memory : Memory) :
    (world.withMemory memory).memory = memory := rfl

/-! ## Reading -/

theorem toInt_ofNat_of_lt_size {index : Nat} (h : index < UInt16.size) :
    (Int64.ofNat index).toInt = index :=
  Int64.toInt_ofNat_of_lt (h.trans (by decide))

theorem Allocation.position_ofNat {alloc : Allocation} (hLimit : alloc.limit < UInt16.size)
    {index : Nat} (hIndex : index < alloc.limit) :
    alloc.position (Int64.ofNat index) = .ok index := by
  unfold position
  rw [toInt_ofNat_of_lt_size (hIndex.trans hLimit)]
  simp [hIndex]

/-- A checked load below the limit gives what the slot shows. -/
theorem Arena.asChar_load {heap : Arena} {handle : Handle} {alloc : Allocation}
    (hGet : heap.get? handle = some alloc) (hUniform : alloc.Uniform)
    (hLimit : alloc.limit < UInt16.size) {index : Nat} {cell : Option Value}
    (hCell : alloc.shown[index]? = some cell) :
    (heap.load handle (Int64.ofNat index) >>= Value.asChar) = charOf cell := by
  have hIndex : index < alloc.limit := by
    obtain ⟨hLt, -⟩ := List.getElem?_eq_some_iff.1 hCell
    rwa [Allocation.length_shown hUniform.limit_le] at hLt
  have hValues : index < alloc.values.size := Nat.lt_of_lt_of_le hIndex hUniform.limit_le
  have hWritten : index < alloc.written.size := hUniform.written.symm ▸ hValues
  rw [alloc.getElem?_shown hIndex, Array.getElem?_eq_getElem hValues,
    Array.getElem?_eq_getElem hWritten, Option.map_some, Option.some.injEq] at hCell
  subst hCell
  simp only [Arena.load, get_of_get? hGet, Allocation.load, Allocation.position_ofNat hLimit hIndex,
    bind, Except.bind, Array.getElem?_eq_getElem hValues, Array.getElem?_eq_getElem hWritten]
  cases alloc.written[index] <;> rfl

namespace Script

variable {σ : Type} {handle : Handle}

/-- A script that ends well goes on in the world that it left. -/
theorem run_bind_of_ok {α β : Type} {script : Script σ α} {world world' : World σ} {result : α}
    (h : script.run world = (.ok result, world')) (next : α → Script σ β) :
    (script >>= next).run world = (next result).run world' := by
  induction script generalizing world with
  | done value =>
    cases h
    rfl
  | fail reason => cases h
  | ask request next' ih => exact ih _ h

theorem run_load {α : Type} (world : World σ) (handle : Handle) (index : Int64)
    (next : Except Fault Value → Script σ α) :
    (load handle index >>= next).run world =
      (next (world.memory.heap.load handle index)).run world := rfl

theorem run_limit {α : Type} (world : World σ) (handle : Handle)
    (next : Except Fault Nat → Script σ α) :
    (limit handle >>= next).run world =
      (next ((world.memory.heap.get handle).map Allocation.limit)).run world := rfl

/-- The cells that are still to be read are those from `index` on. -/
theorem run_readChars {world : World σ} {alloc : Allocation}
    (hGet : world.memory.heap.get? handle = some alloc) (hUniform : alloc.Uniform)
    (hLimit : alloc.limit < UInt16.size) (cells : List (Option Value)) (index : Nat)
    (hCells : alloc.shown.drop index = cells)
    (reversed : List Char) :
    (readChars handle index cells.length reversed).run world =
      (.ok ((charsOf cells).map fun cs => String.ofList (reversed.reverse ++ cs)), world) := by
  induction cells generalizing index reversed with
  | nil =>
    rw [charsOf, Except.map, List.append_nil]
    rfl
  | cons cell cells ih =>
    have hCell : alloc.shown[index]? = some cell := by
      rw [← List.head?_drop, hCells, List.head?_cons]
    have hRest : alloc.shown.drop (index + 1) = cells := by
      rw [← List.tail_drop, hCells, List.tail_cons]
    have hLoad := Arena.asChar_load hGet hUniform hLimit hCell
    rw [List.length_cons, readChars, run_load]
    rcases hResult : world.memory.heap.load handle (Int64.ofNat index) with fault | value
    · rw [hResult] at hLoad
      rw [charsOf_of_error cells hLoad.symm]
      rfl
    · have hValue : value.asChar = charOf cell := by
        rw [hResult] at hLoad
        exact hLoad
      rcases hChar : value.asChar with fault | c
      · rw [charsOf_of_error cells (hValue.symm.trans hChar)]
        simp only [hChar]
        rfl
      · rw [charsOf_of_ok cells (hValue.symm.trans hChar)]
        simp only [hChar]
        rw [ih (index + 1) hRest (c :: reversed)]
        cases charsOf cells <;> simp [Except.map]

/-- Reading an array as a text gives what its cells spell, and changes nothing. -/
theorem run_readText {heapLimit : Nat} (world : World σ) {alloc : Allocation}
    (h : world.memory.Regular heapLimit) (hGet : world.memory.heap.get? handle = some alloc) :
    (readText handle).run world = (.ok alloc.spelling, world) := by
  have hUniform := h.sound.heap.uniform handle alloc hGet
  rw [readText, run_limit, Arena.get_of_get? hGet]
  simp only [Except.map]
  rw [← Allocation.length_shown hUniform.limit_le,
    run_readChars hGet hUniform (h.limit_lt handle alloc hGet) alloc.shown 0 List.drop_zero]
  rfl

/-! ## Writing -/

/-- Stores characters in the cells of an array, from `index` on. -/
def storing (handle : Handle) : Nat → List Char → List Memory.Action
  | _, [] => []
  | index, c :: cs =>
    .call (.store handle (Int64.ofNat index) (.char c)) :: storing handle (index + 1) cs

section Store

variable {alloc : Allocation} (hLimit : alloc.limit < UInt16.size) {index : Nat}
  (hIndex : index < alloc.limit) (value : Value)

include hLimit hIndex

theorem position_of_lt {heap : Arena} (hGet : heap.get? handle = some alloc) :
    heap.position handle (Int64.ofNat index) = .ok index := by
  rw [Arena.position, Arena.get_of_get? hGet]
  exact Allocation.position_ofNat hLimit hIndex

theorem act_store {memory : Memory} (hGet : memory.heap.get? handle = some alloc) :
    memory.act (.call (.store handle (Int64.ofNat index) value)) =
      memory.withHeap (memory.heap.modify handle (·.write index value)) := by
  have hStore : memory.heap.store handle (Int64.ofNat index) value =
      .ok (memory.heap.modify handle (·.write index value)) := by
    rw [Arena.store, position_of_lt hLimit hIndex hGet]
    rfl
  simp only [Memory.act, Arena.call, hStore]

theorem get?_act_store {memory : Memory} (hGet : memory.heap.get? handle = some alloc)
    (other : Handle) :
    (memory.act (.call (.store handle (Int64.ofNat index) value))).heap.get? other =
      if other = handle then some (alloc.write index value) else memory.heap.get? other := by
  rw [act_store hLimit hIndex value hGet, Memory.withHeap, Arena.get?_modify, hGet,
    Option.map_some]

theorem run_store {α : Type} {world : World σ}
    (hGet : world.memory.heap.get? handle = some alloc)
    (next : Except Fault Unit → Script σ α) :
    (store handle (Int64.ofNat index) value >>= next).run world =
      (next (.ok ())).run (world.withMemory
        (world.memory.act (.call (.store handle (Int64.ofNat index) value)))) := by
  have hAnswer : world.answer (.store handle (Int64.ofNat index) value) =
      (.ok (), world.withMemory
        (world.memory.act (.call (.store handle (Int64.ofNat index) value)))) := by
    rw [act_store hLimit hIndex value hGet, World.answer, position_of_lt hLimit hIndex hGet]
    rfl
  change (next (world.answer (.store handle (Int64.ofNat index) value)).1).run
    (world.answer (.store handle (Int64.ofNat index) value)).2 = _
  rw [hAnswer]

end Store

/-- What becomes of a memory when cells of an array are stored in. -/
structure Stores (handle : Handle) (cells : List (Option Value)) (before after : Memory) :
    Prop where
  collector : after.collector = before.collector
  others : ∀ other, other ≠ handle → after.heap.get? other = before.heap.get? other
  shown : ∃ alloc, after.heap.get? handle = some alloc ∧ alloc.shown = cells

theorem take_succ_set {cells : List (Option Value)} {index : Nat} (h : index < cells.length)
    (cell : Option Value) :
    (cells.set index cell).take (index + 1) = cells.take index ++ [cell] := by
  rw [List.set_eq_take_append_cons_drop, if_pos h, List.take_append]
  simp [Nat.min_eq_left h.le]

/-- Characters that fill the cells from `index` on are all stored, one after the other. -/
theorem stores_storing {heapLimit : Nat} {memory : Memory} {alloc : Allocation}
    (h : memory.Regular heapLimit) (hGet : memory.heap.get? handle = some alloc) {index : Nat}
    {cs : List Char} (hRoom : index + cs.length = alloc.limit) :
    Stores handle (alloc.shown.take index ++ cs.map fun c => some (.char c)) memory
      (memory.after (storing handle index cs)) := by
  have hLimit := h.limit_lt handle alloc hGet
  have hUniform := h.sound.heap.uniform handle alloc hGet
  induction cs generalizing memory alloc index with
  | nil =>
    refine ⟨rfl, fun _ _ => rfl, alloc, hGet, ?_⟩
    rw [List.length_nil, Nat.add_zero] at hRoom
    rw [List.map_nil, List.append_nil, hRoom, ← Allocation.length_shown hUniform.limit_le,
      List.take_length]
  | cons c cs ih =>
    rw [List.length_cons] at hRoom
    have hIndex : index < alloc.limit := by omega
    -- After one store the memory is regular again, with one cell less to fill.
    have hHere := get?_act_store hLimit hIndex (.char c) hGet
    have hSame := congrArg Memory.collector (act_store hLimit hIndex (.char c) hGet)
    have hNext := h.act (.call (.store handle (Int64.ofNat index) (.char c)))
    have hNextGet := (hHere handle).trans (if_pos rfl)
    obtain ⟨hCollector, hOthers, later, hLater, hShown⟩ :=
      ih hNext hNextGet ((Nat.add_right_comm index 1 _).trans hRoom)
        (hNext.limit_lt handle _ hNextGet) (hNext.sound.heap.uniform handle _ hNextGet)
    refine ⟨hCollector.trans hSame, ?_, later, hLater, ?_⟩
    · intro other hNe
      exact (hOthers other hNe).trans ((hHere other).trans (if_neg hNe))
    · rw [hShown, Allocation.shown_write hUniform,
        take_succ_set ((Allocation.length_shown hUniform.limit_le).symm ▸ hIndex),
        List.append_assoc]
      rfl

theorem run_writeChars {heapLimit : Nat} (world : World σ) {alloc : Allocation}
    (h : world.memory.Regular heapLimit) (hGet : world.memory.heap.get? handle = some alloc)
    {index : Nat} {cs : List Char} (hRoom : index + cs.length = alloc.limit) :
    (writeChars handle index cs).run world =
      (.ok (.ok ()), world.withMemory (world.memory.after (storing handle index cs))) := by
  induction cs generalizing world alloc index with
  | nil => rfl
  | cons c cs ih =>
    have hLimit := h.limit_lt handle alloc hGet
    rw [List.length_cons] at hRoom
    have hIndex : index < alloc.limit := by omega
    have hNextGet := (get?_act_store hLimit hIndex (.char c) hGet handle).trans (if_pos rfl)
    have hNext := h.act (.call (.store handle (Int64.ofNat index) (.char c)))
    rw [writeChars, run_store hLimit hIndex (.char c) hGet]
    exact ih (world.withMemory (world.memory.act
      (.call (.store handle (Int64.ofNat index) (.char c))))) hNext hNextGet
      ((Nat.add_right_comm index 1 _).trans hRoom)

/-! ## A new text -/

section WriteText

variable {heapLimit : Nat} {world : World σ} {text : String}

/-- All that writing a text does to a memory with room for it. -/
def writing (memory : Memory) (text : String) : List Memory.Action :=
  let size := UInt16.ofNat text.length
  let handle := (memory.heap.insert size .never).1
  .call (.allocate size .never) :: .register handle :: storing handle 0 text.toList

theorem run_allocate {α : Type} (world : World σ) (size : UInt16) (mode : TraceMode)
    (next : Except Fault Handle → Script σ α) :
    (allocate size mode >>= next).run world =
      (next (world.answer (.allocate size mode)).1).run
        (world.answer (.allocate size mode)).2 := rfl

theorem run_writeText_of_long (h : UInt16.size ≤ text.length) :
    (writeText text).run world = (.ok (.error .memory), world) := by
  rw [writeText, if_pos (by rwa [String.length_toList])]
  rfl

theorem run_writeText_of_full (h : world.memory.heap.isFull = true) :
    (writeText text).run world = (.ok (.error .memory), world) := by
  rw [writeText]
  split
  · rfl
  · rw [run_allocate, World.answer, if_pos h]
    rfl

theorem after_making {memory : Memory} (hRoom : memory.heap.isFull = false) (size : UInt16)
    (mode : TraceMode) :
    memory.after [.call (.allocate size mode), .register (memory.heap.insert size mode).1] =
      (memory.insert size mode).2 := by
  have hMake : memory.act (.call (.allocate size mode)) =
      memory.withHeap (memory.heap.insert size mode).2 := by
    rw [Memory.act, Arena.call, Arena.allocate, hRoom]
    rfl
  rw [Memory.after, List.foldl_cons, hMake]
  rfl

theorem regular_making {memory : Memory} (h : memory.Regular heapLimit)
    (hRoom : memory.heap.isFull = false) (size : UInt16) (mode : TraceMode) :
    (memory.insert size mode).2.Regular heapLimit := by
  rw [← after_making hRoom]
  exact h.after _

theorem after_writing {memory : Memory} (hRoom : memory.heap.isFull = false) (text : String) :
    memory.after (writing memory text) =
      (memory.insert (UInt16.ofNat text.length) .never).2.after
        (storing (memory.heap.insert (UInt16.ofNat text.length) .never).1 0 text.toList) := by
  rw [← after_making hRoom]
  rfl

/-- The array that is made has a cell for each character. -/
theorem get?_making {memory : Memory} (hs : memory.heap.Sound)
    (hRoom : memory.heap.isFull = false) (hLength : text.length < UInt16.size) :
    ∃ alloc, 0 + text.toList.length = alloc.limit ∧
      (memory.insert (UInt16.ofNat text.length) .never).2.heap.get?
        (memory.heap.insert (UInt16.ofNat text.length) .never).1 = some alloc := by
  refine ⟨memory.heap.newAllocation (UInt16.ofNat text.length) .never, ?_, ?_⟩
  · rw [Nat.zero_add, String.length_toList, Arena.newAllocation_eq hs]
    exact (UInt16.toNat_ofNat_of_lt' hLength).symm
  · exact (Arena.get?_insert hs hRoom _ _ _).trans (if_pos rfl)

/-- With room in the heap, a text is written by making an array and storing its characters. -/
theorem run_writeText_of_room (h : world.memory.Regular heapLimit)
    (hLength : text.length < UInt16.size) (hRoom : world.memory.heap.isFull = false) :
    (writeText text).run world =
      (.ok (.ok (world.memory.heap.insert (UInt16.ofNat text.length) .never).1),
        world.withMemory (world.memory.after (writing world.memory text))) := by
  have hAnswer : world.answer (.allocate (UInt16.ofNat text.length) .never) =
      (.ok (world.memory.heap.insert (UInt16.ofNat text.length) .never).1,
        world.withMemory (world.memory.insert (UInt16.ofNat text.length) .never).2) := by
    rw [World.answer, if_neg (by simp [hRoom])]
    rfl
  obtain ⟨alloc, hLimit, hGet⟩ := get?_making h.sound.heap hRoom hLength
  have hWrite := run_writeChars
    (world.withMemory (world.memory.insert (UInt16.ofNat text.length) .never).2)
    (regular_making h hRoom _ _) hGet hLimit
  rw [writeText, if_neg (by rwa [String.length_toList, Nat.not_le]), String.length_toList,
    run_allocate, hAnswer]
  refine (run_bind_of_ok hWrite _).trans ?_
  rw [after_writing hRoom]
  rfl

/-- The array of a new text is full of its characters, and nothing else has changed. -/
theorem stores_writing {memory : Memory} (h : memory.Regular heapLimit)
    (hLength : text.length < UInt16.size) (hRoom : memory.heap.isFull = false) :
    Stores (memory.heap.insert (UInt16.ofNat text.length) .never).1
      (text.toList.map fun c => some (.char c))
      (memory.insert (UInt16.ofNat text.length) .never).2
      (memory.after (writing memory text)) := by
  obtain ⟨alloc, hLimit, hGet⟩ := get?_making h.sound.heap hRoom hLength
  rw [after_writing hRoom]
  exact stores_storing (regular_making h hRoom _ _) hGet hLimit

end WriteText

/-! ## The law -/

/-- A text was written to `handle`, from a memory to which `past` had led. -/
structure Writes (first : Memory) (past : List Memory.Action) (world : World σ) (text : String)
    (handle : Handle) (written : World σ) : Prop where
  fresh : world.memory.heap.contains handle = false
  /-- The handle was never live before, unless its slot has been released so often since that its
  generations started again. -/
  unused : ∀ earlier later, past = earlier ++ later →
    (first.after earlier).releasesIn later handle.index.toNat < 2 ^ 32 →
    (first.after earlier).heap.contains handle = false
  /-- The array has one cell for each character. -/
  length : ∃ alloc, written.memory.heap.get? handle = some alloc ∧ alloc.limit = text.length
  others : ∀ other, other ≠ handle →
    written.memory.heap.get? other = world.memory.heap.get? other
  /-- The array belongs to the current frame. -/
  owner : Frame.Extends written.memory.heap [handle] [] world.memory.collector.current
    written.memory.collector.current
  outer : written.memory.collector.outer = world.memory.collector.outer
  frameLimit : written.memory.collector.frameLimit = world.memory.collector.frameLimit
  haltRequested : written.haltRequested = world.haltRequested
  host : written.host = world.host
  readBack : (readText handle).run written = (.ok (.ok text), written)
  /-- The text is there to be read as long as the array is live and nothing is stored in it. -/
  text : ∀ (later : List Memory.Action) (now : World σ),
    written.memory.after later = now.memory →
    (∀ action ∈ later, action.written? ≠ some handle) →
    written.memory.releasesIn later handle.index.toNat < 2 ^ 32 →
    now.memory.heap.contains handle = true →
    (readText handle).run now = (.ok (.ok text), now)

theorem isFull_eq_false_iff {heapLimit : Nat} {memory : Memory} (h : memory.Regular heapLimit)
    (hLimit : heapLimit ≤ 2 ^ 32) :
    memory.heap.isFull = false ↔ memory.heap.live < heapLimit := by
  have hRoom := Arena.isFull_eq_false_iff h.sound.heap h.counted (h.limit_eq ▸ hLimit)
  rwa [h.limit_eq] at hRoom

theorem writes_of_room {heapLimit : Nat} {first : Memory} {past : List Memory.Action}
    {world : World σ} {text : String} (hFirst : first.Regular heapLimit)
    (hPast : first.after past = world.memory) (hLength : text.length < UInt16.size)
    (hRoom : world.memory.heap.isFull = false) :
    Writes first past world text
      (world.memory.heap.insert (UInt16.ofNat text.length) .never).1
      (world.withMemory (world.memory.after (writing world.memory text))) := by
  have h : world.memory.Regular heapLimit := hPast ▸ hFirst.after past
  have hs := h.sound.heap
  have hMade := Arena.get?_insert hs hRoom (UInt16.ofNat text.length) .never
  have hWritten := h.after (writing world.memory text)
  obtain ⟨hCollector, hOthers, alloc, hGet, hShown⟩ := stores_writing h hLength hRoom
  have hLimit : alloc.limit = text.length := by
    rw [← Allocation.length_shown (hWritten.sound.heap.limit_le _ alloc hGet), hShown,
      List.length_map, String.length_toList]
  -- The handles that are live at the end were live when the array was made.
  have hLive : ∀ other,
      (world.memory.after (writing world.memory text)).heap.contains other = true →
      (world.memory.heap.insert (UInt16.ofNat text.length) .never).2.contains other = true := by
    intro other hLive
    by_cases hOther : other = (world.memory.heap.insert (UInt16.ofNat text.length) .never).1
    · exact (Arena.contains_insert hs hRoom _ _ other).2 (Or.inl hOther)
    · rwa [Arena.contains, hOthers other hOther] at hLive
  constructor
  case fresh => exact Arena.not_contains_new hs hRoom _ _
  case unused =>
    intro earlier later hSplit hReleases
    have hEnd : (first.after earlier).after later = world.memory := by
      rw [← Memory.after_append, ← hSplit, hPast]
    rw [← hEnd] at hRoom hReleases ⊢
    exact Memory.not_contains_of_new (hFirst.after earlier).sound hRoom _ _ hReleases
  case length => exact ⟨alloc, hGet, hLimit⟩
  case others =>
    intro other hOther
    exact (hOthers other hOther).trans ((hMade other).trans (if_neg hOther))
  case owner =>
    obtain ⟨keep, hKeep, hOwned, hTraced⟩ :=
      Frame.extends_own (world.memory.heap.insert (UInt16.ofNat text.length) .never).2
        world.memory.collector.current
        (world.memory.heap.insert (UInt16.ofNat text.length) .never).1
    refine ⟨keep, fun other hOther => hKeep other (hLive other hOther), ?_, ?_⟩ <;>
      simp only [World.memory_withMemory, hCollector] <;>
      simp only [Memory.insert, Collector.register, Collector.current_modifyCurrent]
    · exact hOwned
    · exact hTraced
  case outer =>
    rw [World.memory_withMemory, hCollector]
    exact Collector.outer_modifyCurrent _ _
  case frameLimit =>
    rw [World.memory_withMemory, hCollector]
    exact Collector.frameLimit_modifyCurrent _ _
  case haltRequested => rfl
  case host => rfl
  case readBack =>
    have hRead := run_readText
      (world.withMemory (world.memory.after (writing world.memory text))) hWritten hGet
    rw [hRead, Allocation.spelling_eq_ok.2 hShown]
  case text =>
    intro later now hLater hStores hReleases hContains
    rw [← hLater] at hContains
    obtain ⟨last, hLast, hSame⟩ :=
      Memory.shown_after hWritten.sound hGet hStores hReleases hContains
    have hNow := hWritten.after later
    rw [World.memory_withMemory] at hLater
    rw [hLater] at hLast hNow
    rw [run_readText now hNow hLast, Allocation.spelling_eq_ok.2 (hSame.trans hShown)]

/-- What reading an array as a text gives. -/
structure Reads (alloc : Allocation) (answer : Except Fault String) : Prop where
  length : alloc.shown.length = alloc.limit
  ok_iff : (∃ text, answer = .ok text) ↔ ∀ cell ∈ alloc.shown, ∃ c, cell = some (.char c)
  text : ∀ text, answer = .ok text → alloc.shown = text.toList.map fun c => some (.char c)
  /-- The first cell that is not a written character decides about the fault. -/
  error_iff : ∀ fault, answer = .error fault ↔
    ∃ before cell rest, alloc.shown = before ++ cell :: rest ∧
      (∀ other ∈ before, ∃ c, other = some (.char c)) ∧
      ((cell = none ∧ fault = .uninitializedRead) ∨
        ∃ value, cell = some value ∧ (∀ c, value ≠ .char c) ∧ fault = .internal)

theorem reads_spelling {alloc : Allocation} (h : alloc.limit ≤ alloc.capacity) :
    Reads alloc alloc.spelling where
  length := Allocation.length_shown h
  ok_iff := Allocation.exists_spelling_iff
  text _ := Allocation.spelling_eq_ok.1
  error_iff fault := by
    simp only [Allocation.spelling_eq_error, charOf_eq_error]

/-- Texts survive on the heap. After any actions, a text that is not too long for an array is
written to a new array of the current frame as long as the heap has room; it is read back then
and after any later actions that neither store in the array nor release it. A text that is too
long, or that finds the heap full, is refused and changes nothing. Reading any live array gives a
text exactly when all of its cells are written characters; otherwise the first other cell decides
about the fault. -/
theorem texts_survive_on_the_heap (heapLimit poolLimit frameLimit : Nat)
    (hLimit : heapLimit ≤ 2 ^ 32) (past : List Memory.Action) (world : World σ)
    (hPast : (Memory.make heapLimit poolLimit frameLimit).after past = world.memory) :
    (∀ text : String, text.length ≤ 65535 → world.memory.heap.live < heapLimit →
      ∃ handle written, (writeText text).run world = (.ok (.ok handle), written) ∧
        Writes (Memory.make heapLimit poolLimit frameLimit) past world text handle written) ∧
    (∀ text : String, ¬ (text.length ≤ 65535 ∧ world.memory.heap.live < heapLimit) →
      (writeText text).run world = (.ok (.error .memory), world)) ∧
    ∀ handle alloc, world.memory.heap.get? handle = some alloc →
      ∃ answer, (readText handle).run world = (.ok answer, world) ∧ Reads alloc answer := by
  have hFirst := Memory.regular_make heapLimit poolLimit frameLimit
  have h : world.memory.Regular heapLimit := hPast ▸ hFirst.after past
  have hRoom := isFull_eq_false_iff h hLimit
  refine ⟨?_, ?_, ?_⟩
  · intro text hLength hLive
    have hShort : text.length < UInt16.size := Nat.lt_succ_of_le hLength
    exact ⟨_, _, run_writeText_of_room h hShort (hRoom.2 hLive),
      writes_of_room hFirst hPast hShort (hRoom.2 hLive)⟩
  · intro text hNot
    by_cases hLength : text.length ≤ 65535
    · have hFull : world.memory.heap.isFull = true := by
        rw [← Bool.not_eq_false, hRoom]
        exact fun hLive => hNot ⟨hLength, hLive⟩
      exact run_writeText_of_full hFull
    · exact run_writeText_of_long (Nat.not_le.1 hLength)
  · intro handle alloc hGet
    exact ⟨_, run_readText world h hGet, reads_spelling (h.sound.heap.limit_le handle alloc hGet)⟩

/-- A text of five characters goes into the store of a released array of seven cells. Then a frame
is opened, another array is made in it, filled and released, and the text is still read back. -/
theorem a_text_in_a_recycled_store_is_read_back :
    let past : List Memory.Action :=
      [.call (.allocate 7 .always), .register ⟨0, 0⟩, .call (.store ⟨0, 0⟩ 6 (.long 5)),
       .call (.release ⟨0, 0⟩)]
    let world : World Unit := ⟨(Memory.make 2 1 4).after past, false, ()⟩
    let later : List Memory.Action :=
      [.openFrame, .call (.allocate 1 .always), .register ⟨1, 0⟩,
       .call (.store ⟨1, 0⟩ 0 (.char 'x')), .trace ⟨0, 1⟩, .call (.release ⟨1, 0⟩)]
    let written := ((writeText "héllo").run world).2
    let now := written.withMemory (written.memory.after later)
    ((writeText "héllo").run world).1 = .ok (.ok ⟨0, 1⟩) ∧
      (written.memory.heap.get? ⟨0, 1⟩).map Allocation.capacity = some 7 ∧
      (readText ⟨0, 1⟩).run now = (.ok (.ok "héllo"), now) := by
  intro past world later written now
  have hHandle : ((writeText "héllo").run world).1 = .ok (.ok ⟨0, 1⟩) := by decide +kernel
  have hReleases : written.memory.releasesIn later 0 = 0 := by decide +kernel
  have hLive : now.memory.heap.contains ⟨0, 1⟩ = true := by decide +kernel
  obtain ⟨hWrite, -, -⟩ := texts_survive_on_the_heap 2 1 4 (by decide) past world rfl
  obtain ⟨handle, after, hRun, hWrites⟩ := hWrite "héllo" (by decide) (by decide +kernel)
  have hAfter : written = after := congrArg Prod.snd hRun
  rw [hRun, Except.ok.injEq, Except.ok.injEq] at hHandle
  subst hHandle hAfter
  refine ⟨by rw [hRun], by decide +kernel, ?_⟩
  apply hWrites.text later now rfl (by decide) _ hLive
  exact hReleases.trans_lt (by decide)

end Script

end RegisterMachine

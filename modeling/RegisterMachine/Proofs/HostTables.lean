-- The ids of host functions. A journal lists the calls that were made to a table with their
-- answers; which function has which id, and which symbol was imported, is said from the journal
-- alone. The law at the end says that the table answers as its journal says, whatever calls
-- failed in between and whatever is called later.
import RegisterMachine.Proofs.HostCalls

namespace RegisterMachine

variable {σ : Type}

/-- An id that was recorded is found under its library and its symbol, and nothing else
changes. -/
theorem Libraries.lookup_record (libraries : Libraries) (library symbol : String) (id : UInt16)
    (pair : String × String) :
    (libraries.record library symbol id).lookup pair.1 pair.2 =
      if (library, symbol) = pair then some id else libraries.lookup pair.1 pair.2 := by
  obtain ⟨other, name⟩ := pair
  simp only [lookup, record, Std.HashMap.getElem?_alter, beq_iff_eq, Prod.mk.injEq]
  by_cases hLibrary : library = other
  · subst hLibrary
    rw [if_pos rfl, Option.bind_some, Std.HashMap.getElem?_insert]
    rcases libraries.symbols[library]? with _ | symbols <;> simp
  · simp [hLibrary]

namespace ForeignTable

/-! ## The limit of a table -/

/-- The most functions in a table. -/
def capacity : Nat := UInt16.size - 1

theorem nextId?_of_lt {size : Nat} (h : size < capacity) :
    nextId? size = some (UInt16.ofNat size) := by
  have hSize : size < UInt16.size := h.trans (by decide)
  have hLast : UInt16.ofNat size ≠ 0xFFFF := by
    intro hEq
    have hNat := congrArg UInt16.toNat hEq
    rw [UInt16.toNat_ofNat_of_lt' hSize] at hNat
    exact absurd (hNat ▸ h) (by decide)
  rw [nextId?, if_pos hSize]
  exact if_neg hLast

theorem nextId?_of_le {size : Nat} (h : capacity ≤ size) : nextId? size = none := by
  unfold nextId?
  split
  · rename_i hSize
    have hEq : size = 65535 := Nat.le_antisymm (Nat.le_of_lt_succ hSize) h
    subst hEq
    rfl
  · rfl

/-! ## Calls and their journal -/

/-- A call that can change a table. Each import comes with a resolver of its own. -/
inductive Call (σ : Type) where
  | add (function : HostFunction σ)
  | importSymbol (resolve : String → String → Option (HostFunction σ)) (library symbol : String)

def call (table : ForeignTable σ) : Call σ → Except Error UInt16 × ForeignTable σ
  | .add function => table.add function
  | .importSymbol resolve library symbol => table.importSymbol resolve library symbol

/-- The function that a call would register, if there is one. -/
def Call.function? : Call σ → Option (HostFunction σ)
  | .add function => some function
  | .importSymbol resolve library symbol => resolve library symbol

/-- The library and the symbol that an import names. -/
def Call.pair? : Call σ → Option (String × String)
  | .add _ => none
  | .importSymbol _ library symbol => some (library, symbol)

/-- Calls with their answers, the latest first. -/
abbrev Journal (σ : Type) := List (Call σ × Except Error UInt16)

def callNext (state : Journal σ × ForeignTable σ) (call : Call σ) : Journal σ × ForeignTable σ :=
  let (answer, table) := state.2.call call
  ((call, answer) :: state.1, table)

/-- Makes calls one after the other. -/
def runCalls (state : Journal σ × ForeignTable σ) (calls : List (Call σ)) :
    Journal σ × ForeignTable σ :=
  calls.foldl callNext state

namespace Journal

/-- The imports that went well, with the ids that they gave. -/
def imports : Journal σ → List ((String × String) × UInt16)
  | [] => []
  | (.importSymbol _ library symbol, .ok id) :: past => ((library, symbol), id) :: imports past
  | _ :: past => imports past

/-- Whether a call imports what was imported before. -/
def repeats (journal : Journal σ) (call : Call σ) : Bool :=
  call.pair?.any fun pair => (imports journal).any (·.1 = pair)

/-- The functions that were registered, with their ids. Every call registers that goes well,
unless it imports what was imported before. -/
def registered : Journal σ → List (HostFunction σ × UInt16)
  | [] => []
  | (_, .error _) :: past => registered past
  | (call, .ok id) :: past =>
    if repeats past call then registered past
    else (call.function?.map (·, id)).toList ++ registered past

theorem imports_error (call : Call σ) (error : Error) (past : Journal σ) :
    imports ((call, .error error) :: past) = imports past := by
  cases call <;> rfl

theorem registered_subset (entry : Call σ × Except Error UInt16) (past : Journal σ) :
    registered past ⊆ registered (entry :: past) := by
  obtain ⟨call, error | id⟩ := entry
  · exact List.Subset.refl _
  · rw [registered]
    split
    · exact List.Subset.refl _
    · exact List.subset_append_right _ _

end Journal

/-! ## What a call does -/

/-- All that a call can do to a table. -/
inductive Does (table : ForeignTable σ) :
    Call σ → Except Error UInt16 → ForeignTable σ → Prop
  | add {function : HostFunction σ} (hRoom : table.size < capacity) :
      Does table (.add function) (.ok (UInt16.ofNat table.size))
        { table with functions := table.functions.push function }
  | found {resolve : String → String → Option (HostFunction σ)} {library symbol : String}
      {id : UInt16} (hFound : table.imported? library symbol = some id) :
      Does table (.importSymbol resolve library symbol) (.ok id) table
  | imported {resolve : String → String → Option (HostFunction σ)} {library symbol : String}
      {function : HostFunction σ} (hNew : table.imported? library symbol = none)
      (hResolve : resolve library symbol = some function) (hRoom : table.size < capacity) :
      Does table (.importSymbol resolve library symbol) (.ok (UInt16.ofNat table.size))
        { functions := table.functions.push function
          libraries := table.libraries.record library symbol (UInt16.ofNat table.size) }
  | unresolved {resolve : String → String → Option (HostFunction σ)} {library symbol : String}
      (hNew : table.imported? library symbol = none)
      (hResolve : resolve library symbol = none) :
      Does table (.importSymbol resolve library symbol)
        (.error (.unresolvedForeign library symbol)) table
  | full {call : Call σ} {function : HostFunction σ}
      (hNew : ∀ pair, call.pair? = some pair → table.imported? pair.1 pair.2 = none)
      (hFunction : call.function? = some function) (hFull : capacity ≤ table.size) :
      Does table call (.error .foreignTableFull) table

theorem does_call (table : ForeignTable σ) (call : Call σ) :
    table.Does call (table.call call).1 (table.call call).2 := by
  cases call with
  | add function =>
    simp only [ForeignTable.call, ForeignTable.add]
    rcases Nat.lt_or_ge table.size capacity with hRoom | hFull
    · rw [nextId?_of_lt hRoom]
      exact .add hRoom
    · rw [nextId?_of_le hFull]
      exact .full (by rintro _ ⟨⟩) rfl hFull
  | importSymbol resolve library symbol =>
    simp only [ForeignTable.call, importSymbol]
    rcases hFound : table.imported? library symbol with _ | id
    · rcases hResolve : resolve library symbol with _ | function
      · exact .unresolved hFound hResolve
      · simp only [ForeignTable.add]
        rcases Nat.lt_or_ge table.size capacity with hRoom | hFull
        · rw [nextId?_of_lt hRoom]
          exact .imported hFound hResolve hRoom
        · rw [nextId?_of_le hFull]
          exact .full (by rintro _ ⟨⟩; exact hFound) hResolve hFull
    · exact .found hFound

/-- A call that fails changes nothing. -/
theorem Does.eq_of_error {table after : ForeignTable σ} {call : Call σ} {error : Error}
    (h : table.Does call (.error error) after) : after = table := by
  cases h <;> rfl

/-! ## The table follows its journal -/

/-- The ids count the registrations, and each function stands where its id says. -/
structure Numbered (functions : Array (HostFunction σ))
    (registered : List (HostFunction σ × UInt16)) : Prop where
  functions : functions.toList = (registered.map Prod.fst).reverse
  ids : (registered.map (·.2.toNat)).reverse = List.range registered.length
  room : registered.length ≤ capacity

section Numbered

variable {functions : Array (HostFunction σ)} {registered : List (HostFunction σ × UInt16)}

theorem Numbered.size_eq (h : Numbered functions registered) :
    functions.size = registered.length := by
  rw [← Array.length_toList, h.functions, List.length_reverse, List.length_map]

theorem Numbered.push (h : Numbered functions registered) (hRoom : functions.size < capacity)
    (function : HostFunction σ) :
    Numbered (functions.push function)
      ((function, UInt16.ofNat functions.size) :: registered) := by
  have hId : (UInt16.ofNat functions.size).toNat = functions.size :=
    UInt16.toNat_ofNat_of_lt' (hRoom.trans (by decide))
  constructor
  · rw [Array.toList_push, h.functions, List.map_cons, List.reverse_cons]
  · rw [List.map_cons, List.reverse_cons, h.ids, List.length_cons, List.range_succ, hId, h.size_eq]
  · rw [List.length_cons, ← h.size_eq]
    exact hRoom

theorem Numbered.toNat_lt (h : Numbered functions registered) {function : HostFunction σ}
    {id : UInt16} (hMem : (function, id) ∈ registered) : id.toNat < registered.length := by
  have hId : id.toNat ∈ (registered.map (·.2.toNat)).reverse := by
    rw [List.mem_reverse, List.mem_map]
    exact ⟨(function, id), hMem, rfl⟩
  rw [h.ids] at hId
  exact List.mem_range.1 hId

/-- The id of a registration is its place, counted from the first one. -/
theorem Numbered.getElem?_reverse (h : Numbered functions registered)
    {function : HostFunction σ} {id : UInt16} (hMem : (function, id) ∈ registered) :
    registered.reverse[id.toNat]? = some (function, id) := by
  obtain ⟨place, hPlace⟩ := List.getElem?_of_mem (List.mem_reverse.2 hMem)
  have hLt : place < registered.length := by
    rw [← List.length_reverse]
    exact (List.getElem?_eq_some_iff.1 hPlace).1
  have hId : (List.range registered.length)[place]? = some id.toNat := by
    rw [← h.ids, ← List.map_reverse, List.getElem?_map, hPlace, Option.map_some]
  rw [List.getElem?_range hLt] at hId
  rw [← Option.some.inj hId]
  exact hPlace

theorem Numbered.getElem? (h : Numbered functions registered) {function : HostFunction σ}
    {id : UInt16} (hMem : (function, id) ∈ registered) :
    functions[id.toNat]? = some function := by
  rw [← Array.getElem?_toList, h.functions, ← List.map_reverse, List.getElem?_map,
    h.getElem?_reverse hMem, Option.map_some]

/-- Every place is the place of a registration. -/
theorem Numbered.exists_of_lt (h : Numbered functions registered) {place : Nat}
    (hPlace : place < functions.size) :
    ∃ function id, (function, id) ∈ registered ∧ id.toNat = place := by
  rw [h.size_eq] at hPlace
  have hId : place ∈ (registered.map (·.2.toNat)).reverse := by
    rw [h.ids]
    exact List.mem_range.2 hPlace
  rw [List.mem_reverse, List.mem_map] at hId
  obtain ⟨⟨function, id⟩, hMem, hEq⟩ := hId
  exact ⟨function, id, hMem, hEq⟩

end Numbered

structure Follows (table : ForeignTable σ) (journal : Journal σ) : Prop where
  numbered : Numbered table.functions journal.registered
  imports : ∀ pair id, table.imported? pair.1 pair.2 = some id ↔ (pair, id) ∈ journal.imports
  /-- An id that was given to an import is the id of a function. -/
  issued : ∀ pair id, (pair, id) ∈ journal.imports →
    ∃ function, (function, id) ∈ journal.registered
  /-- No id was given to two pairs. -/
  apart : ∀ pair other id, (pair, id) ∈ journal.imports → (other, id) ∈ journal.imports →
    pair = other

theorem imported?_empty (library symbol : String) :
    ({} : ForeignTable σ).imported? library symbol = none := by
  simp [imported?, Libraries.lookup]

theorem follows_empty : Follows ({} : ForeignTable σ) [] := by
  refine ⟨⟨rfl, rfl, Nat.zero_le _⟩, ?_, ?_, ?_⟩ <;> simp [Journal.imports, imported?_empty]

section Follows

variable {table after : ForeignTable σ} {journal : Journal σ} {call : Call σ}

theorem Follows.repeats_iff (h : table.Follows journal) :
    journal.repeats call = true ↔
      ∃ pair id, call.pair? = some pair ∧ table.imported? pair.1 pair.2 = some id := by
  simp only [Journal.repeats, Option.any_eq_true, List.any_eq_true, decide_eq_true_eq, h.imports]
  constructor
  · rintro ⟨pair, hPair, ⟨other, id⟩, hMem, hEq⟩
    exact ⟨pair, id, hPair, hEq ▸ hMem⟩
  · rintro ⟨pair, id, hPair, hMem⟩
    exact ⟨pair, hPair, (pair, id), hMem, rfl⟩

/-- A call that finds nothing imported registers its function when it goes well. -/
theorem Follows.registered_of_new (h : table.Follows journal) (call : Call σ)
    (hNew : ∀ pair, call.pair? = some pair → table.imported? pair.1 pair.2 = none)
    {function : HostFunction σ} (hFunction : call.function? = some function) (id : UInt16) :
    Journal.registered ((call, .ok id) :: journal) = (function, id) :: journal.registered := by
  have hRepeats : ¬ journal.repeats call = true := by
    rw [h.repeats_iff]
    rintro ⟨pair, id, hPair, hSome⟩
    rw [hNew pair hPair] at hSome
    cases hSome
  rw [Journal.registered, if_neg hRepeats, hFunction]
  rfl

theorem Follows.registered_of_found (h : table.Follows journal) (call : Call σ)
    {pair : String × String} {id : UInt16} (hPair : call.pair? = some pair)
    (hFound : table.imported? pair.1 pair.2 = some id) (answer : UInt16) :
    Journal.registered ((call, .ok answer) :: journal) = journal.registered := by
  rw [Journal.registered, if_pos (h.repeats_iff.2 ⟨pair, id, hPair, hFound⟩)]

theorem Follows.error (h : table.Follows journal) (call : Call σ) (error : Error) :
    table.Follows ((call, .error error) :: journal) := by
  refine ⟨h.numbered, ?_, ?_, ?_⟩ <;> rw [Journal.imports_error]
  · exact h.imports
  · exact h.issued
  · exact h.apart

/-- The ids that imports were given are below the number of registrations, so the next id is
none of them. -/
theorem Follows.ne_next (h : table.Follows journal) (hRoom : table.size < capacity)
    {pair : String × String} {id : UInt16} (hMem : (pair, id) ∈ journal.imports) :
    id ≠ UInt16.ofNat table.size := by
  rintro rfl
  obtain ⟨function, hRegistered⟩ := h.issued pair _ hMem
  have hLt := h.numbered.toNat_lt hRegistered
  rw [UInt16.toNat_ofNat_of_lt' (hRoom.trans (by decide)), ← h.numbered.size_eq] at hLt
  exact Nat.lt_irrefl _ hLt

theorem Follows.add (h : table.Follows journal) (hRoom : table.size < capacity)
    (function : HostFunction σ) :
    Follows { table with functions := table.functions.push function }
      ((.add function, .ok (UInt16.ofNat table.size)) :: journal) := by
  have hRegistered := h.registered_of_new (.add function) (by rintro _ ⟨⟩) rfl
    (UInt16.ofNat table.size)
  refine ⟨?_, h.imports, fun pair id hMem => ?_, h.apart⟩ <;> rw [hRegistered]
  · exact h.numbered.push hRoom function
  · exact (h.issued pair id hMem).imp fun _ => List.mem_cons_of_mem _

theorem Follows.found (h : table.Follows journal)
    (resolve : String → String → Option (HostFunction σ)) {library symbol : String} {id : UInt16}
    (hFound : table.imported? library symbol = some id) :
    table.Follows ((.importSymbol resolve library symbol, .ok id) :: journal) := by
  have hRegistered := h.registered_of_found (.importSymbol resolve library symbol) rfl hFound id
  have hImports : ∀ entry, entry ∈ ((library, symbol), id) :: journal.imports ↔
      entry ∈ journal.imports := by
    intro entry
    rw [List.mem_cons, or_iff_right_of_imp]
    rintro rfl
    exact (h.imports _ _).1 hFound
  refine ⟨?_, fun pair id => ?_, fun pair id hMem => ?_, fun pair other id hMem hOther => ?_⟩
  · rw [hRegistered]
    exact h.numbered
  · exact (h.imports pair id).trans (hImports _).symm
  · rw [hRegistered]
    exact h.issued pair id ((hImports _).1 hMem)
  · exact h.apart pair other id ((hImports _).1 hMem) ((hImports _).1 hOther)

theorem Follows.imported (h : table.Follows journal)
    {resolve : String → String → Option (HostFunction σ)} {library symbol : String}
    {function : HostFunction σ} (hNew : table.imported? library symbol = none)
    (hResolve : resolve library symbol = some function) (hRoom : table.size < capacity) :
    Follows
      { functions := table.functions.push function
        libraries := table.libraries.record library symbol (UInt16.ofNat table.size) }
      ((.importSymbol resolve library symbol, .ok (UInt16.ofNat table.size)) :: journal) := by
  have hRegistered := h.registered_of_new (.importSymbol resolve library symbol)
    (by rintro _ ⟨⟩; exact hNew) hResolve (UInt16.ofNat table.size)
  refine ⟨?_, fun pair id => ?_, fun pair id hMem => ?_, fun pair other id hMem hOther => ?_⟩
  · rw [hRegistered]
    exact h.numbered.push hRoom function
  · -- The pair had no id before, so that the new one is its only one.
    rw [imported?, Libraries.lookup_record, Journal.imports, List.mem_cons, ← h.imports]
    by_cases hEq : (library, symbol) = pair
    · subst hEq
      simp [hNew, eq_comm]
    · simp [hEq, Ne.symm hEq, imported?]
  · rw [hRegistered]
    rcases List.mem_cons.1 hMem with hEq | hMem
    · cases hEq
      exact ⟨function, List.mem_cons_self⟩
    · exact (h.issued pair id hMem).imp fun _ => List.mem_cons_of_mem _
  · rcases List.mem_cons.1 hMem with hEq | hMem <;>
      rcases List.mem_cons.1 hOther with hEq' | hOther
    · cases hEq
      cases hEq'
      rfl
    · cases hEq
      exact absurd rfl (h.ne_next hRoom hOther)
    · cases hEq'
      exact absurd rfl (h.ne_next hRoom hMem)
    · exact h.apart pair other id hMem hOther

theorem Follows.does (h : table.Follows journal) {answer : Except Error UInt16}
    (hDoes : table.Does call answer after) : after.Follows ((call, answer) :: journal) := by
  cases hDoes with
  | add hRoom => exact h.add hRoom _
  | found hFound => exact h.found _ hFound
  | imported hNew hResolve hRoom => exact h.imported hNew hResolve hRoom
  | unresolved | full => exact h.error _ _

theorem Follows.along {state : Journal σ × ForeignTable σ} (h : state.2.Follows state.1)
    (calls : List (Call σ)) :
    (runCalls state calls).2.Follows (runCalls state calls).1 := by
  induction calls generalizing state with
  | nil => exact h
  | cons call calls ih => exact ih (h.does (does_call state.2 call))

end Follows

/-- What was registered stays registered. -/
theorem registered_subset_runCalls (state : Journal σ × ForeignTable σ) (calls : List (Call σ)) :
    state.1.registered ⊆ (runCalls state calls).1.registered := by
  induction calls generalizing state with
  | nil => exact List.Subset.refl _
  | cons call calls ih =>
    exact List.Subset.trans (Journal.registered_subset (call, (state.2.call call).1) state.1)
      (ih (callNext state call))

section Answers

variable {table : ForeignTable σ} {journal : Journal σ}

/-- A call goes well when its symbol was imported before, or when it has a function and there
is room. -/
theorem Follows.ok_iff (h : table.Follows journal) (call : Call σ) :
    (∃ id, (table.call call).1 = .ok id) ↔
      journal.repeats call = true ∨
        (∃ function, call.function? = some function) ∧ journal.registered.length < capacity := by
  have hSize : table.size = journal.registered.length := h.numbered.size_eq
  rw [h.repeats_iff, ← hSize]
  have hDoes := table.does_call call
  generalize (table.call call).1 = answer at hDoes ⊢
  generalize (table.call call).2 = after at hDoes
  cases hDoes with
  | add hRoom => exact iff_of_true ⟨_, rfl⟩ (Or.inr ⟨⟨_, rfl⟩, hRoom⟩)
  | found hFound => exact iff_of_true ⟨_, rfl⟩ (Or.inl ⟨_, _, rfl, hFound⟩)
  | imported hNew hResolve hRoom => exact iff_of_true ⟨_, rfl⟩ (Or.inr ⟨⟨_, hResolve⟩, hRoom⟩)
  | unresolved hNew hResolve =>
    refine iff_of_false (by rintro ⟨_, ⟨⟩⟩) ?_
    rintro (⟨_, id, ⟨⟩, hFound⟩ | ⟨⟨function, hFunction⟩, -⟩)
    · cases hNew.symm.trans hFound
    · cases hResolve.symm.trans hFunction
  | full hNew hFunction hFull =>
    refine iff_of_false (by rintro ⟨_, ⟨⟩⟩) ?_
    rintro (⟨pair, id, hPair, hFound⟩ | ⟨-, hRoom⟩)
    · cases (hNew pair hPair).symm.trans hFound
    · exact absurd hRoom (Nat.not_lt.2 hFull)

/-- A call fails because its symbol cannot be resolved, or because the table is full. -/
theorem Follows.error_cases (h : table.Follows journal) {call : Call σ} {error : Error}
    (hError : (table.call call).1 = .error error) :
    (call.function? = none ∧
      ∃ library symbol, call.pair? = some (library, symbol) ∧
        error = .unresolvedForeign library symbol) ∨
    (call.function? ≠ none ∧ error = .foreignTableFull ∧
      journal.registered.length = capacity) := by
  have hSize : table.size = journal.registered.length := h.numbered.size_eq
  have hDoes := table.does_call call
  rw [hError] at hDoes
  generalize (table.call call).2 = after at hDoes
  cases hDoes with
  | unresolved hNew hResolve => exact Or.inl ⟨hResolve, _, _, rfl, rfl⟩
  | full hNew hFunction hFull =>
    refine Or.inr ⟨by simp [hFunction], rfl, h.numbered.room.antisymm ?_⟩
    rw [← hSize]
    exact hFull

end Answers

/-! ## Invoking -/

/-- Invoking the number runs the function, in every world and on every input that the function
accepts. -/
structure Invokes (table : ForeignTable σ) (number : Int64) (function : HostFunction σ) :
    Prop where
  accepted : ∀ world input, accepts world.memory.heap function input = true →
    table.invoke world number input =
      (((function.body input).run world).1.mapError fun reason =>
        s!"foreign call {number.toInt} failed: {reason}", ((function.body input).run world).2)
  refused : ∀ world input, accepts world.memory.heap function input = false →
    ∃ warning, table.invoke world number input = (.error warning, world)

theorem invokes_of_get? {table : ForeignTable σ} {number : Int64} {function : HostFunction σ}
    (hGet : table.get? number = some function) : table.Invokes number function := by
  constructor
  · intro world input hAccepts
    simp only [invoke, hGet, hAccepts, if_true]
  · intro world input hAccepts
    simp only [invoke, hGet, hAccepts]
    exact ⟨_, rfl⟩

theorem Numbered.get? {table : ForeignTable σ} {registered : List (HostFunction σ × UInt16)}
    (h : Numbered table.functions registered) {function : HostFunction σ} {id : UInt16}
    (hMem : (function, id) ∈ registered) {number : Int64} (hNumber : number.toInt = id.toNat) :
    table.get? number = some function := by
  unfold ForeignTable.get?
  rw [hNumber, if_pos (Int.natCast_nonneg _), Int.toNat_natCast]
  exact h.getElem? hMem

theorem Numbered.get?_eq_none {table : ForeignTable σ}
    {registered : List (HostFunction σ × UInt16)} (h : Numbered table.functions registered)
    {number : Int64}
    (hNumber : ∀ function id, (function, id) ∈ registered → number.toInt ≠ id.toNat) :
    table.get? number = none := by
  unfold ForeignTable.get?
  split
  · next hSign =>
    refine Array.getElem?_eq_none (Nat.le_of_not_lt fun hLt => ?_)
    obtain ⟨function, id, hMem, hEq⟩ := h.exists_of_lt hLt
    exact hNumber function id hMem (by omega)
  · rfl

/-! ## The law -/

/-- A table answers as its journal says. -/
structure StableIds (journal : Journal σ) (table : ForeignTable σ) : Prop where
  /-- The ids are 0, 1, 2, ... in the order of the registrations. -/
  ordered : (journal.registered.map (·.2.toNat)).reverse = List.range journal.registered.length
  size_eq : table.size = journal.registered.length
  bounded : journal.registered.length ≤ 65535
  /-- An id invokes its function, now and after any later calls. -/
  invoked : ∀ function id, (function, id) ∈ journal.registered →
    ∀ (later : List (Call σ)) (number : Int64), number.toInt = id.toNat →
      (runCalls (journal, table) later).2.Invokes number function
  /-- Other numbers invoke nothing. -/
  unknown : ∀ number : Int64,
    (∀ function id, (function, id) ∈ journal.registered → number.toInt ≠ id.toNat) →
      ∀ world input, ∃ warning, table.invoke world number input = (.error warning, world)
  /-- The id of an import is the id of a function. -/
  imported : ∀ pair id, (pair, id) ∈ journal.imports →
    ∃ function, (function, id) ∈ journal.registered
  same_id_iff : ∀ pair id other id', (pair, id) ∈ journal.imports →
    (other, id') ∈ journal.imports → (id = id' ↔ pair = other)
  imported?_iff : ∀ library symbol id, table.imported? library symbol = some id ↔
    ((library, symbol), id) ∈ journal.imports
  /-- Room is all that a call needs which has a function, however many calls failed before. -/
  accepted_iff : ∀ call, (∃ id, (table.call call).1 = .ok id) ↔
    journal.repeats call = true ∨
      (∃ function, call.function? = some function) ∧ journal.registered.length < 65535
  failed : ∀ call error, (table.call call).1 = .error error →
    (table.call call).2 = table ∧
      ((call.function? = none ∧
          ∃ library symbol, call.pair? = some (library, symbol) ∧
            error = .unresolvedForeign library symbol) ∨
        (call.function? ≠ none ∧ error = .foreignTableFull ∧
          journal.registered.length = 65535))

theorem Follows.invokes {table : ForeignTable σ} {journal : Journal σ} (h : table.Follows journal)
    {function : HostFunction σ} {id : UInt16} (hMem : (function, id) ∈ journal.registered)
    (later : List (Call σ)) {number : Int64} (hNumber : number.toInt = id.toNat) :
    (runCalls (journal, table) later).2.Invokes number function := by
  have hLater : (runCalls (journal, table) later).2.Follows (runCalls (journal, table) later).1 :=
    Follows.along h later
  exact invokes_of_get?
    (hLater.numbered.get? (registered_subset_runCalls (journal, table) later hMem) hNumber)

theorem Follows.same_id_iff {table : ForeignTable σ} {journal : Journal σ}
    (h : table.Follows journal) {pair other : String × String} {id id' : UInt16}
    (hMem : (pair, id) ∈ journal.imports) (hOther : (other, id') ∈ journal.imports) :
    id = id' ↔ pair = other := by
  constructor
  · rintro rfl
    exact h.apart pair other id hMem hOther
  · rintro rfl
    have hId := (h.imports pair id).2 hMem
    rw [(h.imports pair id').2 hOther] at hId
    exact (Option.some.inj hId).symm

/-- Ids are stable: any calls leave a table that answers as the journal of the calls says. -/
theorem host_functions_keep_their_ids (calls : List (Call σ)) :
    StableIds (runCalls ([], {}) calls).1 (runCalls ([], {}) calls).2 := by
  have hFollows : (runCalls ([], ({} : ForeignTable σ)) calls).2.Follows
      (runCalls ([], {}) calls).1 := Follows.along follows_empty calls
  generalize (runCalls ([], ({} : ForeignTable σ)) calls).1 = journal at hFollows ⊢
  generalize (runCalls ([], ({} : ForeignTable σ)) calls).2 = table at hFollows ⊢
  constructor
  case ordered => exact hFollows.numbered.ids
  case size_eq => exact hFollows.numbered.size_eq
  case bounded => exact hFollows.numbered.room
  case invoked =>
    intro function id hMem later number hNumber
    exact hFollows.invokes hMem later hNumber
  case unknown =>
    intro number hNumber world input
    have hGet := hFollows.numbered.get?_eq_none hNumber
    simp only [invoke, hGet]
    exact ⟨_, rfl⟩
  case imported => exact hFollows.issued
  case same_id_iff =>
    intro pair id other id' hMem hOther
    exact hFollows.same_id_iff hMem hOther
  case imported?_iff =>
    intro library symbol id
    exact hFollows.imports (library, symbol) id
  case accepted_iff => exact hFollows.ok_iff
  case failed =>
    intro call error hError
    have hDoes := table.does_call call
    rw [hError] at hDoes
    exact ⟨hDoes.eq_of_error, hFollows.error_cases hError⟩

/-- A second import needs no resolver, and a failed one takes no id. -/
example (function : HostFunction σ) :
    (runCalls ([], {}) [.add function,
      .importSymbol (fun _ _ => none) "math" "double",
      .importSymbol (fun _ _ => some function) "math" "double",
      .importSymbol (fun _ _ => none) "math" "double",
      .add function]).1.reverse.map (·.2.toOption) = [some 0, none, some 1, some 1, some 2] := by
  simp [runCalls, callNext, call, add, nextId?, UInt16.size, importSymbol, imported?, record, size,
    Libraries.lookup, Libraries.record, Except.toOption]

end ForeignTable

end RegisterMachine

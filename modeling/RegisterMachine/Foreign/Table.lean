-- The table of host functions. Functions get the ids 0, 1, 2, ... in the order
-- in which they are registered; a symbol of a library is imported once and
-- keeps its id.
import Std.Data.HashMap
import RegisterMachine.Error
import RegisterMachine.Foreign.Script

namespace RegisterMachine

/-- A function of the host. -/
structure HostFunction (σ : Type) where
  /-- The length of the array that the input must be; any input when there is none. -/
  arity : Option UInt16 := none
  body : Value → Script σ Value

/-- The ids of the imported symbols, library by library. -/
structure Libraries where
  symbols : Std.HashMap String (Std.HashMap String UInt16) := {}

namespace Libraries

def lookup (libraries : Libraries) (library symbol : String) : Option UInt16 :=
  libraries.symbols[library]?.bind (·[symbol]?)

/-- Remembers an id. The first symbol of a library opens an empty map for it. -/
def record (libraries : Libraries) (library symbol : String) (id : UInt16) : Libraries where
  symbols := libraries.symbols.alter library fun symbols =>
    some ((symbols.getD {}).insert symbol id)

end Libraries

structure ForeignTable (σ : Type) where
  functions : Array (HostFunction σ) := #[]
  libraries : Libraries := {}

namespace ForeignTable

variable {σ : Type}

def size (table : ForeignTable σ) : Nat := table.functions.size

/-- The id that comes after `size` functions. It is a word, and not the largest one. -/
def nextId? (size : Nat) : Option UInt16 :=
  if size < UInt16.size then
    let id := UInt16.ofNat size
    if id = 0xFFFF then none else some id
  else none

/-- Registers a function and gives its id. A full table stays as it is. -/
def add (table : ForeignTable σ) (function : HostFunction σ) :
    Except Error UInt16 × ForeignTable σ :=
  match nextId? table.size with
  | some id => (.ok id, { table with functions := table.functions.push function })
  | none => (.error .foreignTableFull, table)

/-- The id of an imported symbol. -/
def imported? (table : ForeignTable σ) (library symbol : String) : Option UInt16 :=
  table.libraries.lookup library symbol

/-- Remembers the id of an import that went well. -/
def record (table : ForeignTable σ) (library symbol : String) (id : UInt16) : ForeignTable σ :=
  { table with libraries := table.libraries.record library symbol id }

/-- Imports a symbol that `resolve` finds, unless it was imported before. A table
stays as it is when the import fails. -/
def importSymbol (table : ForeignTable σ) (resolve : String → String → Option (HostFunction σ))
    (library symbol : String) : Except Error UInt16 × ForeignTable σ :=
  match table.imported? library symbol with
  | some id => (.ok id, table)
  | none =>
    match resolve library symbol with
    | none => (.error (.unresolvedForeign library symbol), table)
    | some function =>
      match table.add function with
      | (.ok id, table) => (.ok id, table.record library symbol id)
      | (.error e, table) => (.error e, table)

/-- The function of an id. -/
def get? (table : ForeignTable σ) (id : Int64) : Option (HostFunction σ) :=
  if 0 ≤ id.toInt then table.functions[id.toInt.toNat]? else none

/-- Whether the input is an array of as many cells as the function wants. -/
def accepts (heap : Arena) (function : HostFunction σ) (input : Value) : Bool :=
  match function.arity with
  | none => true
  | some arity =>
    match input.handle? with
    | none => false
    | some handle => (heap.get? handle).any (·.limit = arity.toNat)

/-- Calls a function. A call that fails says why. -/
def invoke (table : ForeignTable σ) (world : World σ) (id : Int64) (input : Value) :
    Except String Value × World σ :=
  match table.get? id with
  | none => (.error s!"foreign call to unregistered id {id.toInt}", world)
  | some function =>
    if accepts world.memory.heap function input then
      let (result, world) := (function.body input).run world
      (result.mapError fun reason => s!"foreign call {id.toInt} failed: {reason}", world)
    else
      let arity := (function.arity.getD 0).toNat
      (.error s!"foreign call {id.toInt}: expected an array of {arity} slots", world)

end ForeignTable

end RegisterMachine

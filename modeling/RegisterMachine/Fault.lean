-- The reasons for which a run stops. `ABORT` names one by its code, and
-- every other instruction raises one when it cannot do its work.

namespace RegisterMachine

/-- A reason for which a run stops before its end. -/
inductive Fault where
  /-- The heap is full, or the size of an array is out of range. -/
  | memory
  /-- A malformed instruction, a stale handle, or a value of the wrong kind. -/
  | internal
  /-- A checked heap access outside the array. -/
  | indexOutOfRange
  | divideByZero
  /-- A register past the stack, or calls or collector frames past their limit. -/
  | stackOverflow
  /-- A checked load of a cell that was not written since its allocation. -/
  | uninitializedRead
  | unreturnedFunction
  | abort
  /-- A host function that is unknown, has another arity, or fails. -/
  | foreign
  | cannotOpenFile
  /-- The host asked the run to stop. -/
  | cancelled
  deriving DecidableEq, Repr, Inhabited

/-- The number that stands for a fault in `ABORT` and in the exit status. -/
def Fault.code : Fault → UInt16
  | .memory => 1
  | .internal => 2
  | .indexOutOfRange => 13
  | .divideByZero => 14
  | .stackOverflow => 15
  | .uninitializedRead => 16
  | .unreturnedFunction => 17
  | .abort => 18
  | .foreign => 19
  | .cannotOpenFile => 20
  | .cancelled => 21

def Fault.message : Fault → String
  | .memory => "memory allocation failure"
  | .internal => "internal error"
  | .indexOutOfRange => "index out of range"
  | .divideByZero => "divide by zero"
  | .stackOverflow => "stack overflow"
  | .uninitializedRead => "read of uninitialized memory"
  | .unreturnedFunction => "function did not return a value"
  | .abort => "aborted"
  | .foreign => "foreign call failed"
  | .cannotOpenFile => "cannot open file"
  | .cancelled => "execution cancelled"

/-- What `ABORT` asks for: the normal end of the program, or a fault. -/
inductive Status where
  | clean
  | stopped (fault : Fault)
  deriving DecidableEq, Repr, Inhabited

def Status.code : Status → UInt16
  | .clean => 0
  | .stopped fault => fault.code

def Status.message : Status → String
  | .clean => "no error"
  | .stopped fault => fault.message

/-- Every status, in the order of the codes. -/
def Status.all : List Status :=
  [.clean, .stopped .memory, .stopped .internal, .stopped .indexOutOfRange,
   .stopped .divideByZero, .stopped .stackOverflow, .stopped .uninitializedRead,
   .stopped .unreturnedFunction, .stopped .abort, .stopped .foreign,
   .stopped .cannotOpenFile, .stopped .cancelled]

/-- The status of a code. Codes in the gaps of the numbering have none. -/
def Status.ofCode? (code : UInt16) : Option Status :=
  Status.all.find? fun status => status.code == code

theorem Status.ofCode?_code (status : Status) : Status.ofCode? status.code = some status := by
  rcases status with _ | fault
  · decide
  · cases fault <;> decide

/-- A fault together with the index of the instruction that raised it. -/
structure Halt where
  fault : Fault
  ip : Nat
  deriving DecidableEq, Repr, Inhabited

def Halt.message (halt : Halt) : String :=
  s!"{halt.fault.message} at instruction {halt.ip}"

end RegisterMachine

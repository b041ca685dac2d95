-- The sizes of a machine.
import RegisterMachine.Error

namespace RegisterMachine

structure Config where
  /-- All registers, the globals among them. -/
  stackSize : Nat := 4096
  /-- The most calls, and also the most collector frames, that are open at once. -/
  frameLimit : Nat := 256
  /-- The registers at the bottom of the stack that no frame covers. -/
  globalCount : Nat := 64
  /-- The most live allocations. -/
  heapLimit : Nat := 1 <<< 20
  /-- The most released stores that are kept for reuse. -/
  poolLimit : Nat := 256
  deriving DecidableEq, Repr, Inhabited

/-- The first thing that is wrong with the sizes. -/
def Config.defect? (config : Config) : Option ConfigDefect :=
  if config.stackSize = 0 then some .noStack
  else if config.stackSize ≤ config.globalCount then some .noLocals
  else if config.frameLimit = 0 then some .noFrames
  else if config.heapLimit = 0 then some .noHeap
  else none

end RegisterMachine

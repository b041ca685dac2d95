-- Runs: instructions one after the other, until the program ends or a fault
-- stops it. A program may run for ever, so a run is given the number of
-- instructions that it may take.
import RegisterMachine.Machine.Step

namespace RegisterMachine

/-- A run that has come to its end. -/
structure Execution (σ : Type) where
  machine : Machine σ
  /-- Why the run stopped, when it stopped with a fault. -/
  halt : Option Halt
  /-- What the run wrote to the log. -/
  records : List Log.Record

namespace Machine

variable {σ : Type}

/-- The state in which a run starts. -/
def start (machine : Machine σ) : Machine σ := { machine with ip := 0, calls := #[] }

/-- Takes up to `fuel` instructions. Gives the last turn, or nothing when the
run has not come to its end. -/
def steps (code : Array Instruction) : Nat → Machine σ → Option (Turn σ)
  | 0, _ => none
  | fuel + 1, machine =>
    match machine.step code with
    | .next machine => steps code fuel machine
    | turn => some turn

/-- The record of the frames that were closed after a fault, if they held anything. -/
def unwoundRecords (report : SweepReport) : List Log.Record :=
  if 0 < report.promoted + report.released then
    [Log.info
      s!"unwound collector frames: promoted={report.promoted} released={report.released}"]
  else []

/-- Closes what a stopped run has left open: its calls, its collector frames and
its register frame. -/
def unwind (machine : Machine σ) : SweepReport × Machine σ :=
  let { config, ip, registers, calls := _, memory, foreign, host, haltRequested, lastHalt } :=
    machine
  let (report, memory) := memory.unwind
  (report,
    { config, ip, memory, foreign, host, haltRequested, lastHalt
      registers := registers.resetBase
      calls := #[] })

/-- The end of a run that a fault has stopped. -/
def stop (machine : Machine σ) (fault : Fault) (warning : Option String) : Execution σ :=
  let halt : Halt := ⟨fault, machine.ip⟩
  let (report, machine) := { machine with lastHalt := some halt }.unwind
  { machine, halt := some halt
    records := (warning.toList.map Log.warn)
      ++ Log.warn s!"machine halted: {halt.message}" :: unwoundRecords report }

/-- The end of a run, after its last turn. -/
def conclude : Turn σ → Execution σ
  | .next machine => { machine, halt := none, records := [] }
  | .finished machine =>
    { machine := { machine with lastHalt := none }, halt := none, records := [] }
  | .faulted fault warning machine => machine.stop fault warning

/-- Runs instructions from index 0, at most `fuel` of them. -/
def execute (fuel : Nat) (code : Array Instruction) (machine : Machine σ) :
    Option (Execution σ) :=
  (steps code fuel machine.start).map conclude

/-- Runs the instructions of a program. -/
def run (fuel : Nat) (program : Program) (machine : Machine σ) : Option (Execution σ) :=
  machine.execute fuel program.instructions

end Machine

end RegisterMachine

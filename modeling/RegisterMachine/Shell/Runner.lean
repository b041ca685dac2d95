-- The command that runs a program, from its source or from its image.
import RegisterMachine.Assembly.Diagnostic
import RegisterMachine.Machine.Run
import RegisterMachine.Program.Listing
import RegisterMachine.Shell.Outcome
import RegisterMachine.Shell.Storage

namespace RegisterMachine.Shell.Runner

def usage (program : String) : String :=
  paragraph
    ["Bytecode Runner",
     "",
     "USAGE:",
     s!"    {program} <program> [OPTIONS]",
     "",
     "ARGS:",
     "    <program>    Assembly source (.asm) or binary program",
     "",
     "OPTIONS:",
     "    --stack <n>      Register stack size (defaults to the program header)",
     "    --frames <n>     Call depth and collector frame limit",
     "    --heap <n>       Maximum number of live heap allocations",
     "    --disassemble    Print the program listing instead of running it",
     "    -h, --help       Print this help message",
     "",
     "EXAMPLES:",
     "    # Run an assembly source directly",
     s!"    {program} program.asm",
     "",
     "    # Run a compiled program with a deeper call stack",
     s!"    {program} program.bin --frames 1024",
     "",
     "    # Inspect a compiled program",
     s!"    {program} program.bin --disassemble"]

/-- The options; a size that is given replaces that of the program. -/
structure Options where
  stack : Option Nat := none
  frames : Option Nat := none
  heap : Option Nat := none
  disassemble : Bool := false
  deriving DecidableEq, Repr, Inhabited

/-- Sets the size that an option names. -/
def Options.setSize? (options : Options) (option : String) (size : Nat) : Option Options :=
  match option with
  | "--stack" => some { options with stack := some size }
  | "--frames" => some { options with frames := some size }
  | "--heap" => some { options with heap := some size }
  | _ => none

/-- Reads the arguments behind the first; of an option that is given twice the
last one counts. -/
def Options.parse (options : Options) : List String → Except OptionDefect Options
  | [] => .ok options
  | [option] =>
    if option = "--disassemble" then .ok { options with disassemble := true }
    else if (options.setSize? option 0).isSome then .error (.missingArgument option)
    else .error (.unexpected option)
  | option :: value :: rest =>
    if option = "--disassemble" then
      { options with disassemble := true }.parse (value :: rest)
    else
      match options.setSize? option 0, Numeral.size? value.toList with
      | none, _ => .error (.unexpected option)
      | some _, none => .error (.notNumber option value)
      | some _, some size => ((options.setSize? option size).getD options).parse rest

def Options.apply (options : Options) (config : Config) : Config :=
  { config with
    stackSize := options.stack.getD config.stackSize
    frameLimit := options.frames.getD config.frameLimit
    heapLimit := options.heap.getD config.heapLimit }

variable {m : Type → Type} [Monad m]

/-- Whether a file holds a source: its extension says so, in any case. -/
def isSource (path : String) : Bool :=
  (Path.extension? path).any fun extension => extension.toLower = "asm"

/-- Loads the program of a file, or says why it cannot be loaded. -/
def loadProgram (access : FileAccess m) (path : String) : m (Except String Program) := do
  if isSource path then
    match ← access.readText path with
    | .error reason => return .error (Storage.fileError path reason).message
    | .ok source =>
      return (Assembly.assemble source).mapError (Assembly.diagnostic path source)
  else return (← Storage.load access path).mapError Error.message

/-- The outcome of a run. -/
def report (path : String) (outcome : Outcome) (execution : Execution Unit) : Outcome :=
  let outcome := outcome.log execution.records
  match execution.halt with
  | some halt => { outcome with exit := halt.fault.code.toNat }.log [Log.error halt.message]
  | none =>
    let live := execution.machine.memory.heap.live
    let released := execution.machine.release
    outcome.log
      ([Log.info s!"{path} halted cleanly ({live} live allocations)",
        Machine.releasedRecord released]
      ++ if 0 < released then [Log.info s!"released {released} allocations at shutdown"] else [])

/-- Runs a program on a fresh machine, for at most `fuel` instructions. -/
def execute (fuel : Nat) (path : String) (options : Options) (program : Program) :
    Option Outcome :=
  match Machine.make (options.apply program.header.config) () with
  | .error e => some (.failure e.message)
  | .ok machine =>
    match machine.load program with
    | .error e => some (.failure e.message)
    | .ok machine =>
      let outcome := Outcome.ofRecords 0 [Machine.loadedRecord program]
      (machine.run fuel program).map (report path outcome)

/-- The command. There is no outcome when the program takes more than `fuel`
instructions. -/
def command (access : FileAccess m) (fuel : Nat) (name : String) (arguments : List String) :
    m (Option Outcome) := do
  match helpOutcome? (usage name) arguments, arguments with
  | some outcome, _ => return some outcome
  | none, [] => return none
  | none, path :: rest =>
    match Options.parse {} rest with
    | .error defect => return some (defect.outcome (usage name))
    | .ok options =>
      if !(← access.isPresent path) then
        return some (.failure s!"Input file does not exist: {path}")
      match ← loadProgram access path with
      | .error message => return some (.failure message)
      | .ok program =>
        if options.disassemble then return some { output := program.listing }
        return execute fuel path options program

end RegisterMachine.Shell.Runner

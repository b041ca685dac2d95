-- The command that compiles a source into an image.
import RegisterMachine.Assembly.Diagnostic
import RegisterMachine.Shell.Outcome
import RegisterMachine.Shell.Storage

namespace RegisterMachine.Shell.Compiler

def usage (program : String) : String :=
  paragraph
    ["Assembly Compiler",
     "",
     "USAGE:",
     s!"    {program} <input.asm> [OPTIONS]",
     "",
     "ARGS:",
     "    <input.asm>    Assembly source file to compile",
     "",
     "OPTIONS:",
     "    -o, --output <file>     Output file path (defaults to <input>.bin)",
     "    -h, --help              Print this help message",
     "",
     "EXAMPLES:",
     "    # Compile to default output name",
     s!"    {program} program.asm",
     "",
     "    # Compile with explicit output",
     s!"    {program} program.asm -o output.bin"]

/-- Reads the arguments behind the first: the path of the image, if one is given.
Of two paths the last one counts. -/
def parseOutput (output : Option String) : List String → Except OptionDefect (Option String)
  | [] => .ok output
  | [option] =>
    if option = "--output" ∨ option = "-o" then .error (.missingArgument option)
    else .error (.unexpected option)
  | option :: value :: rest =>
    if option = "--output" ∨ option = "-o" then parseOutput (some value) rest
    else .error (.unexpected option)

/-- The image goes beside the source, under the name of the source. -/
def defaultOutput (path : String) : String :=
  Path.join ((Path.parent? path).getD ".") ((Path.stem? path).getD "" ++ ".bin")

variable {m : Type → Type} [Monad m]

/-- The directory of the image, when it has one that does not exist. -/
def missingDirectory? (access : FileAccess m) (output : String) : m (Option String) := do
  match Path.parent? output with
  | none | some "" => return none
  | some parent => return if ← access.isPresent parent then none else some parent

/-- Compiles the text of a source and writes the image. -/
def compile (access : FileAccess m) (path source output : String) : m Outcome := do
  match Assembly.assemble source with
  | .error e =>
    let outcome : Outcome := { exit := 1, errors := Assembly.diagnostic path source e }
    return outcome.log [Log.error s!"Assembly failed: {e.message}"]
  | .ok program =>
    let image := program.toBytes
    match ← access.write output image with
    | .error reason => return .failure s!"Failed to write output file: {reason.message}"
    | .ok () =>
      let counts := s!"{program.instructions.size} instructions, " ++
        s!"{program.constants.size} constants, {image.length} bytes"
      return .ofRecords 0 [Log.info s!"Compiled {path} -> {output} ({counts})"]

/-- The command. -/
def command (access : FileAccess m) (name : String) (arguments : List String) : m Outcome := do
  match helpOutcome? (usage name) arguments, arguments with
  | some outcome, _ => return outcome
  | none, [] => return {}
  | none, path :: rest =>
    match parseOutput none rest with
    | .error defect => return defect.outcome (usage name)
    | .ok output? =>
      match ← access.readText path with
      | .error reason => return .failure s!"Cannot read {path}: {reason.message}"
      | .ok source =>
        let output := output?.getD (defaultOutput path)
        match ← missingDirectory? access output with
        | some parent => return .failure s!"Output directory does not exist: {parent}"
        | none => compile access path source output

end RegisterMachine.Shell.Compiler

-- Programs in files: images are loaded and saved, sources are assembled.
import RegisterMachine.Assembly.Source
import RegisterMachine.Program.Image
import RegisterMachine.Shell.Files

namespace RegisterMachine.Storage

variable {m : Type → Type} [Monad m]

/-- The error of a file. -/
def fileError (path : String) (reason : FileError) : Error := .file path reason.message

/-- Loads the image in a file. -/
def load (access : FileAccess m) (path : String) : m (Except Error Program) := do
  match ← access.read path with
  | .ok bytes => return Program.ofBytes bytes
  | .error reason => return .error (fileError path reason)

/-- Saves the image of a program. -/
def save (access : FileAccess m) (path : String) (program : Program) : m (Except Error Unit) := do
  return (← access.write path program.toBytes).mapError (fileError path)

/-- Assembles the source in a file. -/
def assemble (access : FileAccess m) (path : String) : m (Except Error Program) := do
  match ← access.readText path with
  | .ok source => return Assembly.assemble source
  | .error reason => return .error (fileError path reason)

end RegisterMachine.Storage

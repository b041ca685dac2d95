-- The command line: the commands on the files of the system. The name under
-- which the program is called chooses the command.
import RegisterMachine.Shell.Compiler
import RegisterMachine.Shell.Runner

namespace RegisterMachine

/-- The number of a system error. Some calls give it as a negative number. -/
def errorNumber (code : UInt32) : UInt32 := if code < 0x80000000 then code else 0 - code

/-- The reason of the system for not reading or writing a file. -/
def fileErrorOf : IO.Error → FileError
  | .noFileOrDirectory .. => .notFound
  | .inappropriateType _ code details =>
    match errorNumber code with
    | 20 => .notDirectory
    | 21 => .isDirectory
    | _ => .other details
  | .invalidArgument _ code details =>
    match errorNumber code with
    | 22 => .nulInName
    | 36 => .nameTooLong
    | _ => .other details
  | e => .other (toString e)

/-- Access to the files of the system. -/
def systemFiles : FileAccess IO where
  isPresent path := do
    try
      let _ ← IO.FS.Handle.mk path .read
      return true
    catch e =>
      match fileErrorOf e with
      | .notFound | .notDirectory | .nameTooLong | .nulInName => return false
      | _ => return true
  read path := do
    try return .ok (← IO.FS.readBinFile path).data.toList
    catch e => return .error (fileErrorOf e)
  write path bytes := do
    try
      IO.FS.writeBinFile path ⟨bytes.toArray⟩
      return .ok ()
    catch e => return .error (fileErrorOf e)

/-- More instructions than a run can take in practice. -/
def unlimited : Nat := 1 <<< 62

end RegisterMachine

open RegisterMachine in
def main (arguments : List String) : IO UInt32 := do
  let name := (← IO.appPath).toString
  let outcome ←
    if Path.stem? name = some "assembler" then Shell.Compiler.command systemFiles name arguments
    else
      let finished ← Shell.Runner.command systemFiles unlimited name arguments
      pure (finished.getD { exit := 1 })
  IO.print outcome.output
  IO.eprint outcome.errors
  return UInt32.ofNat outcome.exit

-- What a command leaves behind: its exit status and what it printed.
import RegisterMachine.Log

namespace RegisterMachine.Shell

structure Outcome where
  exit : Nat := 0
  output : String := ""
  /-- The log, and what is printed between its records. -/
  errors : String := ""
  deriving DecidableEq, Repr, Inhabited

/-- Writes records to the log. -/
def Outcome.log (outcome : Outcome) (records : List Log.Record) : Outcome :=
  { outcome with errors := outcome.errors ++ String.join (records.map (·.render {})) }

/-- A command that ends with a status and some records. -/
def Outcome.ofRecords (exit : Nat) (records : List Log.Record) : Outcome :=
  { exit : Outcome }.log records

/-- A command that ends with one error. -/
def Outcome.failure (message : String) : Outcome := .ofRecords 1 [Log.error message]

/-- What is wrong with the options of a command. -/
inductive OptionDefect where
  | missingArgument (option : String)
  | notNumber (option value : String)
  | unexpected (argument : String)
  deriving DecidableEq, Repr, Inhabited

/-- An argument that is not expected brings the usage of the command. -/
def OptionDefect.outcome (usage : String) : OptionDefect → Outcome
  | .missingArgument option => .failure s!"{option} requires an argument"
  | .notNumber option value =>
    .failure (s!"Invalid value for {option}: '" ++ value ++ "' is not a valid number")
  | .unexpected argument =>
    .ofRecords 1 [Log.error s!"Unexpected argument: {argument}\n", Log.info usage]

/-- The first argument asks for help, and a missing one is shown it too. -/
def helpOutcome? (usage : String) : List String → Option Outcome
  | [] => some (.ofRecords 1 [Log.info usage])
  | first :: _ =>
    if first = "--help" ∨ first = "-h" then some (.ofRecords 0 [Log.info usage]) else none

/-- Lines, each of them ended. -/
def paragraph (lines : List String) : String := String.join (lines.map (· ++ "\n"))

end RegisterMachine.Shell

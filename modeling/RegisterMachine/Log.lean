-- Log records: a severity and a message, written one record after the other.

namespace RegisterMachine.Log

inductive Level where
  | info
  | warn
  | error
  deriving DecidableEq, Repr, Inhabited

def Level.severity : Level → Nat
  | .info => 1
  | .warn => 2
  | .error => 3

/-- The name of a level, padded to the width of the longest. -/
def Level.label : Level → String
  | .info => "INFO "
  | .warn => "WARN "
  | .error => "ERROR"

/-- What the log writes of a record, and which records it drops. -/
structure Settings where
  minimum : Level := .info
  showLevel : Bool := true
  deriving DecidableEq, Repr, Inhabited

/-- Records below the minimum are dropped. -/
def Settings.enabled (settings : Settings) (level : Level) : Bool :=
  settings.minimum.severity ≤ level.severity

structure Record where
  level : Level
  message : String
  deriving DecidableEq, Repr, Inhabited

def info (message : String) : Record := ⟨.info, message⟩

def warn (message : String) : Record := ⟨.warn, message⟩

def error (message : String) : Record := ⟨.error, message⟩

/-- The text of a record; a dropped record has none. -/
def Record.render (settings : Settings) (record : Record) : String :=
  if settings.enabled record.level then
    let label := if settings.showLevel then s!"[{record.level.label}] " else ""
    label ++ record.message ++ "\n"
  else ""

end RegisterMachine.Log

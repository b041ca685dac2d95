-- Diagnostics: an assembly error with the line of the source that it is about.
import RegisterMachine.Assembly.Token
import RegisterMachine.Error

namespace RegisterMachine.Assembly

/-- `text` behind as many blanks as fill it up to `width` characters. -/
def alignRight (width : Nat) (text : String) : String :=
  String.ofList (List.replicate (width - text.length) ' ') ++ text

/-- Without carriage returns at the end. -/
def trimReturns (line : List Char) : List Char :=
  (line.reverse.dropWhile (· == '\r')).reverse

/-- The line with a mark below the column. -/
def excerpt (line column : Nat) (text : List Char) : String :=
  let blanks := String.ofList (List.replicate (column - 1) ' ')
  "  |\n"
    ++ s!"{alignRight 4 (toString line)} | {String.ofList (trimReturns text)}\n"
    ++ s!"  | {blanks}^\n"

/-- The message of an error, and for a defect of the source also its place in
`file` and its line. -/
def diagnostic (file source : String) : Error → String
  | .source line column defect =>
    let place := s!"error: {defect.message}\n --> {file}:{line}:{column}\n"
    match (lines source)[line - 1]? with
    | some text => place ++ excerpt line column text
    | none => place
  | error => s!"error: {error.message}"

end RegisterMachine.Assembly

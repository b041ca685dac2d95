-- Paths as text: the parts of a path that the commands look at. Slashes and
-- single points at the end of a path say nothing, and neither do doubled
-- slashes.

namespace RegisterMachine.Path

/-- The parts between the slashes. -/
def parts (path : String) : List String := (path.splitOn "/").filter (· ≠ "")

def isAbsolute (path : String) : Bool := path.toList.head? = some '/'

def endsInSlash (path : String) : Bool := path.toList.getLast? = some '/'

/-- Without the slashes and the single points at its end; the characters are
given and returned in reverse. -/
def trimEnd : List Char → List Char
  | ['/'] => ['/']
  | '/' :: rest => trimEnd rest
  | '.' :: '/' :: rest => trimEnd ('/' :: rest)
  | reversed => reversed

/-- The last component and what stands before its slash, if there is one, both
in reverse. -/
def splitLast (path : String) : List Char × Option (List Char) :=
  let reversed := trimEnd path.toList.reverse
  let last := reversed.takeWhile (· ≠ '/')
  match reversed.dropWhile (· ≠ '/') with
  | [] => (last, none)
  | _ :: before => (last, some before)

/-- The last component, unless it stands for a directory by its position. -/
def fileName? (path : String) : Option String :=
  let name := String.ofList (splitLast path).1.reverse
  if name = "" ∨ name = "." ∨ name = ".." then none else some name

/-- What stands before the last component; the root and the empty path have nothing. -/
def parent? (path : String) : Option String :=
  match splitLast path with
  | ([], _) => none
  | (_, none) => some ""
  | (_, some []) => some "/"
  | (_, some before) => some (String.ofList (trimEnd before).reverse)

/-- A name before and after its last point. A point at the start of a name
divides nothing. -/
def splitName (name : String) : String × Option String :=
  let reversed := name.toList.reverse
  let extension := reversed.takeWhile (· ≠ '.')
  match reversed.dropWhile (· ≠ '.') with
  | _ :: c :: stem => (String.ofList (c :: stem).reverse, some (String.ofList extension.reverse))
  | _ => (name, none)

def stem? (path : String) : Option String := (fileName? path).map fun name => (splitName name).1

def extension? (path : String) : Option String :=
  (fileName? path).bind fun name => (splitName name).2

/-- A name in a directory; the empty path is the current directory. -/
def join (directory name : String) : String :=
  if directory = "" then name
  else if directory.toList.getLast? = some '/' then directory ++ name
  else directory ++ "/" ++ name

end RegisterMachine.Path

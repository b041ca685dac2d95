-- The lines of a source text and the tokens of a line. Tokens are separated
-- by blanks and commas, a quoted part is kept whole, and `#` starts a comment.

namespace RegisterMachine.Assembly

/-! ## Lines -/

/-- A line that a line feed ends: its characters are given in reverse, and one
carriage return before the line feed is not part of it. -/
def closeLine : List Char → List Char
  | '\r' :: reversed => reversed.reverse
  | reversed => reversed.reverse

/-- The lines of a text that comes after the lines `done` and the start of a
line `reversed`, both in reverse. -/
def linesFrom (done : List (List Char)) (reversed : List Char) : List Char → List (List Char)
  | [] => (if reversed.isEmpty then done else reversed.reverse :: done).reverse
  | c :: cs =>
    if c = '\n' then linesFrom (closeLine reversed :: done) [] cs
    else linesFrom done (c :: reversed) cs

/-- The lines of a text. A line feed ends a line, and the last line needs none. -/
def lines (text : String) : List (List Char) :=
  linesFrom [] [] text.toList

/-! ## Tokens -/

structure Token where
  text : List Char
  /-- The byte of the line at which the token starts, counted from 1. -/
  column : Nat
  deriving DecidableEq, Repr, Inhabited

def Token.string (token : Token) : String := String.ofList token.text

def isSeparator (c : Char) : Bool :=
  c == ',' || c == ' ' || c == '\t' || c == '\r'

/-- A token whose end is not yet reached. -/
structure OpenToken where
  reversed : List Char
  column : Nat
  /-- Whether the next character is inside quotes. -/
  quoted : Bool
  deriving DecidableEq, Repr, Inhabited

namespace OpenToken

def start (c : Char) (column : Nat) : OpenToken :=
  ⟨[c], column, c == '\''⟩

/-- Adds a character; a quote turns quoting on or off. -/
def add (token : OpenToken) (c : Char) : OpenToken :=
  { token with
    reversed := c :: token.reversed
    quoted := if c == '\'' then !token.quoted else token.quoted }

def close (token : OpenToken) : Token :=
  ⟨token.reversed.reverse, token.column⟩

end OpenToken

/-- The tokens of the rest of a line, from the byte `column` on. A quote that
is not closed is refused with the column of its token. -/
def scan : Option OpenToken → Nat → List Char → Except Nat (List Token)
  | none, _, [] => .ok []
  | some token, _, [] => if token.quoted then .error token.column else .ok [token.close]
  | none, column, c :: cs =>
    if c = '#' then .ok []
    else if isSeparator c then scan none (column + c.utf8Size) cs
    else scan (some (.start c column)) (column + c.utf8Size) cs
  | some token, column, c :: cs =>
    if token.quoted then scan (some (token.add c)) (column + c.utf8Size) cs
    else if c = '#' then .ok [token.close]
    else if isSeparator c then
      (scan none (column + c.utf8Size) cs).map (token.close :: ·)
    else scan (some (token.add c)) (column + c.utf8Size) cs

/-- The tokens of a line. -/
def tokens (line : List Char) : Except Nat (List Token) :=
  scan none 1 line

end RegisterMachine.Assembly

import LineScript.Keyword
import LineScript.Text

/-!
# LineScript.Line — one line of a script

A line is the list of its tokens.  Only the space separates tokens, a final run of line ends is dropped, and no
token is empty.

* `Line.ofText`: reads a line.
* `Line.isBlank`: lines that do nothing, the empty ones and those whose first token starts with `//`.
* `Line.role`: all that the search for the end of a block sees of a line.
-/

namespace LineScript

/-- One line of a script as its tokens. -/
structure Line where
  tokens : List String := []
deriving DecidableEq, Repr, Inhabited

/-- The part a line plays in the nesting of blocks. -/
inductive Role
  | opener | closer | alternative | plain
deriving DecidableEq, Repr

namespace Line

/-- The two characters that end a line. -/
def isLineEnd (c : Char) : Bool :=
  c == '\n' || c == '\r'

/-- The tokens of a text: cut at every space, empty pieces dropped. -/
def tokenize (cs : List Char) : List (List Char) :=
  (Text.fields ' ' (Text.dropTrailing isLineEnd cs)).filter (fun t => !t.isEmpty)

/-- Reads characters as one line, also when they hold line ends in their middle. -/
def ofChars (cs : List Char) : Line :=
  ⟨(tokenize cs).map String.ofList⟩

/-- Reads a text as one line. -/
def ofText (s : String) : Line :=
  ofChars s.toList

/-- The line as text: its tokens with single spaces between them. -/
def text (line : Line) : String :=
  " ".intercalate line.tokens

/-- The number of tokens. -/
def size (line : Line) : Nat :=
  line.tokens.length

/-- The line has no token. -/
def isEmpty (line : Line) : Bool :=
  line.tokens.isEmpty

/-- The first token starts with two slashes. -/
def isComment (line : Line) : Bool :=
  match line.tokens with
  | [] => false
  | t :: _ => ['/', '/'].isPrefixOf t.toList

/-- Lines that execute nothing. -/
def isBlank (line : Line) : Bool :=
  line.isEmpty || line.isComment

/-- The keyword that the line starts with. -/
def keyword? (line : Line) : Option Keyword :=
  line.tokens.head?.bind Keyword.ofText?

/-- The part the line plays in the nesting of blocks. -/
def role (line : Line) : Role :=
  match line.keyword? with
  | some k =>
    if k.isOpener then .opener
    else if k.isCloser then .closer
    else if k = .else_ then .alternative
    else .plain
  | none => .plain

end Line

end LineScript

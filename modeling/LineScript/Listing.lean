import LineScript.Line

/-!
# LineScript.Listing — a script as numbered lines

Lines are numbered from 0.  Empty lines are kept, so the numbers in reports are those of the text.

* `Listing.ofText`: a text without characters has no line; otherwise one final newline is dropped and the rest is
  cut at every newline.
* `Listing.text`: every line followed by a newline.
-/

namespace LineScript

/-- The lines of a script. -/
structure Listing where
  lines : Array Line := #[]
deriving DecidableEq, Repr, Inhabited

namespace Listing

/-- The texts of the lines of a script. -/
def sourceLines (cs : List Char) : List (List Char) :=
  match cs with
  | [] => []
  | _ =>
    let pieces := Text.fields '\n' cs
    if pieces.getLast? = some [] then pieces.dropLast else pieces

/-- Reads a script. -/
def ofText (source : String) : Listing :=
  ⟨((sourceLines source.toList).map Line.ofChars).toArray⟩

/-- Adds one line at the end. -/
def push (listing : Listing) (s : String) : Listing :=
  ⟨listing.lines.push (Line.ofText s)⟩

/-- The number of lines. -/
def size (listing : Listing) : Nat :=
  listing.lines.size

/-- The listing has no line. -/
def isEmpty (listing : Listing) : Bool :=
  listing.lines.isEmpty

/-- The line with a given number. -/
def line? (listing : Listing) (i : Nat) : Option Line :=
  listing.lines[i]?

/-- The keyword that the line with a given number starts with. -/
def keyword? (listing : Listing) (i : Nat) : Option Keyword :=
  (listing.line? i).bind Line.keyword?

/-- The script as text. -/
def text (listing : Listing) : String :=
  String.join (listing.lines.toList.map fun line => line.text ++ "\n")

end Listing

end LineScript

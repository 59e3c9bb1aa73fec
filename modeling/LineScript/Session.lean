import LineScript.ScriptFile

/-!
# LineScript.Session — the interactive session

A typed line is a directive (`run`, `list`, `new`, `load f`, `save f`) or one more line of the listing.

* `Directive.ofInput`: what a typed line means.
* `Session.respond`: the session after a typed line, and what it shows.
-/

namespace LineScript

/-- What a typed line means. -/
inductive Directive
  | run
  | list
  | new
  | load (path : String)
  | save (path : String)
  | append (text : String)
deriving DecidableEq, Repr, Inhabited

/-- The meaning of a typed line; directives stand alone on their line. -/
def Directive.ofInput (input : String) : Directive :=
  match (Line.ofText input).tokens with
  | ["run"] => .run
  | ["list"] => .list
  | ["new"] => .new
  | ["load", path] => .load path
  | ["save", path] => .save path
  | _ => .append input

/-- The listing being edited and the files around it. -/
structure Session where
  listing : Listing := {}
  disk : Disk := {}
deriving Inhabited

namespace Session

/-- A number set to the right in four columns. -/
def column (n : Nat) : String :=
  let ds := Nat.toDigits 10 n
  String.ofList (List.replicate (4 - ds.length) ' ' ++ ds)

/-- One line of a listing as `list` shows it. -/
def numbered (line : Line) (i : Nat) : String :=
  Call.dimmed (column i) ++ " " ++ line.text ++ "\n"

/-- All lines of a listing as `list` shows them. -/
def numberedText (listing : Listing) : String :=
  String.join (listing.lines.toList.zipIdx.map fun (line, i) => numbered line i)

/-- What the session shows when a file cannot be loaded or saved. -/
def complaint (cause : Cause) : String :=
  Call.bold (cause.message ++ "\n")

/-- Follows a directive: the session afterwards and what it shows.  The result is `none` if a run has not ended after
`fuel` rounds. -/
def follow (fuel : Nat) (limit : Option Nat) (session : Session) : Directive → Option (Session × String)
  | .run =>
    (Machine.run fuel limit session.listing).map fun (_, calls) =>
      (session, Call.styledTexts calls.toList)
  | .list => some (session, numberedText session.listing)
  | .new => some (⟨{}, session.disk⟩, "")
  | .load path =>
    match ScriptFile.load session.disk path with
    | .ok listing => some (⟨listing, session.disk⟩, "")
    | .error cause => some (session, complaint cause)
  | .save path =>
    match ScriptFile.save session.disk session.listing path with
    | (.ok (), disk) => some (⟨session.listing, disk⟩, "")
    | (.error cause, disk) => some (⟨session.listing, disk⟩, complaint cause)
  | .append text => some (⟨session.listing.push text, session.disk⟩, "")

/-- Answers a typed line. -/
def respond (fuel : Nat) (limit : Option Nat) (session : Session) (input : String) : Option (Session × String) :=
  session.follow fuel limit (.ofInput input)

/-- Answers typed lines one after the other; gives the session at the end and what was shown for each. -/
def converse (fuel : Nat) (limit : Option Nat) : Session → List String → Option (Session × List String)
  | session, [] => some (session, [])
  | session, input :: rest =>
    match session.respond fuel limit input with
    | none => none
    | some (session', shown) =>
      (converse fuel limit session' rest).map fun (last, more) => (last, shown :: more)

end Session

end LineScript

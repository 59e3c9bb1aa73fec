/-!
# LineScript.Terminal — what a run writes

A run makes two kinds of calls: it prints texts, and it reports a failure.

* `Call.text`: the text as it goes to a plain output.
* `Call.styled`: the text as an interactive session shows it, reports in bold.
-/

namespace LineScript

/-- One call of the terminal. -/
inductive Call
  | print (text : String)
  | error (text : String)
deriving DecidableEq, Repr, Inhabited

namespace Call

/-- Ends a line. -/
def newline : Call :=
  print "\n"

/-- The text of a call. -/
def text : Call → String
  | print s => s
  | error s => s

/-- A text in bold. -/
def bold (s : String) : String :=
  "\x1b[1m" ++ s ++ "\x1b[0m"

/-- A text in a dimmed colour. -/
def dimmed (s : String) : String :=
  "\x1b[2m" ++ s ++ "\x1b[0m"

/-- The text of a call with reports in bold. -/
def styled : Call → String
  | print s => s
  | error s => bold s

/-- The texts of calls, one after the other. -/
def texts (calls : List Call) : String :=
  String.join (calls.map text)

/-- The styled texts of calls, one after the other. -/
def styledTexts (calls : List Call) : String :=
  String.join (calls.map styled)

end Call

end LineScript

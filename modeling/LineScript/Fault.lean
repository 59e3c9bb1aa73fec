/-!
# LineScript.Fault — what can go wrong

A `Cause` says what went wrong and quotes the text concerned; a `Fault` is a cause with the line on which it was met,
when that is known.

* `Cause.message`: the wording shown to the user.
* `Fault.onLine`: attaches a line; the first line attached stays.
* `Fault.report`: the lines written to the terminal when a run fails.
-/

namespace LineScript

/-- The causes of failure, each with the text it quotes. -/
inductive Cause
  | duplicateName (name : String)
  | reservedName (name : String)
  | invalidCharacter (name : String)
  | undeclared (name : String)
  | unresolvedSymbol (symbol : String)
  | typeMismatch (name : String)
  | typesIncompatible
  | invalidOperator (symbol : String)
  | invalidArgument (argument : String)
  | divisionByZero
  | overflow
  | unrecognizedCommand (command : String)
  | unexpectedEndOfScope
  | elseWithoutIf
  | unterminatedScope
  | outOfMemory (detail : String)
  | stepLimitExceeded (limit : String)
  | fileNotFound (path : String)
  | internalError (detail : String)
deriving DecidableEq, Repr, Inhabited

namespace Cause

/-- The short name of a cause, without the text it quotes. -/
def name : Cause → String
  | duplicateName _ => "DuplicateName"
  | reservedName _ => "ReservedName"
  | invalidCharacter _ => "InvalidCharacter"
  | undeclared _ => "VarUndeclared"
  | unresolvedSymbol _ => "UnresolvedSymbol"
  | typeMismatch _ => "TypeMismatch"
  | typesIncompatible => "TypesIncompatible"
  | invalidOperator _ => "InvalidOperator"
  | invalidArgument _ => "InvalidArgument"
  | divisionByZero => "DivisionByZero"
  | overflow => "Overflow"
  | unrecognizedCommand _ => "UnrecognizedCommand"
  | unexpectedEndOfScope => "UnexpectedEndOfScope"
  | elseWithoutIf => "ElseWithoutIf"
  | unterminatedScope => "UnterminatedScope"
  | outOfMemory _ => "OutOfMemory"
  | stepLimitExceeded _ => "StepLimitExceeded"
  | fileNotFound _ => "FileNotFound"
  | internalError _ => "InternalError"

/-- The wording of a cause. -/
def message : Cause → String
  | duplicateName s => "Variable with the name \"" ++ s ++ "\" is already declared!"
  | reservedName s => "Variable name \"" ++ s ++ "\" conflicts with a keyword!"
  | invalidCharacter s =>
    "Variable name \"" ++ s
      ++ "\" contains an invalid character!\nValid characters: \x7b a-z, A-Z, 0-9, _ \x7d"
  | undeclared s => "Variable \"" ++ s ++ "\" has not been declared in current scope!"
  | unresolvedSymbol s => "Unable to resolve symbol \"" ++ s ++ "\"!"
  | typeMismatch s => "Variable \"" ++ s ++ "\" is not of the expected data type!"
  | typesIncompatible => "Variables do not have matching data types!"
  | invalidOperator s => "Symbol \"" ++ s ++ "\" is not a valid operator!"
  | invalidArgument s => "Invalid argument \"" ++ s ++ "\"!"
  | divisionByZero => "Cannot divide by zero!"
  | overflow => "Arithmetic overflow!"
  | unrecognizedCommand s => "Unrecognized command: \"" ++ s ++ "\""
  | unexpectedEndOfScope => "Unexpected end of scope!"
  | elseWithoutIf => "Unexpected else outside of an if block!"
  | unterminatedScope => "End of scope expected!"
  | outOfMemory s => "Out of memory: " ++ s
  | stepLimitExceeded s => "Execution step limit of " ++ s ++ " exceeded!"
  | fileNotFound s => "File not found: " ++ s
  | internalError s => if s = "" then "Internal error!" else "Internal error: " ++ s

end Cause

/-- A cause and the line on which it was met. -/
structure Fault where
  cause : Cause
  line : Option Nat := none
deriving DecidableEq, Repr, Inhabited

namespace Fault

/-- Attaches a line unless one is attached already. -/
def onLine (fault : Fault) (line : Nat) : Fault :=
  ⟨fault.cause, some (fault.line.getD line)⟩

@[simp] theorem onLine_of_cause (cause : Cause) (i : Nat) : onLine { cause } i = ⟨cause, some i⟩ := rfl

/-- The wording of the cause. -/
def message (fault : Fault) : String :=
  fault.cause.message

/-- The report written to the terminal: a heading with the line, then the wording. -/
def report (fault : Fault) : String :=
  match fault.line with
  | some line => "Error on line " ++ line.repr ++ "\n" ++ fault.message ++ "\n"
  | none => "Error\n" ++ fault.message ++ "\n"

/-- All of a fault on one line, for diagnostics. -/
def summary (fault : Fault) : String :=
  match fault.line with
  | some line =>
    "Error \x7b " ++ fault.cause.name ++ " on line " ++ line.repr ++ ": " ++ fault.message ++ " \x7d"
  | none => "Error \x7b " ++ fault.cause.name ++ ": " ++ fault.message ++ " \x7d"

end Fault

end LineScript

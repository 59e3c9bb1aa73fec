import LineScript.ScriptFile

/-!
# LineScript.CommandLine — the arguments of the command

    [SCRIPT] [--max-steps N | --max-steps=N] [-v | --verbose] [-V | --version] [-h | --help] [--]

Arguments are read from left to right, and the first that settles the matter does: a request for the version or for
help, or an argument that cannot be.  Short options may stand together behind one hyphen.  After `--` every argument
is a script, and so is a single hyphen.  An option may be given once.

* `CommandLine.parse`: the request that arguments make.
* `CommandLine.invoke`: what the command does with a script.
-/

namespace LineScript.CommandLine

/-- What a run of the command is told. -/
structure Options where
  script : Option String := none
  limit : Option Nat := none
  verbose : Bool := false
deriving DecidableEq, Repr, Inhabited

/-- What the arguments ask for. -/
inductive Request
  | version
  | help
  | misuse
  | start (options : Options)
deriving DecidableEq, Repr, Inhabited

/-- Exit code of arguments that cannot be. -/
def usageError : Nat := 2

/-- The answer to a request for the version. -/
def versionText : String := "exec 0.3.0\n"

/-- The answer to a request for help. -/
def helpText : String :=
  "Runs a script file, or starts an interactive session.\n\n"
    ++ "Usage: exec [OPTIONS] [SCRIPT]\n\n"
    ++ "Arguments:\n  [SCRIPT]  Script to run; without it an interactive session starts\n\n"
    ++ "Options:\n"
    ++ "      --max-steps <N>  Stop a run after this many lines\n"
    ++ "  -v, --verbose        Log activity\n"
    ++ "  -h, --help           Print help\n"
    ++ "  -V, --version        Print version\n"

/-- A number of steps: digits with an optional plus, below `2 ^ 64`. -/
def steps? (s : String) : Option Nat :=
  let ds :=
    match s.toList with
    | '+' :: rest => rest
    | cs => cs
  if ds.isEmpty || !ds.all Char.isDigit then none
  else
    let n := Decimal.digitsValue ds
    if n < Nat.pow 2 64 then some n else none

/-- The options with a script, unless there is one or the text is empty. -/
def Options.withScript? (options : Options) (script : String) : Option Options :=
  if options.script.isSome || script == "" then none else some { options with script := some script }

/-- The options with a limit, unless there is one or the text is no number. -/
def Options.withLimit? (options : Options) (text : String) : Option Options :=
  if options.limit.isSome then none else (steps? text).map fun n => { options with limit := some n }

/-- The options with logging, unless it is asked for already. -/
def Options.withVerbose? (options : Options) : Option Options :=
  if options.verbose then none else some { options with verbose := true }

/-- Reads short options behind one hyphen: the options they give, or the request that settles the matter. -/
def readShort (options : Options) : List Char → Except Request Options
  | [] => .ok options
  | 'v' :: rest =>
    match options.withVerbose? with
    | some options => readShort options rest
    | none => .error .misuse
  | 'V' :: _ => .error .version
  | 'h' :: _ => .error .help
  | _ => .error .misuse

/-- A long option split at its first equals sign. -/
def splitValue (cs : List Char) : String × Option String :=
  match cs.span (· ≠ '=') with
  | (name, []) => (String.ofList name, none)
  | (name, _ :: value) => (String.ofList name, some (String.ofList value))

/-- Reads arguments behind `--`: all are scripts. -/
def readScripts (options : Options) : List String → Request
  | [] => .start options
  | arg :: rest =>
    match options.withScript? arg with
    | some options => readScripts options rest
    | none => .misuse

/-- Reads arguments from left to right. -/
def read (options : Options) : List String → Request
  | [] => .start options
  | arg :: rest =>
    match arg.toList with
    | ['-', '-'] => readScripts options rest
    | '-' :: '-' :: long =>
      match splitValue long with
      | ("version", none) => .version
      | ("help", none) => .help
      | ("verbose", none) =>
        match options.withVerbose? with
        | some options => read options rest
        | none => .misuse
      | ("max-steps", some value) =>
        match options.withLimit? value with
        | some options => read options rest
        | none => .misuse
      | ("max-steps", none) =>
        match rest with
        | [] => .misuse
        | value :: rest =>
          match options.withLimit? value with
          | some options => read options rest
          | none => .misuse
      | _ => .misuse
    | '-' :: c :: short =>
      match readShort options (c :: short) with
      | .ok options => read options rest
      | .error request => request
    | _ =>
      match options.withScript? arg with
      | some options => read options rest
      | none => .misuse

/-- The request that arguments make. -/
def parse (args : List String) : Request :=
  read {} args

/-- What the command does with the files around it, when it need not start a session; `none` if a run has not ended
after `fuel` rounds. -/
def invoke (fuel : Nat) (disk : Disk) (args : List String) : Option ScriptFile.Result :=
  match parse args with
  | .version => some ⟨ScriptFile.succeeded, versionText, ""⟩
  | .help => some ⟨ScriptFile.succeeded, helpText, ""⟩
  | .misuse => some ⟨usageError, "", ""⟩
  | .start options =>
    match options.script with
    | some path => ScriptFile.run fuel options.limit disk path
    | none => some ⟨ScriptFile.succeeded, "", ""⟩

end LineScript.CommandLine

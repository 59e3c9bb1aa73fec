import LineScript.CommandLine
import LineScript.Session

/-!
# LineScript.Main — the command

Input and output around the library: files are read and written, and what a run prints is written as it runs.  A write
that fails does not stop a run.
-/

namespace LineScript.Main

/-- Writes a text and goes on if that fails. -/
def emit (out : IO.FS.Stream) (s : String) : IO Unit := do
  try
    out.putStr s
  catch _ =>
    return ()

/-- Runs a listing and writes its calls as they are made. -/
partial def stream (listing : Listing) (limit : Option Nat) (write : Call → IO Unit) (s : Machine.State) : IO Event := do
  match Machine.turn listing limit s with
  | .more s' calls =>
    calls.forM write
    stream listing limit write s'
  | .done event calls =>
    calls.forM write
    return event

/-- The fault of the disk with a number of the operating system, which comes with either sign. -/
def diskFaultOfCode? (code : UInt32) : Option DiskFault :=
  if code = 20 ∨ code = -20 then some .notDirectory
  else if code = 21 ∨ code = -21 then some .isDirectory
  else if code = 28 ∨ code = -28 then some .noSpace
  else if code = 36 ∨ code = -36 then some .tooLong
  else none

/-- The fault of the disk behind an error of the operating system. -/
def diskFault? : IO.Error → Option DiskFault
  | .noFileOrDirectory .. => some .missing
  | .inappropriateType _ code _ | .invalidArgument _ code _ | .resourceExhausted _ code _ => diskFaultOfCode? code
  | _ => none

/-- Loads a listing from a file. -/
def load (path : String) : IO (Except Cause Listing) := do
  try
    return ScriptFile.listingOf path (.ok (← IO.FS.readBinFile path))
  catch e =>
    match diskFault? e with
    | some fault => return ScriptFile.listingOf path (.error fault)
    | none => return .error (.internalError (toString e))

/-- Saves a listing in a file. -/
def save (listing : Listing) (path : String) : IO (Except Cause Unit) := do
  match ScriptFile.contentsOf listing with
  | .error cause => return .error cause
  | .ok contents =>
    try
      IO.FS.writeBinFile path contents
      return .ok ()
    catch e =>
      return .error (.internalError (((diskFault? e).map DiskFault.text).getD (toString e)))

/-- Runs the script in a file and gives the exit code. -/
def runFile (limit : Option Nat) (path : String) : IO Nat := do
  match ← load path with
  | .error cause =>
    emit (← IO.getStderr) (ScriptFile.unreadable cause).errors
    return ScriptFile.noInput
  | .ok listing =>
    let out ← IO.getStdout
    let event ← stream listing limit (fun call => emit out call.text) .initial
    try
      out.flush
    catch _ =>
      pure ()
    return ScriptFile.exitCode event

/-- Answers typed lines until the input ends. -/
partial def interact (limit : Option Nat) (listing : Listing) : IO Unit := do
  let out ← IO.getStdout
  emit out "> "
  out.flush
  let input ← (← IO.getStdin).getLine
  if input.isEmpty then
    return ()
  match Directive.ofInput input with
  | .run =>
    let _ ← stream listing limit (fun call => emit out call.styled) .initial
    interact limit listing
  | .load path =>
    match ← load path with
    | .ok loaded => interact limit loaded
    | .error cause =>
      emit out (Session.complaint cause)
      interact limit listing
  | .save path =>
    match ← save listing path with
    | .ok () => pure ()
    | .error cause => emit out (Session.complaint cause)
    interact limit listing
  | .list =>
    emit out (Session.numberedText listing)
    interact limit listing
  | .new => interact limit {}
  | .append text => interact limit (listing.push text)

/-- Does what the arguments ask for and gives the exit code. -/
def serve (args : List String) : IO Nat := do
  match CommandLine.parse args with
  | .version =>
    emit (← IO.getStdout) CommandLine.versionText
    return ScriptFile.succeeded
  | .help =>
    emit (← IO.getStdout) CommandLine.helpText
    return ScriptFile.succeeded
  | .misuse =>
    emit (← IO.getStderr) CommandLine.helpText
    return CommandLine.usageError
  | .start options =>
    match options.script with
    | some path => runFile options.limit path
    | none =>
      interact options.limit {}
      return ScriptFile.succeeded

end LineScript.Main

/-- The command. -/
def main (args : List String) : IO UInt32 := do
  return UInt32.ofNat (← LineScript.Main.serve args)

import LineScript.Disk
import LineScript.Engine

/-!
# LineScript.ScriptFile — scripts in files

* `ScriptFile.load`, `ScriptFile.save`: a listing from a file and into a file.
* `ScriptFile.run`: runs a file; all that the script writes, its failure included, is standard output.
-/

namespace LineScript.ScriptFile

/-- Exit code of a run that was not stopped by a fault. -/
def succeeded : Nat := 0

/-- Exit code of a script that failed. -/
def failed : Nat := 65

/-- Exit code when the script cannot be read. -/
def noInput : Nat := 66

/-- Reads the contents of the file at `path`, or says why there are none. -/
def listingOf (path : String) : Except DiskFault ByteArray → Except Cause Listing
  | .ok contents =>
    match String.fromUTF8? contents with
    | some source => .ok (.ofText source)
    | none => .error (.internalError "stream did not contain valid UTF-8")
  | .error .missing => .error (.fileNotFound path)
  | .error fault => .error (.internalError fault.text)

/-- Loads a listing from a file. -/
def load (disk : Disk) (path : String) : Except Cause Listing :=
  listingOf path (disk.read path)

/-- The bytes to save; an empty listing is not saved. -/
def contentsOf (listing : Listing) : Except Cause ByteArray :=
  if listing.isEmpty then .error (.internalError "NOTHING TO SAVE") else .ok listing.text.toUTF8

/-- Saves a listing in a file: whether that succeeds, and the disk afterwards. -/
def save (disk : Disk) (listing : Listing) (path : String) : Except Cause Unit × Disk :=
  match contentsOf listing with
  | .error cause => (.error cause, disk)
  | .ok contents =>
    match disk.write path contents with
    | (.ok (), disk') => (.ok (), disk')
    | (.error fault, disk') => (.error (.internalError fault.text), disk')

/-- What a command leaves behind: its exit code and what it wrote. -/
structure Result where
  code : Nat
  output : String := ""
  errors : String := ""
deriving DecidableEq, Repr, Inhabited

/-- The exit code of a run that ended with `event`. -/
def exitCode : Event → Nat
  | .finished | .exited => succeeded
  | .failed _ => failed

/-- The result when a script cannot be loaded. -/
def unreadable (cause : Cause) : Result :=
  ⟨noInput, "", cause.message ++ "\n"⟩

/-- Runs the script in a file; `none` if the run has not ended after `fuel` rounds. -/
def run (fuel : Nat) (limit : Option Nat) (disk : Disk) (path : String) : Option Result :=
  match load disk path with
  | .error cause => some (unreadable cause)
  | .ok listing =>
    (Machine.run fuel limit listing).map fun (event, calls) =>
      ⟨exitCode event, Call.texts calls.toList, ""⟩

end LineScript.ScriptFile

import LineScript.Text

/-!
# LineScript.Disk — files and directories

A place is the list of names that lead to it from the root.  A path is a list of names with slashes between them that
starts at the root or in the working directory; empty names and `.` stay where they are, `..` goes up, and above the
root is the root.  Every name but the last has to lead through a directory.  A name has at most `Disk.nameLimit` bytes
and a path at most `Disk.pathLimit`.

A disk holds what was put there, as far as there is room.  Besides there is what every system has: the root, the
directories right below it, the working directory, two devices, one that swallows all that is written and one that is
always full, and a number that the system keeps for each process.

* `Disk.read`: the contents of a file, or why there are none.
* `Disk.write`: replaces the contents of a file.  The file is opened first and written then, so what was in it is gone
  also when the writing fails.
* `Setting.rewrite`: what the number does with a text.
* `Disk.install`, `Disk.makeDirectory`: set up files and directories, with the directories above them.
-/

namespace LineScript

/-- Why a file cannot be opened, read or written. -/
inductive DiskFault
  | missing
  | denied
  | notDirectory
  | isDirectory
  | invalidArgument
  | noSpace
  | outOfRange
  | tooLong
  | outOfMemory
  | zeroByte
deriving DecidableEq, Repr, Inhabited

/-- The wording of a fault; those of the operating system come with its number. -/
def DiskFault.text : DiskFault → String
  | .missing => "No such file or directory (os error 2)"
  | .denied => "Permission denied (os error 13)"
  | .notDirectory => "Not a directory (os error 20)"
  | .isDirectory => "Is a directory (os error 21)"
  | .invalidArgument => "Invalid argument (os error 22)"
  | .noSpace => "No space left on device (os error 28)"
  | .outOfRange => "Numerical result out of range (os error 34)"
  | .tooLong => "File name too long (os error 36)"
  | .outOfMemory => "out of memory"
  | .zeroByte => "file name contained an unexpected NUL byte"

/-! ### Numbers that the system keeps -/

namespace Setting

/-- The number of bytes that are taken at a time. -/
def pieceLimit : Nat := 12

/-- Characters that are dropped around a number, the unbreakable space among them. -/
def isBlank (c : Char) : Bool :=
  c == ' ' || ('\t' ≤ c && c ≤ '\r') || c == '\u00a0'

/-- The number that a character stands for as a digit, `a` for ten and so on. -/
def digit? (c : Char) : Option Nat :=
  if c.isDigit then some (c.toNat - '0'.toNat)
  else if 'a' ≤ c.toLower ∧ c.toLower ≤ 'f' then some (c.toLower.toNat - 'a'.toNat + 10)
  else none

/-- The number behind `n` when one more digit is read. -/
def shifted? (base n : Nat) (c : Char) : Option Nat :=
  match digit? c with
  | some d => if d < base then some (base * n + d) else none
  | none => none

/-- Reads a number of one or more digits. -/
def digits? (base : Nat) (cs : List Char) : Option Nat :=
  if cs.isEmpty then none else cs.foldlM (shifted? base) 0

/-- Reads a number without sign: hexadecimal behind `0x`, octal behind another zero, decimal else. -/
def magnitude? : List Char → Option Nat
  | '0' :: 'x' :: cs => digits? 16 cs
  | '0' :: 'X' :: cs => digits? 16 cs
  | '0' :: cs => digits? 8 ('0' :: cs)
  | cs => digits? 10 cs

/-- Reads a number with an optional sign. -/
def number? : List Char → Option Int
  | '-' :: cs => (magnitude? cs).map fun n => -n
  | '+' :: cs => (magnitude? cs).map fun n => n
  | cs => (magnitude? cs).map fun n => n

/-- The value that a piece of text sets, from 0 to 1000.  Negative values down to -1000 need a privilege. -/
def ofPiece (piece : List UInt8) : Except DiskFault Nat :=
  let cs := (piece.takeWhile (· != 0)).map fun b => Char.ofNat b.toNat
  match number? (Text.dropTrailing isBlank (cs.dropWhile isBlank)) with
  | none => .error .invalidArgument
  | some n =>
    if n < -2147483648 ∨ 2147483647 < n then .error .outOfRange
    else if n < -1000 ∨ 1000 < n then .error .invalidArgument
    else if n < 0 then .error .denied
    else .ok n.toNat

/-- The pieces in which a text is taken. -/
def pieces (bytes : List UInt8) : List (List UInt8) :=
  (List.range ((bytes.length + pieceLimit - 1) / pieceLimit)).map fun i =>
    (bytes.drop (i * pieceLimit)).take pieceLimit

/-- The value after pieces of text, each of which sets it, up to the first that is refused. -/
def rewrite : Nat → List (List UInt8) → Except DiskFault Unit × Nat
  | value, [] => (.ok (), value)
  | value, piece :: rest =>
    match ofPiece piece with
    | .ok value' => rewrite value' rest
    | .error fault => (.error fault, value)

/-- The text as which a value is read. -/
def text (value : Nat) : String :=
  value.repr ++ "\n"

end Setting

/-! ### Places -/

/-- What stands at a place of the disk. -/
inductive Node
  | directory
  | file (contents : ByteArray)
  | nullDevice
  | fullDevice
  | setting (value : Nat)

/-- The number of bytes that a file takes up. -/
def Node.size : Node → Nat
  | file contents => contents.size
  | _ => 0

/-- The names that lead from the root to a place, innermost first. -/
abbrev Place := List String

/-- The files and directories put on a disk, each at its place, and the number of bytes for which there is room, if there
is a limit. -/
structure Disk where
  nodes : List (Place × Node) := []
  capacity : Option Nat := none
deriving Inhabited

namespace Disk

/-- The largest number of bytes in a name. -/
def nameLimit : Nat := 255

/-- The largest number of bytes in a path. -/
def pathLimit : Nat := 4095

/-- The working directory, a fresh one below `/tmp`.  Its own name is empty, so no path leads to it by name. -/
def workingDirectory : Place := ["", "tmp"]

/-- The directories right below the root. -/
def rootDirectories : List String :=
  ["bin", "boot", "dev", "etc", "home", "lib", "media", "mnt", "opt", "proc", "root", "run", "sbin", "srv", "sys",
    "tmp", "usr", "var"]

/-- What stands at a place of every system. -/
def standing? : Place → Option Node
  | [] => some .directory
  | [name] => if name ∈ rootDirectories then some .directory else none
  | ["null", "dev"] => some .nullDevice
  | ["full", "dev"] => some .fullDevice
  | ["self", "proc"] => some .directory
  | ["oom_score_adj", "self", "proc"] => some (.setting 0)
  | place => if place = workingDirectory then some .directory else none

/-- What stands at a place. -/
def node? (disk : Disk) (place : Place) : Option Node :=
  match disk.nodes.lookup place with
  | some node => some node
  | none => standing? place

/-- The place that a name leads to from a directory. -/
def enter (place : Place) (name : String) : Place :=
  if name = "" ∨ name = "." then place
  else if name = ".." then place.drop 1
  else name :: place

/-- Follows names, each from a directory that has to exist. -/
def walk (disk : Disk) : Place → List String → Except DiskFault Place
  | place, [] => .ok place
  | place, name :: rest =>
    match disk.node? place with
    | none => .error .missing
    | some .directory =>
      if nameLimit < name.utf8ByteSize then .error .tooLong else disk.walk (enter place name) rest
    | some _ => .error .notDirectory

/-- The names on a path. -/
def names (path : String) : List String :=
  (Text.fields '/' path.toList).map String.ofList

/-- Where a path starts. -/
def start (path : String) : Place :=
  if path.toList.head? = some '/' then [] else workingDirectory

/-- Why a path cannot be followed at all, if it cannot. -/
def refusal? (path : String) : Option DiskFault :=
  if '\x00' ∈ path.toList then some .zeroByte
  else if path = "" then some .missing
  else if pathLimit < path.utf8ByteSize then some .tooLong
  else none

/-- Follows names from where a path starts, if the path can be followed. -/
def follow (disk : Disk) (path : String) (names : List String) : Except DiskFault Place :=
  match refusal? path with
  | some fault => .error fault
  | none => disk.walk (start path) names

/-- The contents of a file.  The device that is always full gives zeros without end. -/
def read (disk : Disk) (path : String) : Except DiskFault ByteArray :=
  match disk.follow path (names path) with
  | .error fault => .error fault
  | .ok place =>
    match disk.node? place with
    | none => .error .missing
    | some .directory => .error .isDirectory
    | some (.file contents) => .ok contents
    | some .nullDevice => .ok .empty
    | some .fullDevice => .error .outOfMemory
    | some (.setting value) => .ok (Setting.text value).toUTF8

/-- The disk with another node at a place. -/
def set (disk : Disk) (place : Place) (node : Node) : Disk :=
  { disk with nodes := (place, node) :: disk.nodes.filter (fun entry => entry.1 != place) }

/-- The names that lead to the last one, for a path that ends in slashes, and back into their directory. -/
def namesToLast (path : String) : List String :=
  (((names path).reverse.dropWhile (· = "")).drop 1).reverse ++ ["."]

/-- The place that a path opens for writing.  A path that ends in a slash can only mean a directory, whatever its last
name, and below `/proc` nothing new can be made. -/
def create (disk : Disk) (path : String) : Except DiskFault Place :=
  if path.toList.getLast? = some '/' then
    match disk.follow path (namesToLast path) with
    | .error fault => .error fault
    | .ok _ => .error .isDirectory
  else
    match disk.follow path (names path) with
    | .error fault => .error fault
    | .ok place =>
      match disk.node? place with
      | some .directory => .error .isDirectory
      | some _ => .ok place
      | none => if place.getLast? = some "proc" then .error .missing else .ok place

/-- The number of bytes in the files besides the one at a place. -/
def sizeBesides (disk : Disk) (place : Place) : Nat :=
  (disk.nodes.filter fun entry => entry.1 != place).foldl (fun n entry => n + entry.2.size) 0

/-- For how many of `wanted` bytes there is room at a place. -/
def room (disk : Disk) (place : Place) (wanted : Nat) : Nat :=
  match disk.capacity with
  | some capacity => min wanted (capacity - disk.sizeBesides place)
  | none => wanted

/-- Replaces what stands at a place that was opened for writing.  A file holds what there is room for also when that is
not all. -/
def fill (disk : Disk) (place : Place) (contents : ByteArray) : Except DiskFault Unit × Disk :=
  match disk.node? place with
  | some .nullDevice => (.ok (), disk)
  | some .fullDevice => (if contents.isEmpty then .ok () else .error .noSpace, disk)
  | some (.setting value) =>
    let (result, value') := Setting.rewrite value (Setting.pieces contents.data.toList)
    (result, disk.set place (.setting value'))
  | _ =>
    let size := disk.room place contents.size
    (if size < contents.size then .error .noSpace else .ok (), disk.set place (.file (contents.extract 0 size)))

/-- Creates or replaces a file: whether that succeeds, and the disk afterwards. -/
def write (disk : Disk) (path : String) (contents : ByteArray) : Except DiskFault Unit × Disk :=
  match disk.create path with
  | .error fault => (.error fault, disk)
  | .ok place => disk.fill place contents

/-- The place that a path comes down to, whatever stands on the way. -/
def settle (path : String) : Place :=
  (names path).foldl enter (start path)

/-- Makes a directory and those above it, where nothing stands yet. -/
def makeDirectories (disk : Disk) : Place → Disk
  | [] => disk
  | name :: above =>
    let disk := disk.makeDirectories above
    match disk.node? above, disk.node? (name :: above) with
    | some .directory, none => disk.set (name :: above) .directory
    | _, _ => disk

/-- Makes a directory. -/
def makeDirectory (disk : Disk) (path : String) : Disk :=
  disk.makeDirectories (settle path)

/-- Puts a file on the disk; a path that cannot be written changes nothing. -/
def install (disk : Disk) (path : String) (contents : ByteArray) : Disk :=
  match (disk.makeDirectories ((settle path).drop 1)).write path contents with
  | (.ok (), disk') => disk'
  | (.error _, _) => disk

/-- The contents of a file as text, if it can be read and is UTF-8. -/
def readText? (disk : Disk) (path : String) : Option String :=
  match disk.read path with
  | .ok contents => String.fromUTF8? contents
  | .error _ => none

end Disk

end LineScript

import LangFile.Disk.Basic
import LangFile.Text.Display

/-!
# Reading and writing files

Files are read as UTF-8 text, in which every line end becomes a line feed; writing leaves them as
they are. A file is opened for writing, and thereby emptied or made, before the text is encoded, so
a text without an encoding leaves an empty file behind. A write that breaks off later leaves a file
with the beginning of the text: what the file held before is gone in both cases.

Other programs change the disk too: `Disk.install` and `Disk.remove` are what they can do to it.
-/

namespace LangFile

/-- Why a file cannot be read or written. -/
inductive FileError
  | path (fault : PathFault) (path : Text)
  | writing (fault : WriteFault)
  | unnameable
  | decoding (e : Utf8.DecodeError)
  | encoding (e : Utf8.EncodeError)
deriving DecidableEq

namespace FileError

/-- The wording of a file error. An open file is not known by its path any more. -/
def message : FileError → Text
  | path fault p => "[Errno " ++ Text.ofNat fault.number ++ "] " ++ Text.ofString fault.reason ++
      ": " ++ Text.display p
  | writing fault => "[Errno " ++ Text.ofNat fault.number ++ "] " ++ Text.ofString fault.reason
  | unnameable => "embedded null byte"
  | decoding e => e.message
  | encoding e => e.message

end FileError

/-- The text with every line end, a carriage return, a line feed, or both in this order, as a line
feed; `done` holds the text before, last first. -/
def normalizeLineEndsFrom (done : Text) : Text → Text
  | [] => done.reverse
  | .scalar '\r' :: .scalar '\n' :: rest => normalizeLineEndsFrom (.scalar '\n' :: done) rest
  | c :: rest =>
    normalizeLineEndsFrom ((if c = .scalar '\r' then .scalar '\n' else c) :: done) rest

/-- The text with every line end as a line feed. -/
def normalizeLineEnds (t : Text) : Text := normalizeLineEndsFrom [] t

namespace Disk

/-- The bytes of the file at a path. -/
def readBytes (d : Disk) (p : Path) : Except FileError (List UInt8) :=
  if !isNameable p then .error .unnameable
  else match d.resolve p with
    | .error fault => .error (.path fault p.toText)
    | .ok l =>
      match d.node? l with
      | some (.file bytes) => .ok bytes
      | some .directory => .error (.path .isDirectory p.toText)
      | none => .error (.path .notFound p.toText)

/-- The text of the file at a path. -/
def readText (d : Disk) (p : Path) : Except FileError Text :=
  match d.readBytes p with
  | .error e => .error e
  | .ok bytes =>
    match Utf8.decode bytes with
    | .error e => .error (.decoding e)
    | .ok t => .ok (normalizeLineEnds t)

/-- The place where a file is opened for writing. -/
def openPlace (d : Disk) (p : Path) : Except FileError Location :=
  if !isNameable p then .error .unnameable
  else match d.resolve p with
    | .error fault => .error (.path fault p.toText)
    | .ok l =>
      match d.node? l with
      | some .directory => .error (.path .isDirectory p.toText)
      | _ => .ok l

/-- Writes a text to the file at a path, which is made if need be. If the write breaks off, the
file is left with what was stored of the bytes. -/
def writeText (d : Disk) (p : Path) (t : Text) : Disk × Except FileError Unit :=
  match d.openPlace p with
  | .error e => (d, .error e)
  | .ok l =>
    match Utf8.encode t with
    | .error e => (d.put l (.file []), .error (.encoding e))
    | .ok bytes =>
      match d.broken? l bytes with
      | some b => (d.put l (.file (bytes.take b.stored)), .error (.writing b.fault))
      | none => (d.put l (.file bytes), .ok ())

/-- Makes the file at a path if there is none, and leaves it as it is otherwise. -/
def touch (d : Disk) (p : Path) : Disk × Except FileError Unit :=
  match d.openPlace p with
  | .error e => (d, .error e)
  | .ok l => (if (d.node? l).isSome then d else d.put l (.file []), .ok ())

/-- Makes a directory of each name below that of the name before, where there is none. A double dot
makes nothing. -/
def makeDirectoriesFrom (d : Disk) (here : Location) : List Text → Except PathFault Disk
  | [] => .ok d
  | name :: rest =>
    if name = ".." then makeDirectoriesFrom d here.up rest
    else if nameLimit < Utf8.byteLength name then .error .nameTooLong
    else
      let there := here.child name
      match d.node? there with
      | some .directory => makeDirectoriesFrom d there rest
      | some (.file _) => .error (if rest.isEmpty then .alreadyExists else .notDirectory)
      | none => makeDirectoriesFrom (d.put there .directory) there rest

/-- Makes the directory at a path, and those that lead to it, where there are none. -/
def makeDirectories (d : Disk) (p : Path) : Except FileError Disk :=
  if !isNameable p then .error .unnameable
  else
    let made := if pathLimit < Utf8.byteLength p.toText then .error .nameTooLong
      else d.makeDirectoriesFrom (startOf p) p.parts
    match made with
    | .error fault => .error (.path fault p.toText)
    | .ok d => .ok d

/-- The disk with a node at a path, in directories that are made if need be. A file takes the place
of another one, but not of a directory; a directory that is there already stays. -/
def install (d : Disk) (p : Path) : Node → Except FileError Disk
  | .directory => d.makeDirectories p
  | .file bytes => do
    let d ← d.makeDirectories p.parent
    let l ← d.openPlace p
    return d.put l (.file bytes)

/-- The disk without the file at a path. -/
def remove (d : Disk) (p : Path) : Except FileError Disk :=
  if !isNameable p then .error .unnameable
  else match d.resolve p with
    | .error fault => .error (.path fault p.toText)
    | .ok l =>
      match d.node? l with
      | some (.file _) => .ok (d.erase l)
      | some .directory => .error (.path .isDirectory p.toText)
      | none => .error (.path .notFound p.toText)

/-- The files and directories below the working directory, by path. -/
def listing (d : Disk) : List (Text × Node) :=
  d.entries.filterMap fun e =>
    if e.1.anchor = .above 0 then some (Text.joinWith "/" e.1.names, e.2) else none

/-- A file for the editor: an object without members when nothing exists at the path. -/
def loadText (d : Disk) (p : Path) : Except FileError Text :=
  match d.exists? p with
  | .error fault => .error (.path fault p.toText)
  | .ok false => .ok "\x7b\x7d"
  | .ok true => d.readText p

end Disk

end LangFile

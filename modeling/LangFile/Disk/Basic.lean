import LangFile.Path
import LangFile.Text.Utf8

/-!
# Disks

A disk holds files and directories at locations. A location is reached from the working directory or
from the root, step by step: every step but the last must lead to a directory, a double dot leads to
the directory above, and a name must not be too long. A disk says, too, which writes break off.

## Assumptions

* There are no links: each location is reached by its names alone, and no two share a file.
* Nobody lacks the right to look at, open or make anything.
* A name is a sequence of characters, each of which has an encoding in UTF-8; other sequences of
  bytes do not occur as names.
* What is found on the disk can be read, and directories and empty files can be made wherever their
  path allows it. Only the writing of a text into an open file may break off; what is added to a log
  is always stored.
* There is nothing but files and directories: no devices, pipes or sockets, and no times or modes.

## Main definitions

* `Disk.node?`: what stands at a location; the view through which every operation is described.
* `Disk.broken?`: the write that breaks off, and what it leaves behind.
* `Disk.resolve`: where a path leads.
* `Disk.exists?`: the existence test, which fails only on a name that is too long.
-/

namespace LangFile

/-- Where a location starts: at a directory some levels above the working directory, or at the
root. -/
inductive Anchor
  | above (levels : Nat)
  | root
deriving DecidableEq

/-- A place where a file or directory can be. -/
structure Location where
  anchor : Anchor := .above 0
  names : List Text := []
deriving DecidableEq

namespace Location

/-- The directory above; the root is above itself. -/
def up (l : Location) : Location :=
  if l.names.isEmpty then
    match l.anchor with
    | .above n => ⟨.above (n + 1), []⟩
    | .root => l
  else { l with names := l.names.dropLast }

/-- The location of a name in a directory. -/
def child (l : Location) (name : Text) : Location := { l with names := l.names ++ [name] }

end Location

/-- What stands at a location. -/
inductive Node
  | file (bytes : List UInt8)
  | directory
deriving DecidableEq

/-- Why a write into an open file breaks off. -/
inductive WriteFault
  | inputOutput
  | tooLarge
  | noSpace
  | quota
deriving DecidableEq

namespace WriteFault

/-- The system's number of the fault. -/
def number : WriteFault → Nat
  | inputOutput => 5
  | tooLarge => 27
  | noSpace => 28
  | quota => 122

/-- The system's wording of the fault. -/
def reason : WriteFault → String
  | inputOutput => "Input/output error"
  | tooLarge => "File too large"
  | noSpace => "No space left on device"
  | quota => "Disk quota exceeded"

end WriteFault

/-- A write that breaks off: how many of the bytes are stored before it does, at most, and why. -/
structure BrokenWrite where
  stored : Nat
  fault : WriteFault
deriving DecidableEq

/-- The files and directories by location, where the directories that locations start from are not
listed, and the writes that break off. What these depend on is left open: how much room there is on
the device, what one may use of it, what else is at work. They are known by the place and the bytes
of the write, and may be others whenever the disk has changed. -/
structure Disk where
  entries : List (Location × Node) := []
  broken? : Location → List UInt8 → Option BrokenWrite := fun _ _ => none

/-- Why nothing can be done at a path. -/
inductive PathFault
  | notFound
  | notDirectory
  | isDirectory
  | alreadyExists
  | nameTooLong
deriving DecidableEq

namespace PathFault

/-- The system's number of the fault. -/
def number : PathFault → Nat
  | notFound => 2
  | alreadyExists => 17
  | notDirectory => 20
  | isDirectory => 21
  | nameTooLong => 36

/-- The system's wording of the fault. -/
def reason : PathFault → String
  | notFound => "No such file or directory"
  | alreadyExists => "File exists"
  | notDirectory => "Not a directory"
  | isDirectory => "Is a directory"
  | nameTooLong => "File name too long"

end PathFault

namespace Disk

/-- What stands at a location. -/
def node? (d : Disk) (l : Location) : Option Node :=
  if l.names.isEmpty then some .directory
  else (d.entries.find? fun e => e.1 = l).map (·.2)

/-- The disk with a node put at a location. -/
def put (d : Disk) (l : Location) (n : Node) : Disk :=
  { d with entries := (l, n) :: d.entries.filter fun e => e.1 ≠ l }

/-- The disk with bytes added at the end of the file at a location. -/
def append (d : Disk) (l : Location) (bytes : List UInt8) : Disk :=
  match d.node? l with
  | some (.file old) => d.put l (.file (old ++ bytes))
  | _ => d

/-- The disk with nothing at a location. -/
def erase (d : Disk) (l : Location) : Disk :=
  { d with entries := d.entries.filter fun e => e.1 ≠ l }

/-- The most bytes of a name. -/
def nameLimit : Nat := 255

/-- The most bytes of a path. -/
def pathLimit : Nat := 4095

/-- Follows names from a directory: the location they lead to, which may hold nothing when the last
name is new. -/
def follow (d : Disk) (here : Location) : List Text → Except PathFault Location
  | [] => .ok here
  | name :: rest =>
    if name = ".." then follow d here.up rest
    else if nameLimit < Utf8.byteLength name then .error .nameTooLong
    else
      let there := here.child name
      if rest.isEmpty then .ok there
      else match d.node? there with
        | some .directory => follow d there rest
        | some (.file _) => .error .notDirectory
        | none => .error .notFound

/-- The directory from which a path is followed: the working directory or the root. -/
def startOf (p : Path) : Location := if p.root = .relative then {} else ⟨.root, []⟩

/-- Where a path leads. -/
def resolve (d : Disk) (p : Path) : Except PathFault Location :=
  if pathLimit < Utf8.byteLength p.toText then .error .nameTooLong
  else d.follow (startOf p) p.parts

/-- The text of a path that the system can take: without a zero character or a lone surrogate. -/
def isNameable (p : Path) : Bool :=
  p.toText.all fun c => c ≠ .scalar '\x00' && match c with
    | .scalar _ => true
    | .surrogate _ => false

/-- What a path leads to; nothing also when it is blocked by a missing directory or by a file. -/
def lookup (d : Disk) (p : Path) : Except PathFault (Option Node) :=
  if isNameable p then
    match d.resolve p with
    | .ok l => .ok (d.node? l)
    | .error .nameTooLong => .error .nameTooLong
    | .error _ => .ok none
  else .ok none

/-- Whether anything exists at a path. -/
def exists? (d : Disk) (p : Path) : Except PathFault Bool := (d.lookup p).map Option.isSome

theorem node?_put_self (d : Disk) {l : Location} (n : Node) (h : l.names.isEmpty = false) :
    (d.put l n).node? l = some n := by
  simp [node?, put, h]

theorem node?_put_of_ne (d : Disk) {l m : Location} (n : Node) (h : m ≠ l) :
    (d.put l n).node? m = d.node? m := by
  unfold node? put
  split
  · rfl
  · rw [List.find?_cons_of_neg (by simpa using fun e => h e.symm), List.find?_filter]
    congr 2
    funext e
    by_cases he : e.1 = m <;> simp_all

theorem node?_append_self (d : Disk) {l : Location} {old : List UInt8}
    (h : d.node? l = some (.file old)) (bytes : List UInt8) :
    (d.append l bytes).node? l = some (.file (old ++ bytes)) := by
  have hl : l.names.isEmpty = false := by
    cases hn : l.names.isEmpty with
    | false => rfl
    | true => simp [node?, hn] at h
  unfold append
  rw [h]
  exact node?_put_self d _ hl

theorem node?_append_of_ne (d : Disk) {l m : Location} (h : m ≠ l) (bytes : List UInt8) :
    (d.append l bytes).node? m = d.node? m := by
  unfold append
  split
  · exact node?_put_of_ne d _ h
  · rfl

end Disk

end LangFile

import LangFile.Disk.File
import LangFile.Skeleton

/-!
# Skeleton files

A skeleton is written next to its language file. The free name is the first of `name.json`,
`name_2.json`, `name_3.json` and so on at which nothing exists.
-/

namespace LangFile

/-- Why a skeleton file cannot be made. -/
inductive SkeletonError
  | source (e : Json.Error)
  | file (e : FileError)
deriving DecidableEq

namespace Disk

/-- Writes the skeleton of a text to a file. The skeleton is built before the file is opened. -/
def saveSkeleton (d : Disk) (source : Text) (target : Path) : Disk × Except SkeletonError Unit :=
  match Skeleton.build source with
  | .error e => (d, .error (.source e))
  | .ok content =>
    match d.writeText target content with
    | (d', .error e) => (d', .error (.file e))
    | (d', .ok ()) => (d', .ok ())

/-- The name of `p` with a number before its ending. -/
def numbered (p : Path) (n : Nat) : Text :=
  p.stem ++ "_" ++ Text.ofNat n ++ p.suffix

/-- The first path from number `n` on at which nothing exists, trying at most `tries` numbers. -/
def firstFree (d : Disk) (source first : Path) : (tries n : Nat) → Except FileError Path
  | 0, n => .ok (source.sibling (numbered first n))
  | tries + 1, n =>
    let p := source.sibling (numbered first n)
    match d.exists? p with
    | .error fault => .error (.path fault p.toText)
    | .ok false => .ok p
    | .ok true => firstFree d source first tries (n + 1)

/-- Where a new language file next to `source` goes: to `name` if nothing exists there, else to the
first free numbered name. There are more numbers to try than things on the disk. -/
def freeTarget (d : Disk) (source : Path) (name : Text := "new_lang.json") :
    Except FileError Path :=
  let first := source.sibling name
  match d.exists? first with
  | .error fault => .error (.path fault first.toText)
  | .ok false => .ok first
  | .ok true => firstFree d source first (d.entries.length + 1) 2

end Disk

end LangFile

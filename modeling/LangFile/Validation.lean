import LangFile.Comparison
import LangFile.Disk.File
import LangFile.Json.Reader

/-!
# Validating a language file

A file with a JSON name ending is compared with the reference file beside it, unless it is itself
named like the reference. The outcome tells why there was nothing to compare with.
-/

namespace LangFile

/-- A usable reference: its text and the names of its members in order. -/
structure Reference where
  text : Text
  keys : List Text

/-- Why a file cannot serve as a reference. -/
inductive ReferenceFault
  | missing
  | unreadable (e : FileError)
  | malformed (text : Text) (e : Json.Error)
  /-- It is nested so deep that reading it is given up. -/
  | tooDeep
  | notObject
deriving DecidableEq

namespace Reference

/-- Reads the reference file at a path. -/
def load (d : Disk) (p : Path) : Except ReferenceFault Reference :=
  match d.readText p with
  | .error (.path .notFound _) => .error .missing
  | .error e => .error (.unreadable e)
  | .ok text =>
    match Json.parse text with
    | .error (.malformed .nesting _) => .error .tooDeep
    | .error e => .error (.malformed text e)
    | .ok j =>
      match j.names? with
      | some keys => .ok ⟨text, keys⟩
      | none => .error .notObject

end Reference

namespace Validation

/-- The usual name of a reference file. -/
def defaultReferenceName : Text := "en_us.json"

/-- The name endings of files that are validated. -/
def suffixes : List Text := [".json", ".jsonc"]

/-- The file at `p` is one that has a reference, going by its ending. -/
def hasReference (p : Path) : Bool := suffixes.contains (Text.toLower p.suffix)

/-- The reference of the file at `p`. -/
def referencePath (p : Path) (referenceName : Text) : Path := p.sibling referenceName

/-- What validating a file came to. -/
inductive Outcome
  /-- The file is no candidate: it has another ending, or is named like the reference. -/
  | exempt
  /-- There is nothing to compare with. -/
  | unreferenced (fault : ReferenceFault)
  | compared (c : Comparison)

/-- The findings, if the file was compared. -/
def Outcome.comparison? : Outcome → Option Comparison
  | compared c => some c
  | _ => none

/-- Validates the text of the file at `p`. -/
def run (d : Disk) (p : Path) (text referenceName : Text) : Outcome :=
  if !hasReference p || p.name = referenceName then .exempt
  else
    let ref := referencePath p referenceName
    match Reference.load d ref with
    | .error fault => .unreferenced fault
    | .ok r => .compared (Comparison.compare p.toText text ref.toText r.text r.keys)

/-- The findings about the text of the file at `p` and about its reference. -/
def validate (d : Disk) (p : Path) (text referenceName : Text) : Option Comparison :=
  (run d p text referenceName).comparison?

end Validation

end LangFile

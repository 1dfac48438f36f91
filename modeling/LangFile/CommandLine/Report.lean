import LangFile.CommandLine.Log
import LangFile.Preview.Page
import LangFile.Validation

/-!
# Checking and previewing files

Both commands go through the given paths in order. What a command writes about one path does not
depend on the others, unless a log is kept in a file that is read as well. What a command does not
contain ends it at that path.

## Main statements

* `Report.onEachLogged_none`: without a log, the paths are dealt with on the same disk.
-/

namespace LangFile.CommandLine

/-- What a command does not contain. -/
inductive Failure
  | file (e : FileError)
  /-- A file was to be compared, and its reference has no name. -/
  | noReferenceName
  /-- A reference is nested too deep. -/
  | nesting
deriving DecidableEq

/-- How a command ended. -/
inductive Ending
  | status (n : Nat)
  | failure (f : Failure)
deriving DecidableEq

/-- What a command wrote, and how it ended. -/
structure Report where
  output : Text := []
  errors : Text := []
  log : List Text := []
  ending : Ending := .status 0

namespace Report

/-- A line about a path on the error output. -/
def complaint (path reason : Text) : Text := "mclang: " ++ path ++ ": " ++ reason ++ "\n"

/-- A report that some path could not be dealt with. -/
def complain (path reason : Text) : Report :=
  { errors := complaint path reason, ending := .status 1 }

/-- The first report followed by the second. The status is the greater one; nothing follows a
failure. -/
def append (a b : Report) : Report :=
  match a.ending with
  | .failure _ => a
  | .status n =>
    { output := a.output ++ b.output
      errors := a.errors ++ b.errors
      log := a.log ++ b.log
      ending := match b.ending with
        | .status m => .status (max n m)
        | .failure e => .failure e }

instance : Append Report := ⟨append⟩

/-- The reports on the paths, in order, up to the first failure. -/
def onEach (f : Text → Report) : List Text → Report
  | [] => {}
  | path :: paths =>
    let r := f path
    match r.ending with
    | .failure _ => r
    | .status _ => r ++ onEach f paths

/-- The disk with what a report logs added to the log, if there is one. -/
def keep (r : Report) (log : Option Log) (d : Disk) : Disk :=
  match log with
  | some log => log.write d r.log
  | none => d

/-- The reports on the paths, in order, up to the first failure, where each path is dealt with on the
disk that the log has reached; and that disk at the end. -/
def onEachLogged (log : Option Log) (f : Disk → Text → Report) :
    Disk → List Text → Disk × Report
  | d, [] => (d, {})
  | d, path :: paths =>
    let r := f d path
    let d := r.keep log d
    match r.ending with
    | .failure _ => (d, r)
    | .status _ =>
      let (d, rest) := onEachLogged log f d paths
      (d, r ++ rest)

theorem onEachLogged_none (f : Disk → Text → Report) (d : Disk) (paths : List Text) :
    onEachLogged none f d paths = (d, onEach (f d) paths) := by
  induction paths with
  | nil => rfl
  | cons path paths ih =>
    simp only [onEachLogged, onEach, keep]
    split <;> simp_all

end Report

/-- What is logged when there is nothing to compare the file at `path` with. -/
def logLines (path referenceName : Text) (fault : ReferenceFault) : List Text :=
  let reference := (Validation.referencePath (Path.ofText path) referenceName).toText
  let unusable (reason : Text) : Text :=
    "DEBUG mclang.refdiff: reference " ++ reference ++ " unusable: " ++ reason
  let skip : Text :=
    "DEBUG mclang.refdiff: skip " ++ (Path.ofText path).toText ++ ": no usable " ++ referenceName
  match fault with
  | .missing => [skip]
  | .unreadable e => [unusable e.message, skip]
  | .malformed text e => [unusable (e.message text), skip]
  | .notObject => ["DEBUG mclang.refdiff: reference " ++ reference ++ " is not an object", skip]
  | .tooDeep => []

/-- One line for each finding about a document. -/
def findingLines (findings : List Finding) (d : Document) : Text :=
  findings.flatMap fun f => f.format d ++ "\n"

/-- The text of the reference file at a path, if it is usable. -/
def referenceText (d : Disk) (path : Text) : Text :=
  match Reference.load d (Path.ofText path) with
  | .ok r => r.text
  | .error _ => []

/-- The findings about the text of a file. -/
def checkText (d : Disk) (referenceName path text : Text) : Report :=
  match Validation.run d (Path.ofText path) text referenceName with
  | .exempt => {}
  | .unreferenced .tooDeep => { ending := .failure .nesting }
  | .unreferenced fault => { log := logLines path referenceName fault }
  | .compared c =>
    let reference := Document.new c.referencePath (referenceText d c.referencePath)
    { output := findingLines c.candidate (.new path text) ++ findingLines c.reference reference
      ending := .status (if c.hasErrors then 1 else 0) }

/-- The findings about one file. Without a name for references, a file that has one cannot be
checked. -/
def checkPath (d : Disk) (referenceName : Option Text) (path : Text) : Report :=
  let p := Path.ofText path
  match d.exists? p with
  | .error fault => { ending := .failure (.file (.path fault p.toText)) }
  | .ok false => .complain path "No such file"
  | .ok true =>
    match d.loadText p, referenceName with
    | .error e, _ => .complain path e.message
    | .ok text, some referenceName => checkText d referenceName path text
    | .ok _, none =>
      if Validation.hasReference p then { ending := .failure .noReferenceName } else {}

/-- The findings about each file; the status is one when an error was found or a file could not be
read. -/
def checkAll (d : Disk) (referenceName : Option Text) (paths : List Text) : Report :=
  Report.onEach (checkPath d referenceName) paths

/-- The findings about each file while a log is kept, and the disk at the end. -/
def checkAllLogged (log : Option Log) (d : Disk) (referenceName : Option Text)
    (paths : List Text) : Disk × Report :=
  Report.onEachLogged log (fun d => checkPath d referenceName) d paths

theorem checkAllLogged_none (d : Disk) (referenceName : Option Text) (paths : List Text) :
    checkAllLogged none d referenceName paths = (d, checkAll d referenceName paths) :=
  Report.onEachLogged_none _ d paths

/-- The preview page of one file. -/
def previewPath (d : Disk) (path : Text) : Report :=
  let p := Path.ofText path
  match d.exists? p with
  | .error fault => { ending := .failure (.file (.path fault p.toText)) }
  | .ok false => .complain path "No such file"
  | .ok true =>
    match d.loadText p with
    | .error e => { ending := .failure (.file e) }
    | .ok text => { output := Preview.page text }

/-- The preview page of each file. -/
def previewAll (d : Disk) (paths : List Text) : Report := Report.onEach (previewPath d) paths

end LangFile.CommandLine

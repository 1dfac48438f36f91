import LangFile.CommandLine.Arguments
import LangFile.CommandLine.Report

/-!
# The program

What the program does with its arguments on a disk: it prints help, complains about its call, checks
or previews files, or starts the editor on the documents it has read.
-/

namespace LangFile.CommandLine

/-- The editor as it is started: the name of references and the documents that are open. -/
structure Launch where
  referenceName : Option Text
  documents : List Document

/-- What became of a call. -/
structure Call where
  report : Report
  /-- The editor is started, and there is no status yet. -/
  launch : Option Launch := none
  /-- The log that was kept. -/
  log : Option Log := none
  /-- The disk at the end. -/
  disk : Disk

/-- A call is refused with the usage, and what is wrong. -/
def refuse (m : Misuse) : Report where
  errors := Text.ofString usage ++ "mclang: error: " ++ m.message ++ "\n"
  ending := .status 2

/-- Opens each file once, in order; a missing file is an empty object. -/
def openDocuments (d : Disk) (docs : List Document) : List Text → Except FileError (List Document)
  | [] => .ok docs
  | path :: paths =>
    match d.loadText (Path.ofText path) with
    | .error e => .error e
    | .ok text =>
      let doc := Document.new path text
      openDocuments d (if docs.any (·.path = doc.path) then docs else docs ++ [doc]) paths

/-- What at the path is no file, though it exists. -/
def isNotFile (d : Disk) (path : Text) : Except FileError Bool :=
  let p := Path.ofText path
  match d.lookup p with
  | .error fault => .error (.path fault p.toText)
  | .ok (some .directory) => .ok true
  | .ok _ => .ok false

/-- The first of the paths that is no file, though it exists. -/
def firstNotFile (d : Disk) : List Text → Except FileError (Option Text)
  | [] => .ok none
  | path :: paths =>
    match isNotFile d path with
    | .error e => .error e
    | .ok true => .ok (some path)
    | .ok false => firstNotFile d paths

/-- Starts the editor on the files. -/
def launch (d : Disk) (o : Options) : Report × Option Launch :=
  match firstNotFile d o.files with
  | .error e => ({ ending := .failure (.file e) }, none)
  | .ok (some path) => (.complain path "Not a file", none)
  | .ok none =>
    match openDocuments d [] o.files with
    | .error e => ({ errors := "mclang: " ++ e.message ++ "\n", ending := .status 1 }, none)
    | .ok documents => ({}, some ⟨o.referenceName, documents⟩)

/-- Carries out the options, with a log or without. -/
def perform (log : Option Log) (d : Disk) (o : Options) : Call :=
  if o.previewHtml then { report := previewAll d o.files, log, disk := d }
  else if o.check then
    let (disk, report) := checkAllLogged log d o.referenceName o.files
    { report, log, disk }
  else
    let (report, launched) := launch d o
    { report, launch := launched, log, disk := d }

/-- Opens the log, if one is asked for. -/
def openLog (d : Disk) (o : Options) (now : Moment) : Disk × Except FileError (Option Log) :=
  match o.logFile with
  | none => (d, .ok none)
  | some path =>
    let (d, log) := Log.start? d (Path.ofText path) now
    (d, log.map some)

/-- Calls the program at some time. -/
def call (d : Disk) (args : List Text) (now : Moment) : Call :=
  match Request.ofTexts args with
  | .help => { report := { output := Text.ofString helpText }, disk := d }
  | .misuse m => { report := refuse m, disk := d }
  | .run o =>
    match openLog d o now with
    | (d, .error e) => { report := { ending := .failure (.file e) }, disk := d }
    | (d, .ok log) => perform log d o

end LangFile.CommandLine

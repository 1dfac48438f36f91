import LangFile.App.Actions
import LangFile.CommandLine.Program
import Std.Time

/-!
# The command line

The outer layer: it takes what the disk holds at the paths that a call names, calls the program, and
writes what the program answers. Where the editor is started, the first screen of every editor is
printed.
-/

namespace LangFile.Main

/-- A text as a string; a lone surrogate is shown as the replacement character. -/
def toString (t : Text) : String :=
  String.ofList (t.map fun c => match c with
    | .scalar c => c
    | .surrogate _ => '\ufffd')

/-- What an open handle stands for: a directory can be opened, but not read. -/
def contents (handle : IO.FS.Handle) : IO Node := do
  try
    return .file (← handle.readBinToEnd).toList
  catch _ =>
    return .directory

/-- What stands at a path of the real disk. -/
def probe (path : String) : IO (Option Node) := do
  try
    return some (← contents (← IO.FS.Handle.mk path .read))
  catch _ =>
    return none

/-- The location of a path, the steps taken as they are written. -/
def locate (p : Path) : Location :=
  p.parts.foldl (fun (l : Location) (name : Text) => if name = ".." then l.up else l.child name)
    (if p.root = .relative then {} else ⟨.root, []⟩)

/-- The disk with what really stands at a path and at the directories that lead to it. -/
def capture (d : Disk) (p : Path) : IO Disk := do
  let mut disk := d
  for k in List.range p.parts.length do
    let q : Path := { p with parts := p.parts.take (k + 1) }
    match ← probe (toString q.toText) with
    | some node => disk := disk.put (locate q) node
    | none => pure ()
  return disk

/-- The paths that a call may read. -/
def namedPaths (o : CommandLine.Options) : List Path :=
  let files := o.files.map Path.ofText
  files ++ o.referenceName.toList.flatMap (fun name => files.map (Validation.referencePath · name)) ++
    o.logFile.toList.map fun path => (Path.ofText path).collapse

/-- The first screens of the editors. -/
def screens (l : CommandLine.Launch) : Text :=
  l.documents.zipIdx.flatMap fun p =>
    match { Editor.ofDocument p.1 p.2 with width := 80, height := 24 }.render with
    | .ok (_, screen) => screen.plain ++ "\n"
    | .error _ => []

/-- The time by the clock. -/
def now : IO CommandLine.Moment := do
  let t ← Std.Time.PlainDateTime.now
  return {
    year := t.year.toNat, month := t.month.val.toNat, day := t.day.val.toNat
    hour := t.hour.val.toNat, minute := t.minute.val.toNat, second := t.second.val.toNat
    millisecond := t.millisecond.val.toNat }

/-- Writes what a call has logged. -/
def writeLog (path : Text) (log : CommandLine.Log) (lines : List Text) : IO Unit :=
  IO.FS.withFile (toString (Path.ofText path).collapse.toText) .append fun h =>
    lines.forM fun line => h.putStr (toString (log.moment.record line))

/-- The wording of what a command does not contain. -/
def failureMessage : CommandLine.Failure → Text
  | .file e => e.message
  | .noReferenceName => "no name for references"
  | .nesting => "reference nested too deep"

/-- Calls the program on the real disk. -/
def run (args : List String) : IO UInt32 := do
  let texts := args.map Text.ofString
  let options := match CommandLine.Request.ofTexts texts with
    | .run o => some o
    | _ => none
  let disk ← ((options.map namedPaths).getD []).foldlM capture {}
  let call := CommandLine.call disk texts (← now)
  IO.print (toString call.report.output)
  IO.eprint (toString call.report.errors)
  if let (some path, some log) := (options.bind (·.logFile), call.log) then
    writeLog path log call.report.log
  if let some l := call.launch then IO.print (toString (screens l))
  match call.report.ending with
  | .status n => return n.toUInt32
  | .failure f =>
    IO.eprintln (toString (failureMessage f))
    return 1

end LangFile.Main

def main (args : List String) : IO UInt32 := LangFile.Main.run args

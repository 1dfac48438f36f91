import LangFile.Proofs.CommandLine.Report
import LangFile.Proofs.Disk.Existence

/-!
# Previewing several files

A missing file is complained about, and the pages of the others are written in the order of their
paths. But what stands at a path and cannot be read, as a directory or a file that is not UTF-8, ends
the command, and no page is written behind it.

1. The report on one file (`previews_previewPath`).
2. All files (`previewAll_independent`), and a file that is passed over
   (`previewAll_behind_directory`).
-/

namespace LangFile.CommandLine

variable {d : Disk} {path : Text} {paths : List Text}

/-- Why the command cannot go on at a path: it is too long for the existence test, or something is
there that cannot be read. -/
def obstacle? (d : Disk) (path : Text) : Option FileError :=
  let p := Path.ofText path
  match d.exists? p with
  | .error fault => some (.path fault p.toText)
  | .ok false => none
  | .ok true =>
    match d.readText p with
    | .error e => some e
    | .ok _ => none

/-- Nothing is at the path. -/
def isMissing (d : Disk) (path : Text) : Bool :=
  match d.exists? (.ofText path) with
  | .ok false => true
  | _ => false

/-- The page of the file at a path, if it can be read. -/
def pageAt (d : Disk) (path : Text) : Text :=
  match d.readText (.ofText path) with
  | .ok text => Preview.page text
  | .error _ => []

/-- The line about a path, if nothing is there. -/
def missingLine (d : Disk) (path : Text) : Text :=
  if isMissing d path then Report.complaint path "No such file" else []

/-! ## What is said about one file -/

/-- The report on a path says what is found there. -/
structure Previews (d : Disk) (path : Text) (r : Report) : Prop where
  output_eq : r.output = pageAt d path
  errors_eq : r.errors = missingLine d path
  failure?_eq : r.failure? = (obstacle? d path).map .file
  ending_eq : obstacle? d path = none → r.ending = .status (if isMissing d path then 1 else 0)

/-- The existence test fails, or nothing is there, or it cannot be read, or it can. -/
theorem test_and_read (d : Disk) (p : Path) :
    (∃ fault e, d.exists? p = .error fault ∧ d.readText p = .error e) ∨
      (∃ e, d.exists? p = .ok false ∧ d.readText p = .error e) ∨
      (∃ e, d.exists? p = .ok true ∧ d.readText p = .error e) ∨
      ∃ text, d.exists? p = .ok true ∧ d.readText p = .ok text := by
  cases hread : d.readText p with
  | ok text => exact Or.inr (Or.inr (Or.inr ⟨text, Disk.exists?_of_readText hread, rfl⟩))
  | error e =>
    cases hexists : d.exists? p with
    | error fault => exact Or.inl ⟨fault, e, rfl, rfl⟩
    | ok there =>
      cases there with
      | false => exact Or.inr (Or.inl ⟨e, rfl, rfl⟩)
      | true => exact Or.inr (Or.inr (Or.inl ⟨e, rfl, rfl⟩))

/-- **The report on a path,** one case for each of what may be there. -/
theorem previews_previewPath (d : Disk) (path : Text) : Previews d path (previewPath d path) := by
  rcases test_and_read d (.ofText path) with ⟨fault, e, hexists, hread⟩ | ⟨e, hexists, hread⟩ |
    ⟨e, hexists, hread⟩ | ⟨text, hexists, hread⟩
  · have hreport : previewPath d path
        = { ending := .failure (.file (.path fault (Path.ofText path).toText)) } := by
      simp only [previewPath, hexists]
    rw [hreport]
    constructor <;> simp [pageAt, missingLine, isMissing, obstacle?, Report.failure?, hexists, hread]
  · have hreport : previewPath d path = .complain path "No such file" := by
      simp only [previewPath, hexists]
    rw [hreport, Report.complain]
    constructor <;> simp [pageAt, missingLine, isMissing, obstacle?, Report.failure?, hexists, hread]
  · have hreport : previewPath d path = { ending := .failure (.file e) } := by
      simp only [previewPath, Disk.loadText, hexists, hread]
    rw [hreport]
    constructor <;> simp [pageAt, missingLine, isMissing, obstacle?, Report.failure?, hexists, hread]
  · have hreport : previewPath d path = { output := Preview.page text } := by
      simp only [previewPath, Disk.loadText, hexists, hread]
    rw [hreport]
    constructor <;> simp [pageAt, missingLine, isMissing, obstacle?, Report.failure?, hexists, hread]

/-- What can be read is neither missing nor an obstacle. -/
theorem exists_readText_iff : (∃ text, d.readText (.ofText path) = .ok text) ↔
    obstacle? d path = none ∧ isMissing d path = false := by
  rcases test_and_read d (.ofText path) with ⟨fault, e, hexists, hread⟩ | ⟨e, hexists, hread⟩ |
      ⟨e, hexists, hread⟩ | ⟨text, hexists, hread⟩ <;>
    simp [obstacle?, isMissing, hexists, hread]

/-- Nothing is written about an obstacle. -/
theorem silent_of_obstacle {e : FileError} (h : obstacle? d path = some e) :
    pageAt d path = [] ∧ missingLine d path = [] := by
  rcases test_and_read d (.ofText path) with ⟨fault, e, hexists, hread⟩ | ⟨e, hexists, hread⟩ |
      ⟨e, hexists, hread⟩ | ⟨text, hexists, hread⟩ <;>
    simp [pageAt, missingLine, isMissing, obstacle?, hexists, hread] at h ⊢

/-! ## All files -/

/-- The paths up to the first obstacle. -/
def passedPaths (d : Disk) (paths : List Text) : List Text :=
  paths.takeWhile fun path => !(obstacle? d path).isSome

theorem reached_previewPath : Report.reached (previewPath d) paths = passedPaths d paths := by
  refine Report.reached_eq_takeWhile fun path _ => ?_
  have hfailure := (previews_previewPath d path).failure?_eq
  cases hobstacle : obstacle? d path with
  | none =>
    rw [hobstacle] at hfailure
    exact Report.isFailure_of_failure?_eq_none hfailure
  | some e =>
    rw [hobstacle] at hfailure
    exact Report.isFailure_of_failure (Report.ending_of_failure? hfailure)

/-- What is written is what is there at the paths up to the first obstacle. -/
theorem output_previewAll (d : Disk) (paths : List Text) :
    (previewAll d paths).output = (passedPaths d paths).flatMap (pageAt d) ∧
      (previewAll d paths).errors = (passedPaths d paths).flatMap (missingLine d) := by
  have hpreviews := previews_previewPath d
  have hsilent : ∀ path ∈ paths, (previewPath d path).isFailure = true →
      (previewPath d path).output = [] ∧ (previewPath d path).errors = [] := by
    intro path _ hfailure
    rw [(hpreviews path).output_eq, (hpreviews path).errors_eq]
    cases hobstacle : obstacle? d path with
    | none =>
      have hending := (hpreviews path).ending_eq hobstacle
      simp [Report.isFailure_of_status hending] at hfailure
    | some e => exact silent_of_obstacle hobstacle
  obtain ⟨houtput, herrors⟩ := Report.output_onEach hsilent
  rw [reached_previewPath] at houtput herrors
  rw [funext fun path => (hpreviews path).output_eq] at houtput
  rw [funext fun path => (hpreviews path).errors_eq] at herrors
  exact ⟨houtput, herrors⟩

/-- **The command fails at the first obstacle.** -/
theorem ending_previewAll_eq_failure_iff {failure : Failure} :
    (previewAll d paths).ending = .failure failure ↔
      ∃ e, paths.findSome? (obstacle? d) = some e ∧ failure = .file e := by
  have hfailures : (fun path => (previewPath d path).failure?)
      = Option.map .file ∘ obstacle? d :=
    funext fun path => (previews_previewPath d path).failure?_eq
  rw [previewAll, Report.ending_onEach_eq_failure_iff, hfailures, ← List.map_findSome?,
    Option.map_eq_some_iff]
  exact exists_congr fun e => and_congr_right fun _ => eq_comm

/-- Without an obstacle the status says whether a file is missing. -/
theorem ending_previewAll_of_passed (h : ∀ path ∈ paths, obstacle? d path = none) :
    ((∀ path ∈ paths, isMissing d path = false) ∧ (previewAll d paths).ending = .status 0) ∨
      (∃ path ∈ paths, isMissing d path = true) ∧ (previewAll d paths).ending = .status 1 := by
  have hending : ∀ path ∈ paths,
      (previewPath d path).ending = .status (if isMissing d path then 1 else 0) :=
    fun path hpath => (previews_previewPath d path).ending_eq (h path hpath)
  have hstatus : ∀ path ∈ paths, (previewPath d path).ending = .status 0 ∨
      (previewPath d path).ending = .status 1 := by
    intro path hpath
    rw [hending path hpath]
    cases isMissing d path <;> simp
  rcases Report.ending_onEach_of_status hstatus with ⟨hzero, hend⟩ | ⟨⟨path, hpath, hone⟩, hend⟩
  · refine Or.inl ⟨fun path hpath => ?_, hend⟩
    have hpassed := (hending path hpath).symm.trans (hzero path hpath)
    simpa using hpassed
  · refine Or.inr ⟨⟨path, hpath, ?_⟩, hend⟩
    have hmissing := (hending path hpath).symm.trans hone
    simpa using hmissing

/--
**Files are previewed independently,** up to the first path with an obstacle. What is written is, in
the order of the paths up to there, the page of each file that can be read and a line about each
that is missing. If there is an obstacle, the command fails with the first one; if there is none, the
status is one exactly when a file is missing.
-/
theorem previewAll_independent (d : Disk) (paths : List Text) :
    let r := previewAll d paths
    let passed := passedPaths d paths
    r.output = passed.flatMap (pageAt d) ∧ r.errors = passed.flatMap (missingLine d) ∧
      (∀ failure, r.ending = .failure failure ↔
        ∃ e, paths.findSome? (obstacle? d) = some e ∧ failure = .file e) ∧
      (r.ending = .status 1 ↔ passed = paths ∧ ∃ path ∈ paths, isMissing d path = true) ∧
      (r.ending = .status 0 ↔ ∀ path ∈ paths, ∃ text, d.readText (.ofText path) = .ok text) := by
  intro r passed
  obtain ⟨houtput, herrors⟩ := output_previewAll d paths
  refine ⟨houtput, herrors, fun failure => ending_previewAll_eq_failure_iff, ?_⟩
  have hpassed : passed = paths ↔ ∀ path ∈ paths, obstacle? d path = none := by
    simp [passed, passedPaths, List.takeWhile_eq_self_iff]
  have hreadable : (∀ path ∈ paths, ∃ text, d.readText (.ofText path) = .ok text) ↔
      passed = paths ∧ ∀ path ∈ paths, isMissing d path = false := by
    simp only [exists_readText_iff, hpassed, imp_and, forall_and]
  rw [hreadable]
  cases hfirst : paths.findSome? (obstacle? d) with
  | some e =>
    have hend : r.ending = .failure (.file e) :=
      ending_previewAll_eq_failure_iff.2 ⟨e, hfirst, rfl⟩
    have hstopped : passed ≠ paths := by
      intro hall
      rw [List.findSome?_eq_none_iff.2 (hpassed.1 hall)] at hfirst
      simp at hfirst
    simp [hend, hstopped]
  | none =>
    have hall := List.findSome?_eq_none_iff.1 hfirst
    have hwhole := hpassed.2 hall
    have hdifferent : Ending.status 0 ≠ .status 1 := by simp
    rcases ending_previewAll_of_passed hall with ⟨hpresent, hend⟩ | ⟨⟨path, hpath, hmissing⟩, hend⟩
    · refine ⟨⟨fun hone => absurd (hend.symm.trans hone) hdifferent, ?_⟩,
        fun _ => ⟨hwhole, hpresent⟩, fun _ => hend⟩
      rintro ⟨-, path, hpath, hmissing⟩
      simp [hpresent path hpath] at hmissing
    · refine ⟨⟨fun _ => ⟨hwhole, path, hpath, hmissing⟩, fun _ => hend⟩,
        fun hzero => absurd (hzero.symm.trans hend) hdifferent, ?_⟩
      rintro ⟨-, hpresent⟩
      simp [hpresent path hpath] at hmissing

/-- **No page is written behind a directory,** though the file there can be read. -/
theorem previewAll_behind_directory :
    let d : Disk := { entries := [(⟨.above 0, ["lang"]⟩, .directory),
      (⟨.above 0, ["ko_kr.json"]⟩, .file (Log.bytesOf "\x7b\x7d"))] }
    let r := previewAll d ["lang", "ko_kr.json"]
    d.readText (.ofText "ko_kr.json") = .ok "\x7b\x7d" ∧ r.output = [] ∧ r.errors = [] ∧
      r.ending = .failure (.file (.path .isDirectory "lang")) := by
  decide +kernel

end LangFile.CommandLine

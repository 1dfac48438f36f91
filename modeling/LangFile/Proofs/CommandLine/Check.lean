import LangFile.Proofs.CommandLine.Report
import LangFile.Proofs.Comparison.Spans
import LangFile.Proofs.Disk.Existence
import LangFile.Proofs.Document

/-!
# Checking several files

What is written about a file depends on that file and its reference alone, whatever other files are
checked and in which order. One thing is not contained: a reference that is nested too deep ends the
command, and nothing is written about the files that follow.

1. The report on one file, in each case of what becomes of it (`describes_checkPath`).
2. Where the findings are said to be (`isPlaced_of_mem_printed`).
3. All files (`output_checkAll`, `ending_checkAll`, `checkAll_independent`), and a file that is
   passed over (`checkAll_behind_nesting`).
-/

namespace LangFile

open Text

namespace CommandLine

variable {d : Disk} {name path : Text}

/-- The file is to be compared with a reference that is nested too deep. -/
def isStopped (d : Disk) (name path : Text) : Bool :=
  let p := Path.ofText path
  (d.readText p).isOk && Validation.hasReference p && p.name ≠ name &&
    match Reference.load d (Validation.referencePath p name) with
    | .error .tooDeep => true
    | _ => false

/-- The findings that are printed about the file at a path, each with the document whose text it is
about: those about the file, and then those about its reference. -/
def printed (d : Disk) (name path : Text) : List (Finding × Document) :=
  match d.readText (.ofText path) with
  | .error _ => []
  | .ok text =>
    match Validation.validate d (.ofText path) text name with
    | none => []
    | some c =>
      c.candidate.map (·, .new path text) ++
        c.reference.map (·, .new c.referencePath (referenceText d c.referencePath))

/-- The file is missing, cannot be read, or has an error among its findings. -/
def IsFaulty (d : Disk) (name path : Text) : Prop :=
  d.exists? (.ofText path) = .ok false ∨ (∃ e, d.readText (.ofText path) = .error e) ∨
    ∃ r ∈ printed d name path, r.1.severity = .error

/-- One line for each finding. -/
def printedLines (rs : List (Finding × Document)) : Text :=
  rs.flatMap fun r => r.1.format r.2 ++ "\n"

/-! ## What is said about one file -/

theorem checkPath_of_missing (h : d.exists? (.ofText path) = .ok false) :
    checkPath d (some name) path = .complain path "No such file" := by
  simp only [checkPath, h]

theorem checkPath_of_unreadable {e : FileError} (h : d.exists? (.ofText path) = .ok true)
    (hread : d.readText (.ofText path) = .error e) :
    checkPath d (some name) path = .complain path e.message := by
  simp only [checkPath, Disk.loadText, h, hread]

theorem checkPath_of_readText {text : Text} (hread : d.readText (.ofText path) = .ok text) :
    checkPath d (some name) path = checkText d name path text := by
  simp only [checkPath, Disk.loadText, Disk.exists?_of_readText hread, hread]

/-- A file that exists or not is missing, cannot be read, or is read. -/
theorem missing_or_read (h : ∃ b, d.exists? (.ofText path) = .ok b) :
    d.exists? (.ofText path) = .ok false ∨
      (d.exists? (.ofText path) = .ok true ∧ ∃ e, d.readText (.ofText path) = .error e) ∨
      ∃ text, d.readText (.ofText path) = .ok text := by
  obtain ⟨b, hb⟩ := h
  cases b with
  | false => exact .inl hb
  | true =>
    cases hread : d.readText (.ofText path) with
    | error e => exact .inr (.inl ⟨hb, e, rfl⟩)
    | ok text => exact .inr (.inr ⟨text, rfl⟩)

theorem readText_of_missing (h : d.exists? (.ofText path) = .ok false) :
    ∃ e, d.readText (.ofText path) = .error e :=
  Disk.exists_error_of_readText (by simp [h])

theorem isStopped_of_unreadable {e : FileError} (h : d.readText (.ofText path) = .error e) :
    isStopped d name path = false := by
  simp [isStopped, h, Except.isOk, Except.toBool]

theorem isStopped_iff {text : Text} (h : d.readText (.ofText path) = .ok text) :
    isStopped d name path = true ↔
      Validation.run d (.ofText path) text name = .unreferenced .tooDeep := by
  have hread : (d.readText (.ofText path)).isOk = true := by
    rw [h]
    rfl
  unfold isStopped Validation.run
  cases href : Validation.hasReference (.ofText path) with
  | false => simp [href]
  | true =>
    by_cases hname : (Path.ofText path).name = name
    · simp [hname]
    · cases hload : Reference.load d (Validation.referencePath (.ofText path) name) with
      | ok r => simp [hname, hload]
      | error fault => cases fault <;> simp [href, hname, hload, hread]

theorem printed_of_unreadable {e : FileError} (h : d.readText (.ofText path) = .error e) :
    printed d name path = [] := by
  simp only [printed, h]

theorem printed_of_validate {text : Text} (h : d.readText (.ofText path) = .ok text) :
    printed d name path = match Validation.validate d (.ofText path) text name with
      | none => []
      | some c => c.candidate.map (·, .new path text) ++
          c.reference.map (·, .new c.referencePath (referenceText d c.referencePath)) := by
  simp only [printed, h]

/-- The report on a file says what is printed about it, and whether it is faulty. -/
structure Describes (d : Disk) (name path : Text) (r : Report) : Prop where
  output_eq : r.output = printedLines (printed d name path)
  /-- Nothing is written when the reference is nested too deep. -/
  failure : isStopped d name path = true →
    r.ending = .failure .nesting ∧ r.output = [] ∧ r.errors = []
  faulty : isStopped d name path = false → IsFaulty d name path → r.ending = .status 1
  faultless : isStopped d name path = false → ¬ IsFaulty d name path → r.ending = .status 0

theorem describes_complain {e : FileError} (h : d.readText (.ofText path) = .error e)
    (reason : Text) : Describes d name path (.complain path reason) where
  output_eq := by
    rw [printed_of_unreadable h]
    rfl
  failure hstopped := by
    rw [isStopped_of_unreadable h] at hstopped
    simp at hstopped
  faulty _ _ := rfl
  faultless _ hfaultless := absurd (.inr (.inl ⟨e, h⟩)) hfaultless

theorem printed_of_not_compared {text : Text} (h : d.readText (.ofText path) = .ok text)
    (hrun : ∀ c, Validation.run d (.ofText path) text name ≠ .compared c) :
    printed d name path = [] := by
  rw [printed_of_validate h, Validation.validate]
  cases hr : Validation.run d (.ofText path) text name with
  | compared c => exact absurd hr (hrun c)
  | _ => rfl

theorem describes_stopped {text : Text} (h : d.readText (.ofText path) = .ok text)
    (hrun : Validation.run d (.ofText path) text name = .unreferenced .tooDeep) :
    Describes d name path (checkText d name path text) := by
  have hreport : checkText d name path text = { ending := .failure .nesting } := by
    simp only [checkText, hrun]
  have hstopped : isStopped d name path = true := (isStopped_iff h).2 hrun
  rw [hreport]
  refine ⟨?_, fun _ => ⟨rfl, rfl, rfl⟩, fun hstop => ?_, fun hstop => ?_⟩
  · rw [printed_of_not_compared h (by simp [hrun])]
    rfl
  · simp [hstopped] at hstop
  · simp [hstopped] at hstop

/-- A file that is not compared gives nothing to print, and is not faulty. -/
theorem describes_silent {text : Text} {log : List Text}
    (h : d.readText (.ofText path) = .ok text)
    (hrun : ∀ c, Validation.run d (.ofText path) text name ≠ .compared c)
    (hstopped : isStopped d name path = false) : Describes d name path { log } := by
  have hprinted := printed_of_not_compared h hrun
  refine ⟨?_, fun hstop => ?_, fun _ hfaulty => ?_, fun _ _ => rfl⟩
  · rw [hprinted]
    rfl
  · simp [hstopped] at hstop
  · rcases hfaulty with hmissing | ⟨e, herror⟩ | ⟨r, hr, -⟩
    · simp [Disk.exists?_of_readText h] at hmissing
    · simp [h] at herror
    · simp [hprinted] at hr

theorem describes_compared {text : Text} {c : Comparison}
    (h : d.readText (.ofText path) = .ok text)
    (hrun : Validation.run d (.ofText path) text name = .compared c) :
    Describes d name path (checkText d name path text) := by
  have hprinted : printed d name path = c.candidate.map (·, .new path text) ++
      c.reference.map (·, .new c.referencePath (referenceText d c.referencePath)) := by
    rw [printed_of_validate h, Validation.validate, hrun]
    rfl
  have hstopped : isStopped d name path = false := by
    rw [← Bool.not_eq_true, isStopped_iff h, hrun]
    simp
  have herrors : IsFaulty d name path ↔ c.hasErrors = true := by
    unfold IsFaulty
    rw [hprinted, Disk.exists?_of_readText h, h]
    simp [Comparison.hasErrors, or_and_right, exists_or]
  constructor
  · rw [hprinted]
    simp [checkText, hrun, printedLines, findingLines, List.flatMap_map]
  · intro hstop
    rw [hstopped] at hstop
    simp at hstop
  · intro _ hfaulty
    simp [checkText, hrun, herrors.1 hfaulty]
  · intro _ hfaultless
    rw [herrors, Bool.not_eq_true] at hfaultless
    simp [checkText, hrun, hfaultless]

theorem describes_checkText {text : Text} (h : d.readText (.ofText path) = .ok text) :
    Describes d name path (checkText d name path text) := by
  cases hrun : Validation.run d (.ofText path) text name with
  | compared c => exact describes_compared h hrun
  | exempt =>
    have hstopped : isStopped d name path = false := by
      rw [← Bool.not_eq_true, isStopped_iff h, hrun]
      simp
    have hreport : checkText d name path text = {} := by simp only [checkText, hrun]
    rw [hreport]
    exact describes_silent h (by simp [hrun]) hstopped
  | unreferenced fault =>
    by_cases hdeep : fault = .tooDeep
    · exact describes_stopped h (hdeep ▸ hrun)
    · have hstopped : isStopped d name path = false := by
        rw [← Bool.not_eq_true, isStopped_iff h, hrun]
        simpa using hdeep
      have hreport : checkText d name path text = { log := logLines path name fault } := by
        unfold checkText
        rw [hrun]
        cases fault with
        | tooDeep => exact absurd rfl hdeep
        | _ => rfl
      rw [hreport]
      exact describes_silent h (by simp [hrun]) hstopped

/-- **The report on a file.** -/
theorem describes_checkPath (h : ∃ b, d.exists? (.ofText path) = .ok b) :
    Describes d name path (checkPath d (some name) path) := by
  rcases missing_or_read h with hmissing | ⟨hexists, e, hread⟩ | ⟨text, hread⟩
  · obtain ⟨e, hread⟩ := readText_of_missing hmissing
    rw [checkPath_of_missing hmissing]
    exact describes_complain hread _
  · rw [checkPath_of_unreadable hexists hread]
    exact describes_complain hread _
  · rw [checkPath_of_readText hread]
    exact describes_checkText hread

theorem Describes.isFailure_eq {r : Report} (h : Describes d name path r) :
    r.isFailure = isStopped d name path := by
  cases hstopped : isStopped d name path with
  | true => exact Report.isFailure_of_failure (h.failure hstopped).1
  | false =>
    by_cases hfaulty : IsFaulty d name path
    · exact Report.isFailure_of_status (h.faulty hstopped hfaulty)
    · exact Report.isFailure_of_status (h.faultless hstopped hfaulty)

/-! ## Where findings are said to be -/

/-- The printed line names the place of a literal of the finding's key, in the text that the
finding's file is read with. Rows and columns count from one. -/
def IsPlaced (d : Disk) (r : Finding × Document) : Prop :=
  ∃ before raw after,
    d.readText (.ofText r.1.path) = .ok (before ++ (literal raw ++ after)) ∧ IsBody raw ∧
      unescape raw = r.1.key ∧
      r.1.format r.2 = r.1.path ++ ":" ++ Text.ofNat (before.count (.scalar '\n') + 1) ++ ":" ++
        Text.ofNat (before.lastLine.length + 1) ++ ": " ++ Text.ofString r.1.severity.name ++
        ": " ++ r.1.message

theorem isPlaced_of_pointsInto {f : Finding} {t : Text} (hread : d.readText (.ofText path) = .ok t)
    (hpath : f.path = (Path.ofText path).toText) (h : f.PointsInto t) :
    IsPlaced d (f, .new path t) := by
  obtain ⟨before, raw, after, rfl, hbody, hspan, hkey⟩ := h
  refine ⟨before, raw, after, ?_, hbody, hkey, ?_⟩
  · show d.readText (.ofText f.path) = _
    rw [hpath, Path.ofText_toText (Path.isNormal_ofText path), hread]
  · have hposition := Document.positionAt_new path before (literal raw ++ after)
    show (Document.new path _).path ++ ":" ++ _ ++ ":" ++ _ ++ ": " ++ _ ++ ": " ++ _ = _
    rw [hspan, hposition, hpath]
    rfl

section Validated

variable {text : Text} {c : Comparison}
  (h : Validation.validate d (.ofText path) text name = some c)

include h

/-- The reference is read once more for its line ends, and it is the text that was compared. -/
theorem readText_referencePath :
    d.readText (.ofText c.referencePath) = .ok (referenceText d c.referencePath) := by
  obtain ⟨-, -, r, hload, -⟩ := Validation.validate_eq_some_iff.1 h
  have hpath : Path.ofText c.referencePath = Validation.referencePath (.ofText path) name := by
    rw [Validation.referencePath_of_validate h]
    exact Path.ofText_toText (Path.isNormal_sibling (Path.isNormal_ofText path) name)
  rw [referenceText, hpath, hload]
  exact Reference.readText_of_load hload

theorem isPlaced_of_mem_candidate (hread : d.readText (.ofText path) = .ok text) {f : Finding}
    (hf : f ∈ c.candidate) : IsPlaced d (f, .new path text) :=
  isPlaced_of_pointsInto hread (Validation.path_of_mem_candidate h hf)
    (Validation.pointsInto_candidate h f hf)

theorem isPlaced_of_mem_reference {f : Finding} (hf : f ∈ c.reference) :
    IsPlaced d (f, .new c.referencePath (referenceText d c.referencePath)) := by
  have hread := readText_referencePath h
  obtain ⟨t, ht, hpoints⟩ := Validation.exists_pointsInto_reference h
  obtain rfl : referenceText d c.referencePath = t := Except.ok.inj (hread.symm.trans ht)
  refine isPlaced_of_pointsInto hread ?_ (hpoints f hf)
  have hnormal := Path.isNormal_sibling (Path.isNormal_ofText path) name
  rw [Validation.path_of_mem_reference h hf, Validation.referencePath_of_validate h]
  exact congrArg Path.toText (Path.ofText_toText hnormal).symm

end Validated

/-- **Printed findings are where they are said to be,** in the file or in its reference. -/
theorem isPlaced_of_mem_printed {r : Finding × Document} (h : r ∈ printed d name path) :
    IsPlaced d r := by
  cases hread : d.readText (.ofText path) with
  | error e => simp [printed_of_unreadable hread] at h
  | ok text =>
    rw [printed_of_validate hread] at h
    cases hvalidate : Validation.validate d (.ofText path) text name with
    | none => simp [hvalidate] at h
    | some c =>
      rw [hvalidate] at h
      rcases List.mem_append.1 h with h | h
      · obtain ⟨f, hf, rfl⟩ := List.mem_map.1 h
        exact isPlaced_of_mem_candidate hvalidate hread hf
      · obtain ⟨f, hf, rfl⟩ := List.mem_map.1 h
        exact isPlaced_of_mem_reference hvalidate hf

/-! ## All files -/

/-- What is written about a file alone. -/
theorem output_checkAll_singleton (hpath : ∃ b, d.exists? (.ofText path) = .ok b) :
    (checkAll d (some name) [path]).output = printedLines (printed d name path) := by
  rw [← (describes_checkPath hpath).output_eq]
  exact (Report.onEach_singleton (checkPath d (some name)) path).1

section All

variable {paths : List Text} (hexists : ∀ path ∈ paths, ∃ b, d.exists? (.ofText path) = .ok b)

include hexists

theorem reached_checkPath :
    Report.reached (checkPath d (some name)) paths
      = paths.takeWhile fun path => !isStopped d name path :=
  Report.reached_eq_takeWhile fun path hpath =>
    (describes_checkPath (hexists path hpath)).isFailure_eq

theorem output_checkAll :
    let alone (path : Text) := checkAll d (some name) [path]
    let reached := paths.takeWhile fun path => !isStopped d name path
    (checkAll d (some name) paths).output = reached.flatMap (fun path => (alone path).output) ∧
      (checkAll d (some name) paths).errors = reached.flatMap fun path => (alone path).errors := by
  intro alone reached
  have hsilent : ∀ path ∈ paths, (checkPath d (some name) path).isFailure = true →
      (checkPath d (some name) path).output = [] ∧
        (checkPath d (some name) path).errors = [] := by
    intro path hpath hfailure
    have hdescribes : Describes d name path (checkPath d (some name) path) :=
      describes_checkPath (hexists path hpath)
    exact (hdescribes.failure (hdescribes.isFailure_eq ▸ hfailure)).2
  obtain ⟨houtput, herrors⟩ := Report.output_onEach hsilent
  rw [reached_checkPath hexists] at houtput herrors
  have halone := Report.onEach_singleton (checkPath d (some name))
  refine ⟨houtput.trans ?_, herrors.trans ?_⟩
  · exact congrArg reached.flatMap (funext fun path => (halone path).1.symm)
  · exact congrArg reached.flatMap (funext fun path => (halone path).2.1.symm)

/-- What is written, in terms of what is found. -/
theorem output_checkAll_printed : (checkAll d (some name) paths).output =
    (paths.takeWhile fun path => !isStopped d name path).flatMap
      fun path => printedLines (printed d name path) := by
  rw [(output_checkAll hexists).1, List.flatMap_def, List.flatMap_def]
  refine congrArg List.flatten (List.map_congr_left fun path hpath => ?_)
  exact output_checkAll_singleton
    (hexists path ((List.takeWhile_prefix _).subset hpath))

/-- The files are all reached, and the status says whether one of them is faulty. -/
theorem ending_checkAll (hall : ∀ path ∈ paths, isStopped d name path = false) :
    ((∀ path ∈ paths, ¬ IsFaulty d name path) ∧ (checkAll d (some name) paths).ending = .status 0) ∨
      (∃ path ∈ paths, IsFaulty d name path) ∧
        (checkAll d (some name) paths).ending = .status 1 := by
  have hending : ∀ path ∈ paths,
      (IsFaulty d name path → (checkPath d (some name) path).ending = .status 1) ∧
        (¬ IsFaulty d name path → (checkPath d (some name) path).ending = .status 0) := by
    intro path hpath
    have hdescribes : Describes d name path (checkPath d (some name) path) :=
      describes_checkPath (hexists path hpath)
    exact ⟨hdescribes.faulty (hall path hpath), hdescribes.faultless (hall path hpath)⟩
  have hstatus : ∀ path ∈ paths, (checkPath d (some name) path).ending = .status 0 ∨
      (checkPath d (some name) path).ending = .status 1 := by
    intro path hpath
    by_cases hfaulty : IsFaulty d name path
    · exact .inr ((hending path hpath).1 hfaulty)
    · exact .inl ((hending path hpath).2 hfaulty)
  rcases Report.ending_onEach_of_status hstatus with ⟨hzero, hend⟩ | ⟨⟨path, hpath, hone⟩, hend⟩
  · refine .inl ⟨fun path hpath hfaulty => ?_, hend⟩
    have hone := (hending path hpath).1 hfaulty
    rw [hzero path hpath] at hone
    simp at hone
  · refine .inr ⟨⟨path, hpath, ?_⟩, hend⟩
    by_contra hfaultless
    rw [(hending path hpath).2 hfaultless] at hone
    simp at hone

theorem ending_checkAll_of_stopped
    (hreached : (paths.takeWhile fun path => !isStopped d name path) ≠ paths) :
    (checkAll d (some name) paths).ending = .failure .nesting := by
  rw [← reached_checkPath hexists] at hreached
  refine Report.ending_onEach_of_failure (fun path hpath hfailure => ?_) hreached
  have hdescribes : Describes d name path (checkPath d (some name) path) :=
    describes_checkPath (hexists path hpath)
  exact (hdescribes.failure (hdescribes.isFailure_eq ▸ hfailure)).1

end All

/--
**Files are checked independently,** up to the first one whose reference is nested too deep. Where
there is none, what is written is what is written about each file alone, in order, and the status is
one exactly when some file is missing, cannot be read or has an error among the findings printed
about it. What is printed about a file names the places of its findings, whichever of the two files
they are in.
-/
theorem checkAll_independent (d : Disk) (name : Text) {paths : List Text}
    (hexists : ∀ path ∈ paths, ∃ b, d.exists? (.ofText path) = .ok b) :
    let r := checkAll d (some name) paths
    let alone (path : Text) := checkAll d (some name) [path]
    let reached := paths.takeWhile fun path => !isStopped d name path
    r.output = reached.flatMap (fun path => (alone path).output) ∧
      r.errors = reached.flatMap (fun path => (alone path).errors) ∧
      (reached = paths → (r.ending = .status 1 ↔ ∃ path ∈ paths, IsFaulty d name path) ∧
        (r.ending = .status 0 ↔ ¬ ∃ path ∈ paths, IsFaulty d name path)) ∧
      (reached ≠ paths → r.ending = .failure .nesting) ∧
      ∀ path ∈ paths, (alone path).output = printedLines (printed d name path) ∧
        ∀ r ∈ printed d name path, IsPlaced d r := by
  intro r alone reached
  obtain ⟨houtput, herrors⟩ := @output_checkAll d name paths hexists
  refine ⟨houtput, herrors, ?_, ending_checkAll_of_stopped hexists, fun path hpath =>
    ⟨output_checkAll_singleton (hexists path hpath), fun r => isPlaced_of_mem_printed⟩⟩
  intro hreached
  have hall : ∀ path ∈ paths, isStopped d name path = false := by
    simpa using List.takeWhile_eq_self_iff.1 hreached
  rcases ending_checkAll hexists hall with ⟨hfaultless, hend⟩ | ⟨hfaulty, hend⟩
  · have hnone : ¬ ∃ path ∈ paths, IsFaulty d name path :=
      fun ⟨path, hpath, hfaulty⟩ => hfaultless path hpath hfaulty
    simp [r, hend, hnone]
  · simp [r, hend, hfaulty]

/-- A file that differs from its reference, and one whose reference is nested too deep. -/
def nested : Disk where
  entries := [(⟨.above 0, ["en_us.json"]⟩, .file (Log.bytesOf "\x7b\"a\": \"A\"\x7d")),
    (⟨.above 0, ["ko_kr.json"]⟩, .file (Log.bytesOf "\x7b\"b\": \"B\"\x7d")),
    (⟨.above 0, ["deep"]⟩, .directory),
    (⟨.above 0, ["deep", "en_us.json"]⟩, .file (List.replicate (Json.nestingLimit + 1) 0x5b)),
    (⟨.above 0, ["deep", "ko_kr.json"]⟩, .file (Log.bytesOf "\x7b\x7d"))]

theorem checkAll_independent_nested :
    let paths : List Text := ["none.json", "ko_kr.json", "deep"]
    let r := checkAll nested (some "en_us.json") paths
    (∀ path ∈ paths, ∃ b, nested.exists? (.ofText path) = .ok b) ∧
      r.output = paths.flatMap (fun path => (checkAll nested (some "en_us.json") [path]).output) ∧
      r.ending = .status 1 ∧ ∃ path ∈ paths, IsFaulty nested "en_us.json" path := by
  intro paths r
  have hexists : ∀ path ∈ paths, ∃ b, nested.exists? (.ofText path) = .ok b := by
    have htests : ∀ path ∈ paths, nested.exists? (.ofText path) = .ok false ∨
        nested.exists? (.ofText path) = .ok true := by
      decide +kernel
    exact fun path hpath => (htests path hpath).elim (⟨false, ·⟩) (⟨true, ·⟩)
  have hreached : paths.takeWhile (fun path => !isStopped nested "en_us.json" path) = paths := by
    decide +kernel
  have hend : r.ending = .status 1 := by decide +kernel
  obtain ⟨houtput, -, hending, -⟩ := checkAll_independent nested "en_us.json" hexists
  rw [hreached] at houtput
  exact ⟨hexists, houtput, hend, (hending hreached).1.1 hend⟩

/-- **Nothing is said about a file behind one that ends the command.** -/
theorem checkAll_behind_nesting :
    let paths : List Text := ["deep/ko_kr.json", "ko_kr.json"]
    let r := checkAll nested (some "en_us.json") paths
    (∀ path ∈ paths, nested.exists? (.ofText path) = .ok true) ∧
      r.output = [] ∧ r.ending = .failure .nesting ∧
      paths.flatMap (fun path => (checkAll nested (some "en_us.json") [path]).output) =
        "ko_kr.json:1:2: error: Key not present in en_us.json\n" ++
          "en_us.json:1:2: error: Missing translation in ko_kr.json\n" := by
  decide +kernel

end CommandLine

end LangFile

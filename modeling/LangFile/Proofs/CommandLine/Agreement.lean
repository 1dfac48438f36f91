import LangFile.Proofs.App.Choice
import LangFile.Proofs.App.Opened
import LangFile.Proofs.CommandLine.Check

/-!
# The command line and the application say the same

What is printed about a file itself is what the application has found about its document when it has
opened all the files and started. Both go back to one comparison of the file, which neither the
spelling of its path nor the other files matter to. Where the command line ends early, at a file
whose reference is nested too deep, the application goes on.

1. The findings that are printed about a file itself (`ownLines_eq`).
2. Both together (`checkAll_agrees`), and findings that are not printed (`checkAll_ends_early`).
-/

namespace LangFile.CommandLine

variable {d : Disk} {name path text : Text}

/-- The lines that are printed about the file itself, not about its reference. -/
def ownLines (d : Disk) (name path : Text) : List Text :=
  ((printed d name path).filter fun r => r.1.path = (Path.ofText path).toText).map fun r =>
    r.1.format r.2

/-- A reference has a name that files compared with it have not. -/
theorem path_ne_of_mem_reference {c : Comparison} {f : Finding} (hbare : Path.IsBareName name)
    (h : Validation.validate d (.ofText path) text name = some c) (hf : f ∈ c.reference) :
    f.path ≠ (Path.ofText path).toText := by
  obtain ⟨-, hname, -⟩ := Validation.validate_eq_some_iff.1 h
  intro hpath
  refine hname ?_
  rw [← Validation.name_referencePath hbare h, ← Validation.path_of_mem_reference h hf, hpath,
    Path.ofText_toText (Path.isNormal_ofText path)]

/-- **What is printed about a file itself** is what comparing it comes to. -/
theorem ownLines_eq (hbare : Path.IsBareName name)
    (hread : d.readText (.ofText path) = .ok text) :
    ownLines d name path
      = (((Validation.validate d (.ofText path) text name).map (·.candidate)).getD []).map
          (·.format (.new path text)) := by
  unfold ownLines
  rw [printed_of_validate hread]
  cases hvalidate : Validation.validate d (.ofText path) text name with
  | none => rfl
  | some c =>
    have hcandidate : (c.candidate.map fun f => (f, Document.new path text)).filter
        (fun r => r.1.path = (Path.ofText path).toText)
          = c.candidate.map fun f => (f, Document.new path text) := by
      rw [List.filter_eq_self]
      intro r hr
      obtain ⟨f, hf, rfl⟩ := List.mem_map.1 hr
      simpa using Validation.path_of_mem_candidate hvalidate hf
    have hreference (reference : Document) : (c.reference.map fun f => (f, reference)).filter
        (fun r => r.1.path = (Path.ofText path).toText) = [] := by
      rw [List.filter_eq_nil_iff]
      intro r hr
      obtain ⟨f, hf, rfl⟩ := List.mem_map.1 hr
      simpa using path_ne_of_mem_reference hbare hvalidate hf
    dsimp only
    rw [List.filter_append, hcandidate, hreference, List.append_nil, List.map_map]
    rfl

theorem loadText_of_readText (h : d.readText (.ofText path) = .ok text) :
    d.loadText (.ofText path) = .ok text := by
  simp only [Disk.loadText, Disk.exists?_of_readText h, h]

/--
**The command line and the application agree about each file,** when all files are there and can be
read. The lines that are printed are those of the files in order, up to one whose reference is nested
too deep; and those about a file itself are the findings about its document in the application, after
it has opened all the files and started, whether it is reached or not.
-/
theorem checkAll_agrees (hbare : Path.IsBareName name) {paths : List Text}
    (hread : ∀ path ∈ paths, ∃ text, d.readText (.ofText path) = .ok text) (width height : Nat) :
    ∃ a, App.new d paths name width height = .ok a ∧
      (checkAll d (some name) paths).output
        = (paths.takeWhile fun path => !isStopped d name path).flatMap
            (fun path => printedLines (printed d name path)) ∧
      ∀ path ∈ paths, (Path.ofText path).name ≠ name →
        let key := (Path.ofText path).toText
        ∃ doc, a.mount.document? key = some doc ∧
          ownLines d name path = (a.mount.findings key).map (·.format doc) := by
  have hexists : ∀ path ∈ paths, ∃ b, d.exists? (.ofText path) = .ok b := by
    intro path hpath
    obtain ⟨text, htext⟩ := hread path hpath
    exact ⟨true, Disk.exists?_of_readText htext⟩
  have hload : ∀ path ∈ paths, ∃ text, d.loadText (.ofText path) = .ok text := by
    intro path hpath
    obtain ⟨text, htext⟩ := hread path hpath
    exact ⟨text, loadText_of_readText htext⟩
  obtain ⟨a, hnew⟩ := App.exists_new hload name width height
  refine ⟨a, hnew, output_checkAll_printed hexists, fun path hpath hname => ?_⟩
  obtain ⟨text, hload, hdocument, hfindings⟩ := App.findings_mount hnew hbare hpath hname
  obtain ⟨text', hread'⟩ := hread path hpath
  obtain rfl : text' = text := Except.ok.inj ((loadText_of_readText hread').symm.trans hload)
  exact ⟨_, hdocument, by rw [ownLines_eq hbare hread', hfindings]⟩

theorem checkAll_agrees_nested :
    let paths : List Text := ["ko_kr.json", "./ko_kr.json", "deep/ko_kr.json", "en_us.json"]
    Path.IsBareName "en_us.json" ∧
      (∀ path ∈ paths, ∃ text, nested.readText (.ofText path) = .ok text) ∧
      ∃ a, App.new nested paths "en_us.json" 40 6 = .ok a ∧
        ∃ doc, a.mount.document? "ko_kr.json" = some doc ∧
          ownLines nested "en_us.json" "./ko_kr.json"
            = (a.mount.findings "ko_kr.json").map (·.format doc) := by
  intro paths
  have hbare : Path.IsBareName "en_us.json" := by decide +kernel
  have hread : ∀ path ∈ paths, ∃ text, nested.readText (.ofText path) = .ok text := by
    have hok : ∀ path ∈ paths, (nested.readText (.ofText path)).isOk = true := by decide +kernel
    intro path hpath
    have hpathOk := hok path hpath
    cases htext : nested.readText (.ofText path) with
    | error e => simp [htext, Except.isOk, Except.toBool] at hpathOk
    | ok text => exact ⟨text, rfl⟩
  obtain ⟨a, hnew, -, hagrees⟩ := checkAll_agrees hbare hread 40 6
  have hkey : (Path.ofText "./ko_kr.json").toText = "ko_kr.json" := by decide +kernel
  have hagree := hagrees "./ko_kr.json" (by simp [paths]) (by decide +kernel)
  rw [hkey] at hagree
  exact ⟨hbare, hread, a, hnew, hagree⟩

/-- **A file is not reported on, and there are findings about it.** -/
theorem checkAll_ends_early :
    let paths : List Text := ["deep/ko_kr.json", "ko_kr.json"]
    Path.IsBareName "en_us.json" ∧
      (∀ path ∈ paths, (nested.readText (.ofText path)).isOk = true) ∧
      (checkAll nested (some "en_us.json") paths).output = [] ∧
      ∃ a, App.new nested paths "en_us.json" 40 6 = .ok a ∧
        (a.mount.findings "ko_kr.json").map (·.message) = ["Key not present in en_us.json"] := by
  have hmessages : ((App.new nested ["deep/ko_kr.json", "ko_kr.json"] "en_us.json" 40 6).toOption.map
      fun a => (a.mount.findings "ko_kr.json").map (·.message))
        = some [Text.ofString "Key not present in en_us.json"] := by
    decide +kernel
  obtain ⟨a, hnew, hfindings⟩ := App.exists_eq_ok hmessages
  exact ⟨by decide +kernel, by decide +kernel, by decide +kernel, a, hnew, hfindings⟩

end LangFile.CommandLine

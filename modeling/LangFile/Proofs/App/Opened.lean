import LangFile.Proofs.App.Wiring
import LangFile.Proofs.Session.Passes

/-!
# What is open at the start

The files are read one after the other, and nobody listens yet. So each document is its file, and
when the session starts the findings about a document are those of its file: the language that is
found for a document agrees with the name ending that says whether a file has a reference.

1. Documents as they are loaded (`documents_openAll`, `document?_of_new`), and that they are
   (`exists_new`).
2. The state when the application is shown (`exists_isNew`).
3. What has been found by then (`findings_mount`).
-/

namespace LangFile

theorem Validation.language_of_hasReference {path text : Text}
    (h : hasReference (.ofText path) = true) :
    Session.validatedLanguages.contains (Document.new path text).language = true := by
  have hsuffix : Text.toLower (Path.ofText path).suffix ∈ suffixes := List.contains_iff_mem.1 h
  have hlanguage : (Document.new path text).language = (Language.ofPath (.ofText path)).name := rfl
  rw [hlanguage, Language.ofPath, Language.ofSuffix]
  rcases List.mem_pair.1 hsuffix with hjson | hjsonc
  · rw [hjson]
    decide
  · rw [hjsonc]
    decide

namespace App

variable {a a' : App} {d : Disk} {path : Text} {files : List Text}

/-- The document holds what its file is loaded with. -/
def IsLoaded (d : Disk) (doc : Document) : Prop :=
  ∃ path text, d.loadText (.ofText path) = .ok text ∧ doc = Document.new path text

/-! ## Opening files -/

/-- As long as nobody listens, a document is opened and nothing else happens. -/
theorem openDocument_eq (hnone : a.signal.subscriptions = []) (path text : Text) :
    a.openDocument Session.emit path text = a ∧ (Path.ofText path).toText ∈ a.paths ∨
      a.openDocument Session.emit path text
        = { a with documents := a.documents ++ [Document.new path text] } := by
  unfold Session.openDocument
  dsimp only
  split
  · next hopen => exact .inl ⟨rfl, mem_paths_of_document? hopen⟩
  · refine .inr (emit_of_subscribers_eq_nil ?_)
    unfold Session.subscribers
    rw [hnone]
    rfl

/-- **Documents hold what their files are loaded with,** and all files are open. -/
theorem documents_openAll (h : a.openAll files = .ok a') (hnone : a.signal.subscriptions = []) :
    (∀ doc ∈ a'.documents, doc ∈ a.documents ∨ IsLoaded a.disk doc) ∧ a.paths ⊆ a'.paths ∧
      ∀ path ∈ files, (Path.ofText path).toText ∈ a'.paths := by
  induction files generalizing a with
  | nil =>
    obtain rfl := Except.ok.inj h
    exact ⟨fun _ => .inl, List.Subset.refl _, List.forall_mem_nil _⟩
  | cons path files ih =>
    unfold openAll at h
    split at h
    · injection h
    · next text htext =>
      rcases openDocument_eq hnone path text with ⟨hsame, hopen⟩ | hopened
      · rw [hsame] at h
        obtain ⟨hloaded, hpaths, hfiles⟩ := ih h hnone
        exact ⟨hloaded, hpaths, List.forall_mem_cons.2 ⟨hpaths hopen, hfiles⟩⟩
      · rw [hopened] at h
        obtain ⟨hloaded, hpaths, hfiles⟩ := ih h hnone
        unfold paths at hpaths
        rw [List.map_append] at hpaths
        refine ⟨fun doc hdoc => ?_, fun q hq => hpaths (List.mem_append_left _ hq),
          List.forall_mem_cons.2 ⟨hpaths (List.mem_append_right _ List.mem_cons_self), hfiles⟩⟩
        rcases hloaded doc hdoc with hold | hnew
        · rcases List.mem_append.1 hold with hold | hnew
          · exact .inl hold
          · exact .inr ⟨path, text, htext, List.mem_singleton.1 hnew⟩
        · exact .inr hnew

theorem exists_openAll (hnone : a.signal.subscriptions = [])
    (hload : ∀ path ∈ files, ∃ text, a.disk.loadText (.ofText path) = .ok text) :
    ∃ a', a.openAll files = .ok a' := by
  induction files generalizing a with
  | nil => exact ⟨a, rfl⟩
  | cons path files ih =>
    obtain ⟨⟨text, htext⟩, hfiles⟩ := List.forall_mem_cons.1 hload
    unfold openAll
    rw [htext]
    dsimp only
    rcases openDocument_eq hnone path text with ⟨hsame, -⟩ | hopened
    · rw [hsame]
      exact ih hnone hfiles
    · rw [hopened]
      exact ih hnone hfiles

variable {referenceName : Text} {width height : Nat}

/-- Files that can all be loaded are opened. -/
theorem exists_new (hload : ∀ path ∈ files, ∃ text, d.loadText (.ofText path) = .ok text)
    (referenceName : Text) (width height : Nat) :
    ∃ a, App.new d files referenceName width height = .ok a :=
  exists_openAll rfl hload

/-- The document of a path does not depend on how the path is spelt. -/
theorem document_new_congr {path' : Text} (h : (Path.ofText path').toText = (Path.ofText path).toText)
    (text : Text) :
    Path.ofText path' = .ofText path ∧ Document.new path' text = Document.new path text := by
  have hpath := congrArg Path.ofText h
  rw [Path.ofText_toText (Path.isNormal_ofText path'),
    Path.ofText_toText (Path.isNormal_ofText path)] at hpath
  refine ⟨hpath, ?_⟩
  unfold Document.new
  rw [hpath]

section

variable (hnew : App.new d files referenceName width height = .ok a)

include hnew

theorem document?_of_new (hpath : path ∈ files) :
    ∃ text, d.loadText (.ofText path) = .ok text ∧
      a.document? (Path.ofText path).toText = some (.new path text) := by
  obtain ⟨hloaded, -, hfiles⟩ := documents_openAll hnew rfl
  obtain ⟨-, hnodup⟩ := openAll_eq hnew rfl List.nodup_nil
  obtain ⟨doc, hdoc, hkey⟩ := List.mem_map.1 (hfiles path hpath)
  rcases hloaded doc hdoc with hnone | ⟨path', text, htext, rfl⟩
  · exact absurd hnone List.not_mem_nil
  · obtain ⟨hsame, hdocument⟩ := document_new_congr hkey text
    have hopen := document?_of_mem hnodup hdoc
    rw [hsame] at htext
    rw [hkey, hdocument] at hopen
    exact ⟨text, htext, hopen⟩

/-! ## Starting -/

/-- When the session starts it is new, with the documents that were opened. Nothing but the panel is
drawn behind that. -/
theorem exists_isNew : ∃ shown : App, a.mount = refreshPanel (shown.start Session.emit) ∧
    shown.IsNew ∧ shown.disk = d ∧ shown.referenceName = referenceName ∧
      (shown.start Session.emit).documents = a.documents := by
  obtain ⟨heq, -⟩ := openAll_eq hnew rfl List.nodup_nil
  obtain ⟨shown, hmount, hdocuments, -, halone, -, hpreviews, hdiagnostics, hdisk, hname, hoverrun⟩ :=
    exists_shown (congrArg Session.signal heq)
  have hnone : shown.previews = [] := hpreviews.trans (congrArg Session.previews heq)
  have hnews : HearsFindings (Session.begun shown) := (halone.isWired_begun hnone).hears
  refine ⟨shown, hmount, ⟨hdiagnostics.trans (congrArg Session.diagnostics heq),
    hoverrun.trans (congrArg Session.overrun heq), fun p hp => ?_⟩,
    hdisk.trans (congrArg Session.disk heq), hname.trans (congrArg Session.referenceName heq),
    (refreshes_start hnews).frame.documents.trans hdocuments⟩
  rw [hnone] at hp
  exact absurd hp List.not_mem_nil

/-- **What is found about each file is found when the application has started,** and about a file
that is not compared there is nothing. -/
theorem findings_mount (hbare : Path.IsBareName referenceName) (hpath : path ∈ files)
    (hname : (Path.ofText path).name ≠ referenceName) :
    let key := (Path.ofText path).toText
    ∃ text, d.loadText (.ofText path) = .ok text ∧
      a.mount.document? key = some (.new path text) ∧
      a.mount.findings key
        = ((Validation.validate d (.ofText path) text referenceName).map (·.candidate)).getD [] := by
  intro key
  obtain ⟨text, htext, hdocument⟩ := document?_of_new hnew hpath
  obtain ⟨shown, hmount, hisNew, hdisk, hreference, hdocuments⟩ := exists_isNew hnew
  have hupdates := Session.updates_start shown
  have hopen : (shown.start Session.emit).document? key = some (.new path text) := by
    unfold Session.document? at hdocument ⊢
    rw [hdocuments]
    exact hdocument
  have hkey : Path.ofText key = .ofText path := Path.ofText_toText (Path.isNormal_ofText path)
  have hname' : (shown.start Session.emit).referenceName = referenceName :=
    hupdates.referenceName.trans hreference
  have hnot : ¬ (shown.start Session.emit).IsReference key := by
    intro hreferred
    refine hname ?_
    rw [← hkey, ← hname']
    exact Session.name_of_isReference (hname'.symm ▸ hbare) hreferred
  have hcompared : (shown.start Session.emit).comparison? key
      = Validation.validate d (.ofText path) text referenceName := by
    ext c
    have hdisk' : (shown.start Session.emit).disk = d := hupdates.disk.trans hdisk
    rw [Session.comparison?_eq_some_iff, hopen, hkey, hdisk', hname']
    constructor
    · rintro ⟨doc, hdoc, -, hvalidate⟩
      obtain rfl := Option.some.inj hdoc
      exact hvalidate
    · intro hvalidate
      obtain ⟨hhas, -⟩ := Validation.validate_eq_some_iff.1 hvalidate
      exact ⟨_, rfl, Validation.language_of_hasReference hhas, hvalidate⟩
  refine ⟨text, htext, ?_, ?_⟩
  · rw [hmount]
    exact hopen
  · rw [hmount, ← hcompared]
    show (shown.start Session.emit).findings key = _
    cases hc : (shown.start Session.emit).comparison? key with
    | some c => exact (Session.isUpToDate_start hisNew).current hnot c hc
    | none => exact (hupdates.untouched hnot hc).trans (Session.findings_begun hisNew key)

end

end App

end LangFile

import LangFile.Proofs.Session.Operation

/-!
# Findings in the course of a session

While the disk stays as it is, the findings about each document that is compared are those of its
text, whatever is edited, by whom and when. When a reference can no longer be used, the findings about
the documents compared with it stay as they were.

1. Findings on a disk that does not change (`findings_run`).
2. What an edit makes of the findings about its document on any disk (`findings_edit`), and findings
   that outlive their reference (`findings_outlive_reference`).
-/

namespace LangFile.Session

variable {V E : Type} [Host V E] [Host.Orderly V E] {s₀ s : Session V E} {p : Text}

/-! ## On one disk -/

/--
**The findings about a document are those of its present text** in any course of operations on one
disk, and there are findings about such documents and their references only.
-/
theorem findings_run (hnew : s₀.IsNew) (hbare : Path.IsBareName s₀.referenceName)
    (ops : List (Operation V E)) (hdisk : ∀ disk, .changeDisk disk ∉ ops) :
    let s := run ops (s₀.start Session.emit)
    s.overrun = false ∧
    (∀ p d c, s.document? p = some d → d.language ∈ validatedLanguages →
      Validation.validate s₀.disk (.ofText p) d.text s₀.referenceName = some c →
      s.findings p = c.candidate) ∧
    ∀ p ∈ s.diagnostics.map (·.1), ∃ q d c,
      s.document? q = some d ∧ d.language ∈ validatedLanguages ∧
      Validation.validate s₀.disk (.ofText q) d.text s₀.referenceName = some c ∧
      (p = q ∨ p = c.referencePath) := by
  intro s
  have hstart := updates_start s₀
  obtain ⟨hsame, hname⟩ := sources_run ops hdisk (s₀.start Session.emit)
  have hdisk₀ : s.disk = s₀.disk := hsame.trans hstart.disk
  have hname₀ : s.referenceName = s₀.referenceName := hname.trans hstart.referenceName
  have hend : s.IsUpToDate := isUpToDate_run ops hdisk (isUpToDate_start hnew)
  rw [← hdisk₀, ← hname₀]
  have hcompared {p : Text} {d : Document} {c : Comparison} (hd : s.document? p = some d)
      (hlanguage : d.language ∈ validatedLanguages)
      (hc : Validation.validate s.disk (.ofText p) d.text s.referenceName = some c) :
      s.comparison? p = some c :=
    comparison?_eq_some_iff.2 ⟨d, hd, List.contains_iff_mem.2 hlanguage, hc⟩
  refine ⟨hend.overrun, fun p d c hd hlanguage hc => ?_, fun p hp => ?_⟩
  · have hcomparison := hcompared hd hlanguage hc
    exact hend.current (not_isReference (hname₀ ▸ hbare) hcomparison) c hcomparison
  · rcases hend.posted hp with ⟨c, hc⟩ | ⟨q, c, hc, hreference⟩
    · obtain ⟨d, hd, hlanguage, hvalidate⟩ := comparison?_eq_some_iff.1 hc
      exact ⟨p, d, c, hd, List.contains_iff_mem.1 hlanguage, hvalidate, Or.inl rfl⟩
    · obtain ⟨d, hd, hlanguage, hvalidate⟩ := comparison?_eq_some_iff.1 hc
      exact ⟨q, d, c, hd, List.contains_iff_mem.1 hlanguage, hvalidate, Or.inr hreference.symm⟩

/-- The disk on which `en_us.json` holds the object with the one member `"a": "A"`. -/
def englishDisk : Disk where
  entries := [(⟨.above 0, ["en_us.json"]⟩,
    .file [0x7b, 0x22, 0x61, 0x22, 0x3a, 0x20, 0x22, 0x41, 0x22, 0x7d])]

/-- A session on that disk that has not started, with observers who follow a plan. -/
def observed (plan : List (List ObserverEdit)) : ObservedSession :=
  { ObservedSession.new englishDisk "en_us.json" false with outside := { plan } }

theorem isNew_observed (plan : List (List ObserverEdit)) : (observed plan).IsNew := by
  refine ⟨rfl, rfl, fun preview hpreview => ?_⟩
  have hnone : (observed plan).previews = [] := rfl
  rw [hnone] at hpreview
  simp at hpreview

/-- An object with one member, of which the reference knows nothing. -/
def strayMember : Text := "\x7b\"b\": \"B\"\x7d"

/-- What is found about it. -/
def strayFinding : Finding :=
  ⟨"ko_kr.json", ⟨1, 4⟩, .error, "Key not present in en_us.json", "b"⟩

/-- An observer replaces the text that has just been opened, and the findings are about the new one. -/
theorem findings_run_planned :
    let plan := [[], [.updateDocument "ko_kr.json" strayMember]]
    let ops := [.openPreview .raw, .edit (.openDocument "ko_kr.json" "\x7b\x7d"), .closePreview 0]
    (run ops ((observed plan).start Session.emit)).findings "ko_kr.json" = [strayFinding] := by
  intro plan ops
  obtain ⟨-, hfindings, -⟩ :=
    findings_run (isNew_observed plan) (by decide +kernel) ops (by simp [ops])
  have hdocument : ((run ops ((observed plan).start Session.emit)).document? "ko_kr.json").map
      (fun d => (d.language, d.text)) = some (Language.json.name, strayMember) := by
    decide +kernel
  have hcompared : (Validation.validate englishDisk (.ofText "ko_kr.json") strayMember
      "en_us.json").map (·.candidate) = some [strayFinding] := by
    decide +kernel
  obtain ⟨d, hd, hsame⟩ := Option.map_eq_some_iff.1 hdocument
  obtain ⟨hlanguage, htext⟩ := Prod.mk.inj hsame
  obtain ⟨c, hc, hcandidate⟩ := Option.map_eq_some_iff.1 hcompared
  have hjson : d.language ∈ validatedLanguages := hlanguage ▸ (by decide +kernel)
  exact (hfindings "ko_kr.json" d c hd hjson (htext ▸ hc)).trans hcandidate

/-! ## On a disk that changes -/

/--
**An edit renews the findings about its document if the document can be compared,** on whatever disk
there is by then, and leaves the findings as they are if it cannot.
-/
theorem findings_edit (hnew : s₀.IsNew) (ops : List (Operation V E)) {edit : ObserverEdit}
    (htarget : edit.target? (run ops (s₀.start Session.emit)) = some p) :
    let s := run ops (s₀.start Session.emit)
    let s' := edit.perform Session.emit s
    ¬ s'.IsReference p →
    s'.findings p = ((s'.comparison? p).map (·.candidate)).getD (s.findings p) := by
  intro s s' hnot
  have hlistening : s.IsListening := isListening_run ops (isUpToDate_start hnew).isListening
  cases hc : s'.comparison? p with
  | some c =>
    exact isCurrent_edit (meets_emit_updates (2 * s.budget + 2)) (Nat.le_refl _) htarget
      hlistening hnot c hc
  | none => exact (updates_edit_emit edit s).untouched hnot hc

/-- What is done before a reference is missed: a document is compared with it, and it is removed. -/
def bereaving : List (Operation PlainView Recorder) :=
  [.edit (.openDocument "ko_kr.json" strayMember), .changeDisk {}]

theorem findings_edit_bereft :
    let s := run bereaving ((observed []).start Session.emit)
    let s' := (ObserverEdit.updateDocument "ko_kr.json" "\x7b\x7d").perform Session.emit s
    s'.comparison? "ko_kr.json" = none ∧ s'.findings "ko_kr.json" = s.findings "ko_kr.json" := by
  intro s s'
  have hcompared : s'.comparison? "ko_kr.json" = none := by decide +kernel
  have hnot : ¬ s'.IsReference "ko_kr.json" := by
    intro hreference
    have hbare : Path.IsBareName s'.referenceName := by decide +kernel
    exact absurd (name_of_isReference hbare hreference) (by decide +kernel)
  have htarget : (ObserverEdit.updateDocument "ko_kr.json" "\x7b\x7d").target? s
      = some "ko_kr.json" := by decide +kernel
  have hfindings := findings_edit (isNew_observed []) bereaving htarget hnot
  exact ⟨hcompared, hfindings.trans (by rw [hcompared]; rfl)⟩

/-- **Findings outlive their reference,** and the text that they are about. -/
theorem findings_outlive_reference :
    let s := run bereaving ((observed []).start Session.emit)
    let s' := (ObserverEdit.updateDocument "ko_kr.json" "\x7b\x7d").perform Session.emit s
    (s'.document? "ko_kr.json").map (·.language) = some Language.json.name ∧
      (s'.document? "ko_kr.json").map (·.text) = some ("\x7b\x7d" : Text) ∧
      Validation.validate s'.disk (.ofText "ko_kr.json") "\x7b\x7d" s'.referenceName = none ∧
      s'.findings "ko_kr.json" = [strayFinding] := by
  decide +kernel

end LangFile.Session

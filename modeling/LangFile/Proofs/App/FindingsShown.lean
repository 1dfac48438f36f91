import LangFile.Proofs.App.Choice
import LangFile.Proofs.App.Happening

/-!
# Editors show the findings about their documents

Whenever findings about a document are posted they reach its editor at once, and nothing else changes
what an editor shows or what is stored. So an editor that has shown the findings of its document does
so from then on. A document that is opened later is validated before its editor is there, and that
begins without findings; it has to wait for the next ones.

1. What becomes of the findings that editors show (`Informs`).
2. What each step does to them.
3. What editors show in every run (`findings_shown`), and what a new one misses
   (`new_editor_misses_findings`).
-/

namespace LangFile

open Editor

namespace App

variable {a a' a'' b : App} {id : ViewId} {e e' e'' : Editor} {path : Text} {step : Step}

/-! ## What editors show -/

/-- An editor shows the findings about its document. -/
def ShowsFindings (a : App) (e : Editor) : Prop :=
  ∀ path, e.document = some path → e.findings = a.findings path

/-- An editor is the one that it was, on the same document. It shows the findings about it, or
neither what it shows nor what it is to show has changed. -/
def Follows (a a' : App) (e e' : Editor) : Prop :=
  e'.document = e.document ∧ (a'.ShowsFindings e' ∨
    e'.findings = e.findings ∧ ∀ path, e.document = some path → a'.findings path = a.findings path)

/-- All editors go on like this, and new ones show nothing if not the findings. -/
structure Informs (a a' : App) : Prop where
  kept {id : ViewId} {e : Editor} :
    a.views[id]? = some e → ∃ e', a'.views[id]? = some e' ∧ Follows a a' e e'
  fresh {id : ViewId} {e' : Editor} :
    a.views[id]? = none → a'.views[id]? = some e' → e'.findings = [] ∨ a'.ShowsFindings e'

/-- The document of an editor and the findings that it shows. -/
def label (e : Editor) : Option Text × List Finding := (e.document, e.findings)

theorem Follows.of_eq (hlabel : label e' = label e) (hdiagnostics : a'.diagnostics = a.diagnostics) :
    Follows a a' e e' := by
  obtain ⟨hdocument, hfindings⟩ := Prod.mk.inj hlabel
  refine ⟨hdocument, Or.inr ⟨hfindings, fun path _ => ?_⟩⟩
  unfold Session.findings
  rw [hdiagnostics]

theorem ShowsFindings.follows (h : a.ShowsFindings e) (hfollows : Follows a a' e e') :
    a'.ShowsFindings e' := by
  obtain ⟨hdocument, hshows | ⟨hsame, hstored⟩⟩ := hfollows
  · exact hshows
  · intro path hpath
    have hbefore : e.document = some path := hdocument.symm.trans hpath
    rw [hsame, hstored path hbefore]
    exact h path hbefore

theorem Follows.trans (h : Follows a a' e e') (h' : Follows a' a'' e' e'') :
    Follows a a'' e e'' := by
  refine ⟨h'.1.trans h.1, ?_⟩
  rcases h.2 with hshows | ⟨hsame, hstored⟩
  · exact Or.inl (hshows.follows h')
  · refine h'.2.imp_right fun ⟨hsame', hstored'⟩ => ⟨hsame'.trans hsame, fun path hpath => ?_⟩
    exact (hstored' path (h.1.trans hpath)).trans (hstored path hpath)

namespace Informs

/-- Neither what editors show nor what is stored has changed. -/
theorem of_labels (hlabels : a'.views.map label = a.views.map label)
    (hdiagnostics : a'.diagnostics = a.diagnostics) : Informs a a' := by
  have hlabel (id : ViewId) : a'.views[id]?.map label = a.views[id]?.map label := by
    rw [← List.getElem?_map, hlabels, List.getElem?_map]
  constructor
  · intro id e he
    have hsame := hlabel id
    rw [he] at hsame
    obtain ⟨e', he', heq⟩ := Option.map_eq_some_iff.1 hsame
    exact ⟨e', he', .of_eq heq hdiagnostics⟩
  · intro id e' hnone he'
    have hsame := hlabel id
    rw [hnone, he'] at hsame
    simp at hsame

theorem refl (a : App) : Informs a a := of_labels rfl rfl

theorem trans (h : Informs a a') (h' : Informs a' a'') : Informs a a'' where
  kept he := by
    obtain ⟨e', he', hfollows⟩ := h.kept he
    obtain ⟨e'', he'', hfollows'⟩ := h'.kept he'
    exact ⟨e'', he'', hfollows.trans hfollows'⟩
  fresh {id e''} hnone he'' := by
    cases he' : a'.views[id]? with
    | none => exact h'.fresh he' he''
    | some e' =>
      obtain ⟨e₁, he₁, hfollows⟩ := h'.kept he'
      obtain rfl := Option.some.inj (he₁.symm.trans he'')
      rcases h.fresh hnone he' with hnone | hshows
      · exact hfollows.2.symm.imp_left fun hsame => hsame.1.trans hnone
      · exact Or.inr (hshows.follows hfollows)

end Informs

/-! ## Steps -/

theorem informs_posted (a : App) (path : Text) (fs : List Finding) :
    Informs a (refreshEditors (a.withFindings path fs) path) where
  kept {id e} he := by
    have hview : (refreshEditors (a.withFindings path fs) path).views[id]? = some
        (if e.document = some path then e.setFindings ((a.withFindings path fs).findings path)
          else e) := by
      show ((a.withFindings path fs).views.map _)[id]? = _
      rw [List.getElem?_map]
      exact congrArg _ he
    refine ⟨_, hview, ?_⟩
    split
    · next hpath =>
      refine ⟨rfl, Or.inl fun other hother => ?_⟩
      obtain rfl := Option.some.inj (hpath.symm.trans hother)
      rfl
    · next hpath =>
      refine ⟨rfl, Or.inr ⟨rfl, fun other hother => ?_⟩⟩
      exact (Session.findings_withFindings a path fs other).trans
        (if_neg fun heq => hpath (hother.trans (congrArg some heq)))
  fresh {id e'} hnone he' := by
    have hview : (a.views.map _)[id]? = some e' := he'
    rw [List.getElem?_map, hnone] at hview
    simp at hview

theorem Beside.informs (h : Beside a a') : Informs a a' := by
  refine .of_labels (List.ext_getElem? fun id => ?_) h.diagnostics
  have hcore := h.getElem?_core id
  have hfindings := congrArg (fun l : List (List Finding) => l[id]?) h.findings
  simp only [List.getElem?_map] at hfindings ⊢
  cases he : a.views[id]? with
  | none =>
    rw [he] at hcore
    rw [Option.map_eq_none_iff.1 hcore]
  | some e =>
    rw [he] at hcore hfindings
    obtain ⟨e', he', hcore⟩ := Option.map_eq_some_iff.1 hcore
    rw [he'] at hfindings ⊢
    exact congrArg some (Prod.ext (congrArg Core.document hcore) (Option.some.inj hfindings))

theorem Refreshes.informs (h : Refreshes a a') : Informs a a' := by
  induction h with
  | beside h => exact h.informs
  | trans _ _ ih ih' => exact ih.trans ih'
  | posted a path fs => exact informs_posted a path fs
  | rendered a _ =>
    refine .of_labels ?_ ?_ <;>
    · unfold Session.showOutput
      split <;> rfl

/-- Another editor that shows the same comes in the place of one. -/
theorem informs_replace (he : a.views[id]? = some e) (hput : StaysPut e e') :
    Informs a (a.modifyView id fun _ => e') :=
  .of_labels (Session.map_modify_of_eq fun e₁ he₁ => by
    obtain rfl := Option.some.inj (he.symm.trans he₁)
    exact Prod.ext hput.document hput.findings) rfl

theorem informs_commitText (hwired : a.IsWired) (hpaired : a.IsPaired) (id : ViewId) :
    Informs a (a.commitText id) := by
  cases he : a.views[id]? with
  | none =>
    rw [commitText_of_view_eq_none he]
    exact .refl a
  | some e =>
    obtain ⟨d, -, -, ⟨-, heq⟩ | ⟨-, heq⟩⟩ := commitText_of_view hpaired he
    · rw [heq]
      exact .refl a
    · have htext : Informs a (a.withText d e.content) := .of_labels rfl rfl
      rw [heq]
      exact htext.trans (refreshes_changed hwired d e.content).informs

/-- An editor that is given the text of its document is given the findings, too. -/
theorem informs_reload {d : Document} (he : a.views[id]? = some e)
    (hdocument : e.document = some d.path) :
    Informs a (a.modifyView id fun e => (e.loadText d.text).setFindings (a.findings d.path)) where
  kept {id' e₁} he₁ := by
    show ∃ e', (a.views.modify id _)[id']? = some e' ∧ _
    by_cases hid : id = id'
    · subst hid
      obtain rfl := Option.some.inj (he.symm.trans he₁)
      rw [List.getElem?_modify_eq, he]
      refine ⟨_, rfl, rfl, Or.inl fun path hpath => ?_⟩
      obtain rfl := Option.some.inj (hdocument.symm.trans hpath)
      rfl
    · rw [List.getElem?_modify_ne _ _ hid]
      exact ⟨e₁, he₁, rfl, Or.inr ⟨rfl, fun _ _ => rfl⟩⟩
  fresh {id' e'} hnone he' := by
    have hview : (a.views.modify id _)[id']? = some e' := he'
    rw [List.getElem?_modify, hnone] at hview
    simp at hview

theorem informs_addEditor (a : App) (d : Document) (column : Nat) :
    Informs a (a.addEditor d column) where
  kept {id e} he := by
    refine ⟨e, ?_, rfl, Or.inr ⟨rfl, fun _ _ => rfl⟩⟩
    show (a.views ++ [_])[id]? = some e
    rw [List.getElem?_append_left (List.getElem?_eq_some_iff.1 he).1]
    exact he
  fresh {id e'} hnone he' := by
    rcases view_of_addEditor he' with hold | ⟨-, rfl⟩
    · rw [hnone] at hold
      simp at hold
    · exact Or.inl rfl

theorem Opens.informs (h : Opens a path a') : Informs a a' := by
  cases h with
  | @reloaded d id e hd he hdocument =>
    obtain rfl := Session.path_of_document? hd
    have hfocused := (beside_requestFocus (a.reloadEditor id d) id).informs
    rcases reloadEditor_of_view (d := d) he with ⟨-, heq⟩ | ⟨-, hreloaded⟩
    · rw [heq] at hfocused ⊢
      exact hfocused
    · exact ((informs_reload he hdocument).trans hreloaded.informs).trans hfocused
  | @added d b _ _ _ hopened hadded =>
    have hdocument : Informs a (a.withDocument d) := .of_labels rfl rfl
    exact ((hdocument.trans hopened.informs).trans (informs_addEditor b d _)).trans hadded.informs

/-- **What one step makes of the findings that editors show.** -/
theorem Happens.informs (h : Happens a step a') (hwired : a.IsWired) (hpaired : a.IsPaired) :
    Informs a a' := by
  have hqueue (queue : List Posted) : Informs a (a.withQueue queue) := .of_labels rfl rfl
  cases h with
  | refreshed h => exact h.informs
  | @pressed id _ _ e e' messages he hpress =>
    rw [edit_eq]
    have hreplaced := informs_replace he (staysPut_of_pressed (pressed_of_pressKey hpress))
    exact hreplaced.trans (.of_labels rfl rfl)
  | @committed id rest _ =>
    exact (hqueue rest).trans
      (informs_commitText (hwired.withQueue rest) (hpaired.withQueue rest) id)
  | @selected id rest _ =>
    exact (hqueue rest).trans (refreshes_selected hwired rest id).informs
  | @handled _ rest _ _ _ _ h => exact (hqueue rest).trans h.informs
  | @chosen _ id _ _ _ _ e e' _ he hreplaced h =>
    have hput := staysPut_of_replaceColumns hreplaced
    have hcommitted := informs_commitText (hwired.modifyView id fun _ => e')
      (hpaired.replace he hput) id
    exact ((informs_replace he hput).trans hcommitted).trans h.informs
  | opened _ hopening =>
    cases hopening with
    | refreshed h => exact h.informs
    | opened h hopens => exact h.informs.trans hopens.informs
    | @replaced b _ _ _ text d h _ h' hopens =>
      have htext : Informs b (b.withText d text) := .of_labels rfl rfl
      exact ((h.informs.trans htext).trans h'.informs).trans hopens.informs
  | watched _ hspares | unwatched _ hspares =>
    exact .of_labels (congrArg (List.map label) hspares.views) hspares.diagnostics

/-! ## Runs -/

/-- **What a run makes of them.** -/
theorem informs_of_run {steps : List Step} (h : Reachable a) (hrun : run steps a = .ok a') :
    Informs a a' := by
  induction steps generalizing a with
  | nil =>
    obtain rfl := Except.ok.inj hrun
    exact .refl a
  | cons step steps ih =>
    obtain ⟨next, htake, hrest⟩ := exists_of_run_cons hrun
    exact ((h.happens htake).informs h.keeps.1 h.keeps.2).trans (ih (h.step step htake) hrest)

theorem IsStart.showsFindings (h : a.IsStart) (he : a.views[id]? = some e) :
    a.ShowsFindings e := by
  intro path _
  obtain ⟨d, -, column, width, height, rfl⟩ := h.editors e (List.mem_of_getElem? he)
  unfold Session.findings
  rw [h.diagnostics]
  rfl

theorem IsPaired.length_eq (h : a.IsPaired) : a.views.length = a.documents.length := by
  have hlength := congrArg List.length h.places
  simpa [paths] using hlength

variable {disk : Disk} {files : List Text} {referenceName : Text} {width height : Nat}
  {steps : List Step}

/--
**An editor that has shown the findings about its document shows them from then on.** The editors
that are there at first do so, and one that is added later does, or it shows nothing yet. Whatever
happens then, an editor shows the findings about its document, or neither what it shows nor what is
stored has changed.
-/
theorem findings_shown (hnew : App.new disk files referenceName width height = .ok a)
    (hrun : run steps a.mount = .ok a') (he : a'.views[id]? = some e)
    (hpath : e.document = some path) :
    (e.findings = a'.findings path ∨ a.documents.length ≤ id ∧ e.findings = []) ∧
    ∀ more a'', run more a' = .ok a'' → ∃ e', a''.views[id]? = some e' ∧
      e'.document = some path ∧ (e'.findings = a''.findings path ∨
        e'.findings = e.findings ∧ a''.findings path = a'.findings path) := by
  obtain ⟨start, hstart, hdocuments, hmounted⟩ := exists_isStart hnew
  have hreachable := Reachable.mount hnew
  have hinforms := hmounted.informs.trans (informs_of_run hreachable hrun)
  refine ⟨?_, fun more a'' hmore => ?_⟩
  · cases hfirst : start.views[id]? with
    | some e₀ =>
      obtain ⟨e₁, he₁, hfollows⟩ := hinforms.kept hfirst
      obtain rfl := Option.some.inj (he₁.symm.trans he)
      exact Or.inl ((hstart.showsFindings hfirst).follows hfollows path hpath)
    | none =>
      rcases hinforms.fresh hfirst he with hnone | hshows
      · refine Or.inr ⟨?_, hnone⟩
        rw [← hdocuments, ← hstart.paired.length_eq]
        exact List.getElem?_eq_none_iff.1 hfirst
      · exact Or.inl (hshows path hpath)
  · obtain ⟨e', he', hdocument, hfollows⟩ :=
      (informs_of_run (hreachable.run hrun) hmore).kept he
    have hpath' := hdocument.trans hpath
    exact ⟨e', he', hpath', hfollows.imp (fun hshows => hshows path hpath')
      fun ⟨hsame, hstored⟩ => ⟨hsame, hstored path hpath⟩⟩

/-- A reference with one key. -/
def lonelyReference : Disk where
  entries := [(⟨.above 0, ["en_us.json"]⟩,
    .file [0x7b, 0x22, 0x61, 0x22, 0x3a, 0x20, 0x22, 0x41, 0x22, 0x7d])]

/-- The application with the reference open. -/
def openedReference : Except FileError App :=
  App.new lonelyReference ["en_us.json"] "en_us.json" 40 6

/-- A language file is made of the reference, and everything is handled. -/
def makeFile : List Step :=
  [.askForTarget, .submit "ko_kr.json"] ++ List.replicate 6 .handleFirst

/-- A line is ended in the new file, and everything is handled. -/
def typeInFile : List Step := .press 1 "enter" none :: List.replicate 6 .handleFirst

/-- The new file has an editor without findings. -/
theorem exists_made : ∃ (new a : App) (e : Editor), openedReference = .ok new ∧
    run makeFile new.mount = .ok a ∧ a.views[1]? = some e ∧ e.document = some "ko_kr.json" ∧
      e.findings = [] := by
  obtain ⟨new, hnew, hmade⟩ := exists_eq_ok (r := openedReference) (f := fun new =>
    (run makeFile new.mount).toOption.map fun a => a.views[1]?.map label)
    (y := some (some (some (Text.ofString "ko_kr.json"), []))) (by decide +kernel)
  obtain ⟨a, ha, hview⟩ := exists_eq_ok hmade
  obtain ⟨e, he, hlabel⟩ := Option.map_eq_some_iff.1 hview
  obtain ⟨hpath, hnone⟩ := Prod.mk.inj hlabel
  exact ⟨new, a, e, hnew, ha, he, hpath, hnone⟩

theorem findings_shown_typed : ∃ (a : App) (e : Editor),
    Reachable a ∧ a.views[1]? = some e ∧ e.document = some "ko_kr.json" ∧
      e.findings = a.findings "ko_kr.json" ∧ e.findings.length = 1 := by
  obtain ⟨new, a, e, hnew, ha, he, hpath, hnone⟩ := exists_made
  have htyped := eq_of_toOption_map hnew (f := fun new =>
    (run makeFile new.mount).toOption.map fun a => (run typeInFile a).toOption.map fun a' =>
      a'.views[1]?.map (·.findings.length))
    (y := some (some (some 1))) (by decide +kernel)
  obtain ⟨a', ha', hview⟩ := exists_eq_ok (eq_of_toOption_map ha htyped)
  obtain ⟨e₁, he₁, hone⟩ := Option.map_eq_some_iff.1 hview
  obtain ⟨e', he', hdocument, hfindings⟩ :=
    (findings_shown hnew ha he hpath).2 typeInFile a' ha'
  obtain rfl := Option.some.inj (he₁.symm.trans he')
  refine ⟨a', e₁, ((Reachable.mount hnew).run ha).run ha', he₁, hdocument, ?_, hone⟩
  refine hfindings.resolve_right fun hsame => ?_
  rw [hsame.1, hnone] at hone
  simp at hone

/-- **A new editor misses the findings about its document.** There is one, posted when the document
was opened, and the editor does not show it. -/
theorem new_editor_misses_findings : ∃ (a : App) (e : Editor),
    Reachable a ∧ a.outside.queue = [] ∧ a.views[1]? = some e ∧ e.document = some "ko_kr.json" ∧
      e.findings = [] ∧ (a.findings "ko_kr.json").length = 1 := by
  obtain ⟨new, a, e, hnew, ha, he, hpath, hnone⟩ := exists_made
  have hrest := eq_of_toOption_map hnew (f := fun new =>
    (run makeFile new.mount).toOption.map fun a =>
      (a.outside.queue, (a.findings "ko_kr.json").length)) (y := some ([], 1)) (by decide +kernel)
  have hposted := eq_of_toOption_map ha hrest
  obtain ⟨hqueue, hstored⟩ := Prod.mk.inj hposted
  exact ⟨a, e, (Reachable.mount hnew).run ha, hqueue, he, hpath, hnone, hstored⟩

end App

end LangFile

import LangFile.Proofs.App.Choice
import LangFile.Proofs.App.Happening

/-!
# Documents have the texts of their editors

Keys and completions change the text in an editor, and files that are opened replace it; the document
is changed when the news of that is handled, or together with the editor. Whatever comes first, an
editor and its document have the same text as soon as no news of the editor's text is left in the
queue.

1. An editor and its document (`Agrees`), and what leaves them as they are.
2. Giving a document the text of its editor, and an editor the text of its document.
3. What one step keeps, and every state (`documents_have_editor_texts`).
-/

namespace LangFile

open Editor

namespace App

variable {a a' b : App} {id id' : ViewId} {e e' : Editor} {path : Text} {step : Step}

/-! ## An editor and its document -/

/-- The document of an editor has its text. -/
def HasText (a : App) (e : Editor) : Prop :=
  ∃ d, e.document = some d.path ∧ a.document? d.path = some d ∧ d.text = e.content

/-- The document of an editor has its text, or the news of a change is still to be handled. -/
def Agrees (a : App) (id : ViewId) : Prop :=
  ∀ e, a.views[id]? = some e → .message id .textChanged ∈ a.outside.queue ∨ a.HasText e

theorem HasText.of_core (h : a.HasText e) (hcore : e'.core = e.core)
    (hdocuments : a'.documents = a.documents) : a'.HasText e' := by
  obtain ⟨d, hdocument, hd, htext⟩ := h
  simp only [core, Core.mk.injEq] at hcore
  obtain ⟨hsame, -, hbuffer, -⟩ := hcore
  refine ⟨d, hsame.trans hdocument, ?_, ?_⟩
  · unfold Session.document? at hd ⊢
    rwa [hdocuments]
  · rw [htext, content, content, hbuffer]

namespace Agrees

theorem frame (h : a.Agrees id) (hframe : Frame a a') : a'.Agrees id := by
  intro e' he'
  obtain ⟨e, he, hcore⟩ := hframe.exists_view_before he'
  exact (h e he).imp (fun hmem => hframe.queue.subset hmem)
    fun htext => htext.of_core hcore.symm hframe.documents

/-- Nothing but the queue and other editors has changed. -/
theorem of_view (h : a.Agrees id) (hview : a'.views[id]? = a.views[id]?)
    (hdocuments : a'.documents = a.documents)
    (hqueue : .message id .textChanged ∈ a.outside.queue →
      .message id .textChanged ∈ a'.outside.queue) : a'.Agrees id := by
  intro e he
  rw [hview] at he
  exact (h e he).imp hqueue fun htext => htext.of_core rfl hdocuments

/-- Something else than the news of the text has been taken out of the queue. -/
theorem withQueue {p : Posted} {rest : List Posted} (h : a.Agrees id)
    (hqueue : a.outside.queue = p :: rest) (hp : p ≠ .message id .textChanged) :
    (a.withQueue rest).Agrees id := by
  refine h.of_view rfl rfl fun hmem => ?_
  rw [hqueue] at hmem
  exact (List.mem_cons.1 hmem).resolve_left fun heq => hp heq.symm

end Agrees

/-! ## Giving texts -/

/-- An editor of another document does not see that a document gets another text. -/
theorem HasText.withText {d : Document} {text : Text} (h : a.HasText e)
    (hother : e.document ≠ some d.path) : (a.withText d text).HasText e := by
  obtain ⟨d', hdocument, hd', htext⟩ := h
  refine ⟨d', hdocument, ?_, htext⟩
  rw [document?_withText, hd', Option.map_some, if_neg fun heq => hother (by rw [hdocument, heq])]

/-- The text of an editor goes to its document. -/
theorem hasText_withText {d : Document} (hdocument : e.document = some d.path)
    (hd : a.document? d.path = some d) : (a.withText d e.content).HasText e := by
  refine ⟨d.setText e.content, ?_, ?_, Document.text_setText d e.content⟩
  · rw [Document.path_setText, hdocument]
  · rw [Document.path_setText, document?_withText, hd, Option.map_some, if_pos rfl]

/-- Whether an editor and its document agree or not, they do so when the text has been committed. -/
theorem agrees_commitText (hwired : a.IsWired) (hpaired : a.IsPaired)
    (h : ∀ id', id' ≠ id → a.Agrees id') (id' : ViewId) : (a.commitText id).Agrees id' := by
  cases he : a.views[id]? with
  | none =>
    rw [commitText_of_view_eq_none he]
    by_cases hid : id' = id
    · intro e he'
      rw [hid, he] at he'
      simp at he'
    · exact h id' hid
  | some e =>
    obtain ⟨d, hdocument, hd, hcommit⟩ := commitText_of_view hpaired he
    have hothers (id' : ViewId) (hid : id' ≠ id) : (a.withText d e.content).Agrees id' := by
      intro e' he'
      have hne : e'.document ≠ some d.path := fun heq =>
        hid (hpaired.eq_of_document he' he (heq.trans hdocument.symm))
      exact (h id' hid e' he').imp_right fun htext => htext.withText hne
    rcases hcommit with ⟨htext, heq⟩ | ⟨-, heq⟩
    · rw [heq]
      by_cases hid : id' = id
      · intro e' he'
        rw [hid, he] at he'
        obtain rfl := Option.some.inj he'
        exact Or.inr ⟨d, hdocument, hd, htext⟩
      · exact h id' hid
    · rw [heq]
      refine Agrees.frame ?_ (refreshes_changed hwired d e.content).frame
      by_cases hid : id' = id
      · intro e' he'
        have hsame : a.views[id']? = some e' := he'
        rw [hid, he] at hsame
        obtain rfl := Option.some.inj hsame
        exact Or.inr (hasText_withText hdocument hd)
      · exact hothers id' hid

/-- When a file has been opened, its editor has the text of the document. -/
theorem agrees_of_opens (hpaired : a.IsPaired) (hopens : Opens a path a')
    (h : ∀ id e, a.views[id]? = some e → e.document ≠ some path → a.Agrees id) (id' : ViewId) :
    a'.Agrees id' := by
  cases hopens with
  | @reloaded d id e hd he hdocument =>
    obtain rfl := Session.path_of_document? hd
    refine Agrees.frame ?_ (beside_requestFocus _ id).toFrame
    have hothers (hid : id' ≠ id) : a.Agrees id' := fun e' he' =>
      h id' e' he' (fun heq => hid (hpaired.eq_of_document he' he (heq.trans hdocument.symm))) e' he'
    rcases reloadEditor_of_view (d := d) he with ⟨htext, heq⟩ | ⟨-, hreloaded⟩
    · rw [heq]
      by_cases hid : id' = id
      · intro e' he'
        rw [hid, he] at he'
        obtain rfl := Option.some.inj he'
        exact Or.inr ⟨d, hdocument, hd, htext.symm⟩
      · exact hothers hid
    · refine Agrees.frame ?_ hreloaded.toFrame
      by_cases hid : id' = id
      · intro e' he'
        have hview : (a.views.modify id _)[id']? = some e' := he'
        rw [hid, List.getElem?_modify_eq, he] at hview
        obtain rfl := Option.some.inj hview
        exact Or.inr ⟨d, hdocument, hd, (Text.unlines_lines d.text).symm⟩
      · exact (hothers hid).of_view (List.getElem?_modify_ne _ _ fun heq => hid heq.symm) rfl
          fun hmem => hmem
  | @added d b _ hpath hnew hopened hadded =>
    refine Agrees.frame ?_ hadded.frame
    have hbefore (id : ViewId) : (a.withDocument d).Agrees id := by
      intro e he
      have hne : e.document ≠ some path := fun heq => by
        obtain ⟨d', -, hdocument, -, hd'⟩ := hpaired.exists_document he
        rw [Option.some.inj (hdocument.symm.trans heq), hnew] at hd'
        simp at hd'
      refine (h id e he hne e he).imp_right fun ⟨d', hdocument, hd', htext⟩ => ?_
      refine ⟨d', hdocument, (Session.document?_append (hpath ▸ hnew) _).trans ?_, htext⟩
      rw [if_neg fun heq => hne (by rw [hdocument, heq, hpath]), hd']
    intro e he
    rcases view_of_addEditor he with hold | ⟨-, rfl⟩
    · exact (hbefore id').frame hopened.frame e hold
    · refine Or.inr ⟨d, rfl, ?_, (Text.unlines_lines d.text).symm⟩
      show b.document? d.path = some d
      rw [hopened.frame.document?]
      exact (Session.document?_append (hpath ▸ hnew) _).trans (if_pos rfl)

/-! ## Steps and states -/

/-- **What one step keeps:** editors and documents agree. -/
theorem Happens.agrees (hhappens : Happens a step a') (hwired : a.IsWired) (hpaired : a.IsPaired)
    (h : ∀ id, a.Agrees id) (id' : ViewId) : a'.Agrees id' := by
  cases hhappens with
  | refreshed hrefreshes => exact (h id').frame hrefreshes.frame
  | @pressed id _ _ e e' messages he hpress =>
    rw [edit_eq]
    by_cases hid : id' = id
    · subst hid
      intro e₁ he₁
      have hview : (a.views.modify id' fun _ => e')[id']? = some e₁ := he₁
      rw [List.getElem?_modify_eq, he] at hview
      obtain rfl := Option.some.inj hview
      by_cases htext : .textChanged ∈ messages
      · exact Or.inl (List.mem_append_right _ (List.mem_map_of_mem htext))
      · -- the version says that the text is the same
        have hversion : e'.version = e.version :=
          not_not.1 fun hne => htext ((textChanged_mem_iff hpress).2 hne)
        have hpressed := pressed_of_pressKey hpress
        refine (h id' e he).imp (fun hmem => List.mem_append_left _ hmem) fun hhas => ?_
        obtain ⟨d, hdocument, hd, hsame⟩ := hhas
        refine ⟨d, (staysPut_of_pressed hpressed).document.trans hdocument, hd, ?_⟩
        exact hsame.trans (congrArg Text.unlines (hpressed.advances.2 hversion)).symm
    · exact (h id').of_view (List.getElem?_modify_ne _ _ fun heq => hid heq.symm) rfl
        fun hmem => List.mem_append_left _ hmem
  | @committed id rest hqueue =>
    refine agrees_commitText (hwired.withQueue rest) (hpaired.withQueue rest)
      (fun other hne => ?_) id'
    exact (h other).withQueue hqueue (by simpa using Ne.symm hne)
  | @selected id rest hqueue =>
    exact ((h id').withQueue hqueue (by simp)).frame (refreshes_selected hwired rest id).frame
  | handled hqueue htext _ hrefreshes =>
    exact ((h id').withQueue hqueue (htext id')).frame hrefreshes.frame
  | @chosen _ id _ _ _ _ e e' _ he hreplaced hrefreshes =>
    have hview := hpaired.replace he (staysPut_of_replaceColumns hreplaced)
    have hwired' := hwired.modifyView id fun _ => e'
    refine (agrees_commitText hwired' hview (fun other hne => ?_) id').frame hrefreshes.frame
    exact (h other).of_view (List.getElem?_modify_ne _ _ fun heq => hne heq.symm) rfl
      fun hmem => hmem
  | opened _ hopening =>
    cases hopening with
    | refreshed hrefreshes => exact (h id').frame hrefreshes.frame
    | opened hrefreshes hopens =>
      exact agrees_of_opens (hpaired.frame hrefreshes.frame) hopens
        (fun id _ _ _ => (h id).frame hrefreshes.frame) id'
    | @replaced b c _ path text d hrefreshes hd hreplaced hopens =>
      -- only the editor that is reloaded does not have the text of the document
      obtain rfl := Session.path_of_document? hd
      have hpaired' : c.IsPaired :=
        ((hpaired.frame hrefreshes.frame).withText d text).frame hreplaced.frame
      refine agrees_of_opens hpaired' hopens (fun id e he hne => ?_) id'
      refine Agrees.frame (a := b.withText d text) (fun e₁ he₁ => ?_) hreplaced.frame
      refine ((h id).frame hrefreshes.frame e₁ he₁).imp_right fun hhas => hhas.withText fun heq => ?_
      obtain ⟨e₂, he₂, hcore⟩ := hreplaced.frame.exists_view_before he
      obtain rfl := Option.some.inj (he₂.symm.trans he₁)
      exact hne ((congrArg Core.document hcore).symm.trans heq)
  | watched _ hspares | unwatched _ hspares =>
    exact (h id').of_view (congrArg (fun views => views[id']?) hspares.views) hspares.documents
      fun hmem => hspares.queue ▸ hmem

theorem IsStart.agrees (h : a.IsStart) (id : ViewId) : a.Agrees id := by
  intro e he
  obtain ⟨d, hd, column, width, height, rfl⟩ := h.editors e (List.mem_of_getElem? he)
  exact Or.inr ⟨d, rfl, document?_of_mem h.paired.nodup hd, (Text.unlines_lines d.text).symm⟩

theorem Reachable.agrees (h : Reachable a) (id : ViewId) : a.Agrees id := by
  induction h generalizing id with
  | mount hnew =>
    obtain ⟨start, hstart, -, hmounted⟩ := exists_isStart hnew
    exact (hstart.agrees id).frame hmounted.frame
  | step step hbefore htake ih =>
    exact (hbefore.happens htake).agrees hbefore.keeps.1 hbefore.keeps.2 ih id

/--
**No text is lost on its way to a document.** In every state an editor whose changes have all been
handled has the text of its document, in whatever order keys, messages, completions, saves and new
language files came. Every open document has exactly one editor, and every editor has its own column.
-/
theorem documents_have_editor_texts (h : Reachable a) :
    (∀ (id : ViewId) (e : Editor), a.views[id]? = some e →
      .message id .textChanged ∉ a.outside.queue →
      ∃ d, e.document = some d.path ∧ a.document? d.path = some d ∧ d.text = e.content) ∧
    (∀ d ∈ a.documents, a.document? d.path = some d ∧ ∃! id, a.viewDocument? id = some d.path) ∧
    ∀ (id : ViewId) (e : Editor), a.views[id]? = some e → e.column = id := by
  obtain ⟨-, hpaired⟩ := h.keeps
  refine ⟨fun id e he hhandled => (h.agrees id e he).resolve_left hhandled, fun d hd => ?_,
    fun id e he => ?_⟩
  · have hopen := document?_of_mem hpaired.nodup hd
    obtain ⟨id, e, he, hdocument⟩ := hpaired.exists_view (mem_paths_of_document? hopen)
    refine ⟨hopen, id, ?_, fun id' hid' => ?_⟩
    · exact Option.bind_eq_some_iff.2 ⟨e, he, hdocument⟩
    · obtain ⟨e', he', hdocument'⟩ := Option.bind_eq_some_iff.1 hid'
      exact hpaired.eq_of_document he' he (hdocument'.trans hdocument.symm)
  · obtain ⟨-, -, -, hcolumn, -⟩ := hpaired.exists_document he
    exact hcolumn

/-- A character is typed; the focus is handled, and then the news of the text. -/
theorem documents_have_editor_texts_typed : ∃ (a : App) (e : Editor) (d : Document),
    Reachable a ∧ a.views[0]? = some e ∧ e.document = some d.path ∧
      a.document? d.path = some d ∧ d.text = Text.ofString "x\x7b\x7d" := by
  obtain ⟨a, ha, heq⟩ := exists_eq_ok
    (r := startedOnEmpty.bind (run [.press 0 "x" (some "x"), .handleFirst, .handleFirst]))
    (f := fun a => (a.views[0]?.map (·.content), a.outside.queue))
    (y := (some (Text.ofString "x\x7b\x7d"), [.message 0 .selectionChanged])) (by decide +kernel)
  obtain ⟨hview, hqueue⟩ := Prod.mk.inj heq
  obtain ⟨e, he, hcontent⟩ := Option.map_eq_some_iff.1 hview
  have hreachable := reachable_of_startedOnEmpty ha
  obtain ⟨d, hdocument, hd, htext⟩ := (documents_have_editor_texts hreachable).1 0 e he
    (by rw [hqueue]; decide)
  exact ⟨a, e, d, hreachable, he, hdocument, hd, htext.trans hcontent⟩

end App

end LangFile

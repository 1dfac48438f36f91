import LangFile.Proofs.App.Refreshing
import LangFile.Proofs.Session.PreviewHistory

/-!
# Who listens, and which editor shows what

Two facts about the application hold at all times, and others rest on them. The subscriptions
are those of the session, of its preview and the one to the news of findings (`IsWired`); and the
editors stand beside each other as the documents do in the list of the open ones (`IsPaired`).

1. The subscriptions, and what starts and ends them.
2. Documents and their editors.
3. The state in which the application begins (`IsStart`, `exists_isStart`).

That every step keeps both is shown with what a step does, in `LangFile.Proofs.App.Happening`.
-/

namespace LangFile

open Editor

/-! ## Subscriptions -/

/-- No two subscriptions have the same number, and none has the next one. -/
structure Signal.IsNumbered {α : Type} (s : Signal α) : Prop where
  nodup : (s.subscriptions.map (·.id)).Nodup
  lt_next : ∀ sub ∈ s.subscriptions, sub.id < s.next

namespace Signal.IsNumbered

variable {α : Type} {s s' : Signal α}

theorem subscribe (h : s.IsNumbered) (listener : α) : (s.subscribe listener).IsNumbered where
  nodup := by
    show ((s.subscriptions ++ [Subscription.mk s.next listener]).map Subscription.id).Nodup
    rw [List.map_append]
    refine List.nodup_append'.2 ⟨h.nodup, List.nodup_singleton _, fun id hold hnew => ?_⟩
    obtain ⟨sub, hsub, rfl⟩ := List.mem_map.1 hold
    have hid : sub.id = s.next := List.mem_singleton.1 hnew
    exact Nat.lt_irrefl _ (hid ▸ h.lt_next sub hsub)
  lt_next sub hsub := by
    rcases List.mem_append.1 hsub with hold | hnew
    · exact Nat.lt_succ_of_lt (h.lt_next sub hold)
    · obtain rfl := List.mem_singleton.1 hnew
      exact Nat.lt_succ_self _

theorem of_filter (h : s.IsNumbered) {keep : Subscription α → Bool}
    (hsubs : s'.subscriptions = s.subscriptions.filter keep) (hnext : s'.next = s.next) :
    s'.IsNumbered where
  nodup := by
    rw [hsubs]
    exact h.nodup.sublist (List.filter_sublist.map _)
  lt_next sub hsub := by
    rw [hsubs] at hsub
    exact hnext ▸ h.lt_next sub (List.mem_filter.1 hsub).1

end Signal.IsNumbered

namespace App

open Session (IsTidy ownInterests subscriptions_foldl_unsubscribe next_unsubscribeAll)

variable {a a' b : App} {path : Text}

/-- The subscriptions are those of the session and of its preview, of which there is one at most, and
the one by which the application hears of findings. -/
structure IsWired (a : App) : Prop where
  tidy : IsTidy a.signal a.own a.previews
  numbered : a.signal.IsNumbered
  hears : a.HearsFindings
  preview : a.previews = [] ∨
    ∃ p, a.previews = [p] ∧ a.outside.preview = some p.id ∧ p.format = .panel

/-- Others than the application end their subscriptions. -/
theorem HearsFindings.of_filter (h : a.HearsFindings) {keep : Subscription Interest → Bool}
    (hsubs : a'.signal.subscriptions = a.signal.subscriptions.filter keep)
    (hkeep : ∀ sub ∈ a.signal.subscriptions, sub.listener.listener = .outside → keep sub = true) :
    a'.HearsFindings := by
  obtain ⟨id, hid⟩ := h
  have hsub : ⟨id, ⟨.diagnosed, .outside⟩⟩ ∈ a.subscribers .diagnosed :=
    hid ▸ List.mem_singleton_self _
  refine ⟨id, ?_⟩
  have hfiltered : a'.subscribers .diagnosed = (a.subscribers .diagnosed).filter keep := by
    unfold Session.subscribers
    rw [hsubs, List.filter_filter, List.filter_filter]
    exact List.filter_congr fun sub _ => Bool.and_comm _ _
  rw [hfiltered, hid,
    List.filter_cons_of_pos (hkeep _ (List.mem_filter.1 hsub).1 rfl), List.filter_nil]

namespace IsWired

theorem of_eq (h : a.IsWired) (hsignal : a'.signal = a.signal) (hown : a'.own = a.own)
    (hpreviews : a'.previews = a.previews) (hpreview : a'.outside.preview = a.outside.preview) :
    a'.IsWired where
  tidy := by rw [hsignal, hown, hpreviews]; exact h.tidy
  numbered := by rw [hsignal]; exact h.numbered
  hears := h.hears.of_signal hsignal
  preview := by rw [hpreviews, hpreview]; exact h.preview

theorem frame (h : a.IsWired) (hframe : Frame a a') : a'.IsWired :=
  h.of_eq hframe.signal hframe.own hframe.previews hframe.preview

theorem eq_singleton (h : a.IsWired) {p : PreviewState} (hp : p ∈ a.previews) :
    a.previews = [p] ∧ a.outside.preview = some p.id ∧ p.format = .panel := by
  rcases h.preview with hnone | ⟨q, hq, hpreview, hformat⟩
  · rw [hnone] at hp
    exact absurd hp List.not_mem_nil
  · obtain rfl := List.mem_singleton.1 (hq ▸ hp)
    exact ⟨hq, hpreview, hformat⟩

/-- The session ends some subscriptions that are not the application's. -/
theorem of_unsubscribe (h : a.IsWired) (ids : List Nat)
    (hids : ∀ id ∈ ids, ∃ sub ∈ a.signal.subscriptions,
      sub.id = id ∧ sub.listener.listener ≠ .outside)
    (hsignal : a'.signal = ids.foldl Signal.unsubscribe a.signal)
    (htidy : IsTidy a'.signal a'.own a'.previews) (hpreviews : a'.previews = []) :
    a'.IsWired := by
  have hsubs : a'.signal.subscriptions
      = a.signal.subscriptions.filter fun sub => !ids.contains sub.id := by
    rw [hsignal, subscriptions_foldl_unsubscribe]
  have hnext : a'.signal.next = a.signal.next := hsignal ▸ next_unsubscribeAll a ids
  refine ⟨htidy, h.numbered.of_filter hsubs hnext, h.hears.of_filter hsubs fun sub hsub hout => ?_,
    Or.inl hpreviews⟩
  -- another subscription of the same number would be the same one
  have hnot : sub.id ∉ ids := fun hid => by
    obtain ⟨other, hother, heq, hne⟩ := hids sub.id hid
    exact hne (List.inj_on_of_nodup_map h.numbered.nodup hother hsub heq ▸ hout)
  simpa using hnot

end IsWired

/-- Documents, editors, findings and the queue stay. -/
structure Spares (a a' : App) : Prop where
  documents : a'.documents = a.documents
  views : a'.views = a.views
  diagnostics : a'.diagnostics = a.diagnostics
  queue : a'.outside.queue = a.outside.queue

/-- The session ends its subscriptions, and closes the preview with them. -/
theorem unmount_ends (h : a.IsWired) :
    a.unmount.IsWired ∧ Spares a a.unmount ∧ a.unmount.previews = [] := by
  have hstop : a.unmount = _ := Session.stop_eq a
  rw [hstop]
  exact ⟨h.of_unsubscribe _ (fun _ hid => h.tidy.exists_of_mem_stop hid) rfl
    (h.tidy.stop h.numbered.nodup) rfl, ⟨rfl, rfl, rfl, rfl⟩, rfl⟩

/-- The preview is closed if there is one. -/
theorem togglePreview_closes (h : a.IsWired) {id : PreviewId}
    (hpreview : a.outside.preview = some id) :
    a.togglePreview.IsWired ∧ Spares a a.togglePreview ∧ a.togglePreview.previews = [] := by
  have htoggled : a.togglePreview = modify (a.closePreview id) fun s =>
      { s with preview := none, previewVisible := false } := by
    unfold togglePreview
    rw [hpreview]
  rw [htoggled]
  rcases h.preview with hnone | ⟨p, hp, hid, -⟩
  · have hclosed : a.closePreview id = a := by
      unfold Session.closePreview
      rw [hnone]
      rfl
    rw [hclosed]
    exact ⟨⟨h.tidy, h.numbered, h.hears.of_signal rfl, Or.inl hnone⟩, ⟨rfl, rfl, rfl, rfl⟩, hnone⟩
  · obtain rfl := Option.some.inj (hpreview.symm.trans hid)
    have hmem : p ∈ a.previews := hp ▸ List.mem_singleton_self p
    have hleft : a.previews.filter (fun q => q.id ≠ p.id) = [] := by
      rw [hp]
      simp
    have hclosed : a.closePreview p.id
        = { a.unsubscribeAll p.subscriptions with previews := [] } := by
      unfold Session.closePreview
      rw [h.tidy.find?_eq hmem]
      dsimp only
      rw [hleft]
    have htidy := h.tidy.close h.numbered.nodup hmem
    rw [hleft] at htidy
    rw [hclosed]
    refine ⟨h.of_unsubscribe p.subscriptions (fun id hid => ?_) rfl htidy rfl,
      ⟨rfl, rfl, rfl, rfl⟩, rfl⟩
    exact h.tidy.exists_of_mem_stop
      (List.mem_append_right _ (List.mem_flatMap.2 ⟨p, hmem, hid⟩))

/-- A preview of a view is open from now on. -/
def watch (a : App) (view : ViewId) : App :=
  { a with
    signal := (a.signal.subscribe ⟨.changed, .preview a.nextPreview⟩).subscribe
      ⟨.selected, .preview a.nextPreview⟩
    previews := a.previews ++
      [⟨a.nextPreview, view, .panel, [a.signal.next, a.signal.next + 1]⟩]
    nextPreview := a.nextPreview + 1
    outside := { a.outside with preview := some a.nextPreview, previewVisible := true } }

theorem IsWired.watch (h : a.IsWired) (hnone : a.previews = []) (view : ViewId) :
    (a.watch view).IsWired where
  tidy := h.tidy.openPreview (fun p hp => absurd (hnone ▸ hp) List.not_mem_nil) view .panel
  numbered := (h.numbered.subscribe _).subscribe _
  hears := by
    obtain ⟨id, hid⟩ := h.hears
    refine ⟨id, ?_⟩
    unfold Session.subscribers at hid ⊢
    simp [App.watch, Signal.subscribe, hid]
  preview := Or.inr ⟨_, by rw [App.watch, hnone, List.nil_append], rfl, rfl⟩

theorem Spares.showOutput (a : App) (id : PreviewId) (view : ViewId) (format : PreviewFormat) :
    Spares a (a.showOutput id view format) := by
  unfold Session.showOutput
  split <;> exact ⟨rfl, rfl, rfl, rfl⟩

/-- A preview of the active editor is opened, and shows what is selected there. -/
theorem togglePreview_opens (h : a.IsWired) (hpreview : a.outside.preview = none) {view : ViewId}
    (hactive : a.active = some view) :
    a.togglePreview.IsWired ∧ Spares a a.togglePreview ∧
      ∃ p, a.togglePreview.previews = [p] ∧ p.view = view ∧ p.format = .panel ∧
        a.togglePreview.outputs = (a.showOutput p.id view .panel).outputs := by
  have hnone : a.previews = [] := by
    rcases h.preview with hnone | ⟨p, -, hid, -⟩
    · exact hnone
    · rw [hpreview] at hid
      simp at hid
  have hframe := Frame.showOutput a a.nextPreview view .panel
  have hshown := Spares.showOutput a a.nextPreview view .panel
  have htoggled : a.togglePreview = watch (a.showOutput a.nextPreview view .panel) view := by
    unfold togglePreview Session.openPreview
    rw [hpreview, hactive]
    dsimp only
    unfold watch
    rw [hframe.nextPreview, hframe.signal]
    simp [modify, Session.subscribe, Session.nextIds, List.range_succ, hframe.signal]
  have hwatched : (a.showOutput a.nextPreview view .panel).previews = [] :=
    hframe.previews.trans hnone
  rw [htoggled]
  refine ⟨(h.frame hframe).watch hwatched view, ⟨hshown.documents, hshown.views,
    hshown.diagnostics, hshown.queue⟩,
    ⟨a.nextPreview, view, .panel, [a.signal.next, a.signal.next + 1]⟩, ?_, rfl, rfl, rfl⟩
  unfold watch
  dsimp only
  rw [hwatched, hframe.nextPreview, hframe.signal, List.nil_append]

/-! ## Documents and editors -/

/-- The paths of the open documents. -/
def paths (a : App) : List Text := a.documents.map (·.path)

/-- Where an editor stands: its document, and its column. -/
def place (e : Editor) : Option Text × Int := (e.document, e.column)

/-- There is an editor for each open document, in the order of the documents. No two documents have
the same path. -/
structure IsPaired (a : App) : Prop where
  nodup : a.paths.Nodup
  places : a.views.map place = a.paths.mapIdx fun i path => (some path, (i : Int))

/-- An open document is the one at its path. -/
theorem document?_of_mem (h : a.paths.Nodup) {d : Document} (hd : d ∈ a.documents) :
    a.document? d.path = some d := by
  unfold Session.document?
  cases hfind : a.documents.find? fun other => decide (other.path = d.path) with
  | none => exact absurd (List.find?_eq_none.1 hfind d hd) (by simp)
  | some other =>
    have hpath : other.path = d.path := by simpa using List.find?_some hfind
    rw [List.inj_on_of_nodup_map h (List.mem_of_find?_eq_some hfind) hd hpath]

theorem document?_eq_none_iff : a.document? path = none ↔ path ∉ a.paths := by
  unfold Session.document? paths
  simp

/-- A document is opened at a path where none is open. -/
theorem nodup_append (h : a.paths.Nodup) {d : Document} (hnew : a.document? d.path = none) :
    (a.paths ++ [d.path]).Nodup := by
  refine List.nodup_append'.2 ⟨h, List.nodup_singleton _, fun path hold hpath => ?_⟩
  obtain rfl := List.mem_singleton.1 hpath
  exact document?_eq_none_iff.1 hnew hold

theorem mem_paths_of_document? {d : Document} (h : a.document? path = some d) : path ∈ a.paths := by
  by_contra hnot
  rw [document?_eq_none_iff.2 hnot] at h
  simp at h

theorem paths_withText (a : App) (d : Document) (text : Text) :
    (a.withText d text).paths = a.paths := by
  unfold paths withText Session.setDocument
  rw [List.map_map]
  refine List.map_congr_left fun old _ => ?_
  show Document.path (if _ then _ else _) = _
  split
  · next h => exact h.symm
  · rfl

theorem document?_withText (a : App) (d : Document) (text : Text) (path : Text) :
    (a.withText d text).document? path
      = (a.document? path).map fun old => if path = d.path then d.setText text else old := by
  unfold withText
  rw [Session.document?_setDocument, Document.path_setText]

namespace IsPaired

theorem of_eq (h : a.IsPaired) (hpaths : a'.paths = a.paths)
    (hplaces : a'.views.map place = a.views.map place) : a'.IsPaired where
  nodup := hpaths ▸ h.nodup
  places := by rw [hplaces, h.places, hpaths]

theorem frame (h : a.IsPaired) (hframe : Frame a a') : a'.IsPaired := by
  refine h.of_eq (congrArg (List.map Document.path) hframe.documents) ?_
  have hplaces := congrArg (List.map fun c : Core => (c.document, c.column)) hframe.cores
  rw [List.map_map, List.map_map] at hplaces
  exact hplaces

theorem withText (h : a.IsPaired) (d : Document) (text : Text) : (a.withText d text).IsPaired :=
  h.of_eq (paths_withText a d text) rfl

theorem modifyView (h : a.IsPaired) {id : ViewId} {f : Editor → Editor}
    (hf : ∀ e, a.views[id]? = some e → place (f e) = place e) : IsPaired (a.modifyView id f) :=
  h.of_eq rfl (Session.map_modify_of_eq hf)

/-- A document is opened, and gets an editor behind the others. -/
theorem addEditor (h : a.IsPaired) {d : Document} (hnew : a.document? d.path = none)
    (hdocuments : b.documents = a.documents ++ [d])
    (hplaces : b.views.map place = a.views.map place) :
    (b.addEditor d b.views.length).IsPaired := by
  have hpaths : b.paths = a.paths ++ [d.path] := by
    unfold paths
    rw [hdocuments, List.map_append]
    rfl
  have hlength : b.views.length = a.paths.length := by
    have hcount := congrArg List.length (hplaces.trans h.places)
    simpa using hcount
  refine ⟨hpaths ▸ nodup_append h.nodup hnew, ?_⟩
  show (b.views ++ [_]).map place = b.paths.mapIdx _
  rw [hpaths, List.mapIdx_concat, List.map_append, hplaces, h.places, hlength]
  rfl

variable (h : a.IsPaired)

include h

theorem exists_document {id : ViewId} {e : Editor} (he : a.views[id]? = some e) :
    ∃ d, a.documents[id]? = some d ∧ e.document = some d.path ∧ e.column = id ∧
      a.document? d.path = some d := by
  have hplace := congrArg (fun l : List (Option Text × Int) => l[id]?) h.places
  simp only [List.getElem?_map, he, Option.map_some, List.getElem?_mapIdx, paths] at hplace
  cases hd : a.documents[id]? with
  | none => simp [hd] at hplace
  | some d =>
    rw [hd] at hplace
    obtain ⟨hdocument, hcolumn⟩ := Prod.mk.inj (Option.some.inj hplace)
    exact ⟨d, rfl, hdocument, hcolumn, document?_of_mem h.nodup (List.mem_of_getElem? hd)⟩

theorem exists_view (hpath : path ∈ a.paths) :
    ∃ (id : ViewId) (e : Editor), a.views[id]? = some e ∧ e.document = some path := by
  obtain ⟨id, hid⟩ := List.mem_iff_getElem?.1 hpath
  have hplace := congrArg (fun l : List (Option Text × Int) => l[id]?) h.places
  simp only [List.getElem?_map, List.getElem?_mapIdx, hid, Option.map_some] at hplace
  obtain ⟨e, he, heq⟩ := Option.map_eq_some_iff.1 hplace
  exact ⟨id, e, he, congrArg Prod.fst heq⟩

theorem eq_of_document {id id' : ViewId} {e e' : Editor} (he : a.views[id]? = some e)
    (he' : a.views[id']? = some e') (hsame : e.document = e'.document) : id = id' := by
  obtain ⟨d, hd, hdocument, -⟩ := h.exists_document he
  obtain ⟨d', hd', hdocument', -⟩ := h.exists_document he'
  have hpath : d.path = d'.path := by
    rw [hdocument, hdocument'] at hsame
    exact Option.some.inj hsame
  have hid : a.paths[id]? = a.paths[id']? := by
    simp [paths, hd, hd', hpath]
  exact (List.getElem?_inj (by simpa [paths] using (List.getElem?_eq_some_iff.1 hd).1)
    h.nodup).1 hid

end IsPaired

/-! ## The beginning -/

/-- Nothing happens when nobody listens. -/
theorem emit_of_subscribers_eq_nil {e : Event} (h : a.subscribers e.topic = []) :
    Session.emit e a = a := by
  have hcall : Session.emit e a = a.callSubscribers (Session.emitNested 3) e := rfl
  rw [hcall, Session.callSubscribers, h]
  rfl

/-- As long as nobody listens, opening files only makes documents of them. -/
theorem openAll_eq {files : List Text} (h : a.openAll files = .ok a')
    (hnone : a.signal.subscriptions = []) (hnodup : a.paths.Nodup) :
    a' = { a with documents := a'.documents } ∧ a'.paths.Nodup := by
  induction files generalizing a with
  | nil =>
    obtain rfl := Except.ok.inj h
    exact ⟨rfl, hnodup⟩
  | cons path files ih =>
    unfold openAll at h
    split at h
    · injection h
    · next text _ =>
      unfold Session.openDocument at h
      dsimp only at h
      split at h
      · exact ih h hnone hnodup
      · next hnew =>
        rw [emit_of_subscribers_eq_nil (by unfold Session.subscribers; rw [hnone]; rfl)] at h
        refine ih (a := { a with documents := a.documents ++ [Document.new path text] }) h hnone ?_
        show ((a.documents ++ [Document.new path text]).map Document.path).Nodup
        rw [List.map_append]
        exact nodup_append hnodup hnew

/-- The editor that a document has at first. -/
def firstEditor (a : App) (d : Document) (column : Nat) : Editor :=
  { Editor.ofDocument d column with width := a.outside.width, height := a.outside.height }

/-- An editor is one of the others, or the one that has come behind them. -/
theorem view_of_addEditor {d : Document} {column : Nat} {id : ViewId} {e : Editor}
    (he : (a.addEditor d column).views[id]? = some e) :
    a.views[id]? = some e ∨ id = a.views.length ∧ e = a.firstEditor d column := by
  have hviews : (a.views ++ [a.firstEditor d column])[id]? = some e := he
  rcases Nat.lt_or_ge id a.views.length with hlt | hge
  · rw [List.getElem?_append_left hlt] at hviews
    exact Or.inl hviews
  · rw [List.getElem?_append_right hge, List.getElem?_singleton] at hviews
    split at hviews
    · next hzero =>
      exact Or.inr ⟨Nat.le_antisymm (Nat.sub_eq_zero_iff_le.1 hzero) hge,
        (Option.some.inj hviews).symm⟩
    · simp at hviews

theorem foldl_addEditor (documents : List (Document × Nat)) (a : App) :
    documents.foldl (fun a p => addEditor a p.1 p.2) a
      = { a with views := a.views ++ documents.map fun p => a.firstEditor p.1 p.2 } := by
  induction documents generalizing a with
  | nil => rw [List.map_nil, List.append_nil]; rfl
  | cons p documents ih =>
    rw [List.foldl_cons, ih]
    unfold addEditor firstEditor
    rw [List.map_cons, List.append_cons]

/-- The application before anything is validated: the editors are new, and there is nothing else. -/
structure IsStart (a : App) : Prop where
  wired : a.IsWired
  paired : a.IsPaired
  editors : ∀ e ∈ a.views, ∃ d ∈ a.documents, ∃ column width height,
    e = { Editor.ofDocument d column with width, height }
  previews : a.previews = []
  diagnostics : a.diagnostics = []

/-- The only subscription is the one to the news of findings. -/
def ListensAlone (a : App) : Prop :=
  a.signal = ({} : Signal Interest).subscribe ⟨.diagnosed, .outside⟩

theorem ListensAlone.emit_eq (h : a.ListensAlone) {e : Event} (he : e.topic ≠ .diagnosed) :
    Session.emit e a = a := by
  refine emit_of_subscribers_eq_nil ?_
  unfold Session.subscribers
  rw [h]
  simp [Signal.subscribe, he.symm]

theorem ListensAlone.setVisible_eq (h : a.ListensAlone) (views : List ViewId) :
    a.setVisible Session.emit views = { a with visible := views } :=
  ListensAlone.emit_eq (a := { a with visible := views }) h (by simp [Event.topic])

theorem ListensAlone.setActive_eq (h : a.ListensAlone) (view : Option ViewId) :
    a.setActive Session.emit view = { a with active := view } := by
  unfold Session.setActive
  split
  · next heq => rw [heq]
  · exact ListensAlone.emit_eq (a := { a with active := view }) h (by simp [Event.topic])

/-- When the application is shown there are editors, and it listens to the news of findings. -/
theorem exists_shown (hnone : a.signal = {}) : ∃ shown : App,
    a.mount = refreshPanel (shown.start Session.emit) ∧
      shown.documents = a.documents ∧
      shown.views = a.views ++ a.documents.zipIdx.map (fun p => a.firstEditor p.1 p.2) ∧
      shown.ListensAlone ∧ shown.own = a.own ∧
      shown.previews = a.previews ∧ shown.diagnostics = a.diagnostics ∧
      shown.disk = a.disk ∧ shown.referenceName = a.referenceName ∧ shown.overrun = a.overrun := by
  let editors' := a.documents.zipIdx.map fun p => a.firstEditor p.1 p.2
  let listening : App :=
    Session.subscribe { a with views := a.views ++ editors' } .diagnosed .outside
  have halone : listening.ListensAlone := by
    show a.signal.subscribe ⟨.diagnosed, .outside⟩ = _
    rw [hnone]
  have hvisible := halone.setVisible_eq (editors listening)
  unfold mount
  rw [foldl_addEditor]
  dsimp only
  rw [hvisible]
  split
  · exact ⟨_, rfl, rfl, rfl, halone, rfl, rfl, rfl, rfl, rfl, rfl⟩
  · rw [ListensAlone.setActive_eq (a := { listening with visible := editors listening }) halone]
    exact ⟨_, rfl, rfl, rfl, halone, rfl, rfl, rfl, rfl, rfl, rfl⟩

/-- When the session begins to listen, too, nobody else does. -/
theorem ListensAlone.isWired_begun (h : a.ListensAlone) (hpreviews : a.previews = []) :
    IsWired (Session.begun a) where
  tidy := by
    have hnone : IsTidy a.signal [] a.previews := by
      rw [h, hpreviews]
      exact IsTidy.listen ⟨rfl, rfl, fun _ hp => absurd hp List.not_mem_nil, List.nodup_nil⟩ _
    exact hnone.begin
  numbered := by
    show (ownInterests.foldl Signal.subscribe a.signal).IsNumbered
    rw [h]
    refine List.foldlRecOn ownInterests Signal.subscribe ?_ fun _ hs i _ => hs.subscribe i
    have hnone : Signal.IsNumbered ({} : Signal Interest) :=
      ⟨List.nodup_nil, fun _ hsub => absurd hsub List.not_mem_nil⟩
    exact hnone.subscribe _
  hears := by
    refine ⟨0, ?_⟩
    show (ownInterests.foldl Signal.subscribe a.signal).subscriptions.filter _ = _
    rw [h]
    rfl
  preview := Or.inl hpreviews

theorem refreshes_start (h : HearsFindings (Session.begun a)) :
    Refreshes (Session.begun a) (a.start Session.emit) := by
  rw [Session.start_eq]
  exact (refreshes_validateAll h).trans (.beside (beside_decorateVisible _))

/-- **The application begins with a new editor for each document,** and then brings everything up to
date. -/
theorem exists_isStart {disk : Disk} {files : List Text} {referenceName : Text} {width height : Nat}
    (h : App.new disk files referenceName width height = .ok a) :
    ∃ start : App, start.IsStart ∧ start.documents = a.documents ∧ Refreshes start a.mount := by
  obtain ⟨heq, hnodup⟩ := openAll_eq h rfl List.nodup_nil
  obtain ⟨shown, hmount, hdocuments, hviews, halone, -, hpreviews, hdiagnostics, -⟩ :=
    exists_shown (congrArg Session.signal heq)
  have hnone : a.views = [] := congrArg Session.views heq
  have hwired := halone.isWired_begun (hpreviews.trans (congrArg Session.previews heq))
  rw [hnone, List.nil_append] at hviews
  refine ⟨Session.begun shown, ⟨hwired, ⟨?_, ?_⟩, fun e he => ?_,
    hpreviews.trans (congrArg Session.previews heq),
    hdiagnostics.trans (congrArg Session.diagnostics heq)⟩, hdocuments, ?_⟩
  · show (shown.documents.map Document.path).Nodup
    rw [hdocuments]
    exact hnodup
  · show shown.views.map place = (shown.documents.map Document.path).mapIdx _
    rw [hviews, hdocuments, List.mapIdx_eq_zipIdx_map, List.zipIdx_map, List.map_map, List.map_map]
    rfl
  · have hmem : e ∈ shown.views := he
    rw [hviews] at hmem
    obtain ⟨⟨d, column⟩, hd, rfl⟩ := List.mem_map.1 hmem
    refine ⟨d, ?_, column, _, _, rfl⟩
    show d ∈ shown.documents
    rw [hdocuments]
    exact (List.mem_zipIdx' hd).2 ▸ List.getElem_mem _
  · rw [hmount]
    exact (refreshes_start hwired.hears).trans (.beside (beside_refreshPanel _))

end App

end LangFile

import LangFile.Proofs.App.Actions
import LangFile.Proofs.Session.Findings
import LangFile.Proofs.Session.LanguageFile
import LangFile.Proofs.Session.Quiet

/-!
# Writing a reference

Two things that the user can do write a reference: to save it, and to make a language file of its
name. Documents that are compared with it are validated anew only when it is saved.

1. What leaves the findings as they are (`SparesFindings`): among it every edit of a document that
   is named like a reference.
2. What saving does (`save_eq`), and that it makes all findings current if it saves a reference
   (`isCurrent_validateAll`).
3. What opening a file in a new column does (`sparesFindings_openInNewColumn`).
4. Both compared (`findings_of_written_reference`), and findings that a new reference leaves behind
   (`findings_miss_new_reference`).
-/

namespace LangFile

namespace Session

/-! ## Findings that are spared -/

section

variable {V E : Type} {s s' s'' : Session V E}

/-- The findings are as they were, and so is the disk. -/
structure SparesFindings (s s' : Session V E) : Prop where
  disk : s'.disk = s.disk
  referenceName : s'.referenceName = s.referenceName
  findings (p : Text) : s'.findings p = s.findings p

namespace SparesFindings

theorem refl (s : Session V E) : SparesFindings s s := ⟨rfl, rfl, fun _ => rfl⟩

theorem trans (h : SparesFindings s s') (h' : SparesFindings s' s'') : SparesFindings s s'' :=
  ⟨h'.disk.trans h.disk, h'.referenceName.trans h.referenceName,
    fun p => (h'.findings p).trans (h.findings p)⟩

theorem of_posts (h : Posts (fun _ => none) s s') : SparesFindings s s' :=
  ⟨h.disk, h.referenceName, fun _ => h.findings_eq rfl⟩

end SparesFindings

variable [Host V E] [Host.Orderly V E]

/-- An edit of a document that is named like the reference posts nothing. -/
theorem sparesFindings_edit (hquiet : s.budget = 0) (edit : ObserverEdit)
    (hname : (Path.ofText edit.path).name = s.referenceName) :
    SparesFindings s (edit.perform Session.emit s) := by
  cases htarget : edit.target? s with
  | none =>
    rw [edit.perform_of_target?_eq_none htarget]
    exact SparesFindings.refl s
  | some p =>
    obtain ⟨e, documents, hcauses⟩ := edit.exists_causes htarget
    rw [hcauses.perform_eq]
    have hnone : ({ s with documents } : Session V E).comparison? p = none :=
      comparison?_eq_none_of_name (edit.path_of_target? htarget ▸ hname)
    have hposts := posts_emit (s := { s with documents }) hcauses.event hquiet
      (funext fun q => posting?_of_comparison?_eq_none hnone q)
    have hset : SparesFindings s { s with documents } := ⟨rfl, rfl, fun _ => rfl⟩
    exact hset.trans (SparesFindings.of_posts hposts.2)

end

end Session

namespace App

open Session (SparesFindings Posts)

variable {a a' : App} {path content target : Text} {disk : Disk}

/-! ## Saving -/

/-- The path of the document that the active editor shows, and the text that is in the editor. -/
def held? (a : App) : Option (Text × Text) :=
  (a.active.bind fun id => a.views[id]?).bind fun e => e.document.map fun path => (path, e.content)

theorem held?_eq_some_iff : a.held? = some (path, content) ↔
    ∃ id e, a.active = some id ∧ a.views[id]? = some e ∧ e.document = some path ∧
      e.content = content := by
  constructor
  · intro h
    obtain ⟨e, he, hdocument⟩ := Option.bind_eq_some_iff.1 h
    obtain ⟨id, hactive, hview⟩ := Option.bind_eq_some_iff.1 he
    obtain ⟨path', hpath, heq⟩ := Option.map_eq_some_iff.1 hdocument
    obtain ⟨rfl, hcontent⟩ := Prod.mk.inj heq
    exact ⟨id, e, hactive, hview, hpath, hcontent⟩
  · rintro ⟨id, e, hactive, hview, hdocument, rfl⟩
    simp [held?, hactive, hview, hdocument]

/-- **What is saved is written, and the documents are validated anew if it is the reference.** -/
theorem save_eq (hheld : a.held? = some (path, content))
    (hwrite : a.disk.writeText (.ofText path) content = (disk, .ok ())) :
    ∃ told : App, told.disk = disk ∧ told.referenceName = a.referenceName ∧
      (∀ p, told.findings p = a.findings p) ∧
      a.save = .ok (if (Path.ofText path).name = a.referenceName then told.validateAll
        else told) := by
  obtain ⟨id, e, hactive, hview, hdocument, rfl⟩ := held?_eq_some_iff.1 hheld
  rw [save_of_view hactive hview hdocument, hwrite]
  exact ⟨a.saved id disk path, rfl, rfl, fun _ => rfl, rfl⟩

/-- **To validate all documents makes the findings about each of them current.** -/
theorem isCurrent_validateAll (hbare : Path.IsBareName a.referenceName) (p : Text) :
    a.validateAll.IsCurrent p := by
  refine Session.isCurrent_validations a.documents hbare rfl ?_
  cases hd : a.document? p with
  | none =>
    refine Or.inr fun c hc => ?_
    obtain ⟨d, hd', -⟩ := Session.comparison?_eq_some_iff.1 hc
    rw [hd] at hd'
    simp at hd'
  | some d =>
    exact Or.inl (List.mem_map.2 ⟨d, Session.mem_of_document? hd, Session.path_of_document? hd⟩)

theorem disk_validateAll (a : App) : a.validateAll.disk = a.disk := by
  have hvalidated : Session.Updates a a.validateAll :=
    foldl_induction Session.Updates.refl Session.Updates.trans a.documents a fun s d _ _ =>
      Session.updates_validate_emit d.path s
  exact hvalidated.disk

/-- What can be saved has a bare name. -/
theorem isBareName_of_writeText
    (hwrite : a.disk.writeText (.ofText path) content = (disk, .ok ())) :
    Path.IsBareName (Path.ofText path).name := by
  unfold Disk.writeText at hwrite
  cases hplace : a.disk.openPlace (.ofText path) with
  | error e => simp [hplace] at hwrite
  | ok place =>
    exact Path.isBareName_name (Path.isNormal_ofText path) (Disk.parts_ne_nil_of_openPlace hplace)

/-! ## Opening -/

theorem sparesFindings_requestFocus (a : App) (editor : ViewId) :
    SparesFindings a (a.requestFocus editor) :=
  ⟨rfl, rfl, fun _ => rfl⟩

theorem sparesFindings_setVisible (a : App) (views : List ViewId) :
    SparesFindings a (a.setVisible Session.emit views) := by
  have hset : SparesFindings a { a with visible := views } := ⟨rfl, rfl, fun _ => rfl⟩
  have hposts := Session.posts_emit_aside (s := { a with visible := views }) (e := .shown views)
    (by simp [Event.topic]) (by simp [Event.topic]) (by simp [Event.topic]) rfl
  exact hset.trans (SparesFindings.of_posts hposts.2)

theorem sparesFindings_reloadEditor (a : App) (editor : ViewId) (d : Document) :
    SparesFindings a (a.reloadEditor editor d) := by
  rcases a.reloadEditor_eq editor d with ⟨-, heq⟩ | ⟨_, -, -, heq⟩
  · rw [heq]
    exact SparesFindings.refl a
  · rw [heq]
    have hreloaded : SparesFindings a (a.modifyView editor fun e =>
        (e.loadText d.text).setFindings (a.findings d.path)) := ⟨rfl, rfl, fun _ => rfl⟩
    exact hreloaded.trans (SparesFindings.of_posts
      ((Session.isIndifferent_posts fun _ => none).decorateVisible _).2)

/-- A file that is named like the reference is opened without a pass. -/
theorem sparesFindings_openInNewColumn (hload : a.disk.loadText (.ofText path) = .ok content)
    (hname : (Path.ofText path).name = a.referenceName) :
    ∃ a', a.openInNewColumn path = .ok a' ∧ SparesFindings a a' := by
  have hopened : SparesFindings a (a.openDocument Session.emit path content) := by
    refine Session.sparesFindings_edit rfl (.openDocument path content) ?_
    rw [ObserverEdit.path, Path.ofText_toText (Path.isNormal_ofText path)]
    exact hname
  unfold openInNewColumn
  rw [hload]
  dsimp only
  generalize a.openDocument Session.emit path content = opened at hopened ⊢
  cases opened.document? (Path.ofText path).toText with
  | none => exact ⟨opened, rfl, hopened⟩
  | some d =>
    dsimp only
    cases opened.views.findIdx? fun e => e.document = some d.path with
    | some id =>
      have hreloaded := hopened.trans (sparesFindings_reloadEditor opened id d)
      exact ⟨_, rfl, hreloaded.trans (sparesFindings_requestFocus _ id)⟩
    | none =>
      have hadded : SparesFindings opened (addEditor opened d opened.views.length) :=
        ⟨rfl, rfl, fun _ => rfl⟩
      have hshown := (hopened.trans hadded).trans
        (sparesFindings_setVisible _ (editors (addEditor opened d opened.views.length)))
      exact ⟨_, rfl, hshown.trans (sparesFindings_requestFocus _ _)⟩

/-! ## A language file of the name of the reference -/

/-- **Documents are not validated anew when their reference is made.** -/
theorem sparesFindings_newLanguageFile {overwrite : Bool} {made : App} {reply : Reply}
    (h : Session.newLanguageFile Session.emit (.ofText target) overwrite a = .ok (made, reply))
    (hok : reply.ok = true) (hname : (Path.ofText target).name = a.referenceName) :
    ∃ a', a.newLanguageFile target overwrite = .ok a' ∧ a'.disk = made.disk ∧
      ∀ p, a'.findings p = a.findings p := by
  have hmaking := Session.making_newLanguageFile Session.emit (.ofText target) overwrite a
  rw [h] at hmaking
  cases hmaking with
  | @made source content place bytes _ _ _ hplace hbytes =>
    have hnormal := Path.isNormal_ofText target
    let written : App := { a with disk := a.disk.put place (.file bytes) }
    have hwritten : SparesFindings written (written.updateDocument Session.emit
        (Path.ofText target).toText (normalizeLineEnds content)) := by
      refine Session.sparesFindings_edit rfl (.updateDocument _ _) ?_
      rw [ObserverEdit.path, Path.ofText_toText hnormal]
      exact hname
    generalize written.updateDocument Session.emit (Path.ofText target).toText
      (normalizeLineEnds content) = made at h hwritten ⊢
    -- the file that has been made is then opened, and so has to be read back
    have hload : made.disk.loadText (.ofText (Path.ofText target).toText)
        = .ok (normalizeLineEnds content) := by
      rw [hwritten.disk, Path.ofText_toText hnormal]
      exact Disk.loadText_put hplace hbytes
    have hmadeName : (Path.ofText (Path.ofText target).toText).name = made.referenceName := by
      rw [hwritten.referenceName, Path.ofText_toText hnormal]
      exact hname
    obtain ⟨a', hopen, hspared⟩ := sparesFindings_openInNewColumn
      (a := tell made ("Created " ++ (Path.ofText target).name)) hload hmadeName
    have hne : target.isEmpty = false := by
      cases target with
      | nil => exact absurd rfl (Disk.parts_ne_nil_of_openPlace hplace)
      | cons => rfl
    refine ⟨a', ?_, hspared.disk, fun p => (hspared.findings p).trans (hwritten.findings p)⟩
    unfold newLanguageFile
    rw [hne, if_neg Bool.false_ne_true, h]
    exact hopen
  | _ => simp at hok

/--
**Saving the reference makes all findings current, and making it leaves them as they were.** To save
any other file leaves the findings as they were, too. The reference is known by the bare name of its
file here: when the reference name has directories in it no file that is saved has that name, and
saving the reference is saving any other file.
-/
theorem findings_of_written_reference (a : App) :
    (∀ path content disk, a.held? = some (path, content) →
      a.disk.writeText (.ofText path) content = (disk, .ok ()) →
      ∃ a', a.save = .ok a' ∧ a'.disk = disk ∧
        ((Path.ofText path).name = a.referenceName →
          ∀ p c, a'.comparison? p = some c → a'.findings p = c.candidate) ∧
        ((Path.ofText path).name ≠ a.referenceName → ∀ p, a'.findings p = a.findings p)) ∧
    ∀ target overwrite made reply,
      Session.newLanguageFile Session.emit (.ofText target) overwrite a = .ok (made, reply) →
      reply.ok = true → (Path.ofText target).name = a.referenceName →
      ∃ a', a.newLanguageFile target overwrite = .ok a' ∧ a'.disk = made.disk ∧
        ∀ p, a'.findings p = a.findings p := by
  refine ⟨fun path content disk hheld hwrite => ?_, fun target overwrite made reply h hok hname =>
    sparesFindings_newLanguageFile h hok hname⟩
  obtain ⟨told, rfl, hreference, hspared, hsaved⟩ := save_eq hheld hwrite
  by_cases hname : (Path.ofText path).name = a.referenceName
  · rw [if_pos hname] at hsaved
    have hbare : Path.IsBareName told.referenceName := by
      rw [hreference, ← hname]
      exact isBareName_of_writeText hwrite
    exact ⟨told.validateAll, hsaved, disk_validateAll told,
      fun _ p => isCurrent_validateAll hbare p, fun hnot => absurd hname hnot⟩
  · rw [if_neg hname] at hsaved
    exact ⟨told, hsaved, rfl, fun hyes => absurd hyes hname, fun _ => hspared⟩

/-- The disk with two language files and no reference. -/
def translations : Disk where
  entries := [(⟨.above 0, ["ja_jp.json"]⟩,
      .file [0x7b, 0x22, 0x61, 0x22, 0x3a, 0x20, 0x22, 0x41, 0x22, 0x7d]),
    (⟨.above 0, ["ko_kr.json"]⟩,
      .file [0x7b, 0x22, 0x62, 0x22, 0x3a, 0x20, 0x22, 0x42, 0x22, 0x7d])]

/-- The application with both files open. -/
def translating : Except Error App :=
  ((App.new translations ["ja_jp.json", "ko_kr.json"] "en_us.json" 40 6).mapError .file).bind
    fun a => settle a.mount

/-- The user then makes a reference of the keys of the first one. -/
def referencing : Except Error App :=
  ((translating.bind askForTarget).bind settle).bind fun a => (a.submit "en_us.json").bind settle

/-- A result of which something can be computed is one. -/
theorem exists_eq_ok {α ε β : Type} {r : Except ε α} {f : α → β} {y : β}
    (h : r.toOption.map f = some y) : ∃ x, r = .ok x ∧ f x = y := by
  cases r with
  | error e => simp [Except.toOption] at h
  | ok x => exact ⟨x, rfl, Option.some.inj h⟩

theorem eq_ok_of_toOption {α ε : Type} {r : Except ε α} {x : α} (h : r.toOption = some x) :
    r = .ok x := by
  cases r with
  | error e => simp [Except.toOption] at h
  | ok x' => exact congrArg Except.ok (Option.some.inj h)

theorem eq_of_toOption_map {α ε β : Type} {r : Except ε α} {x : α} (hr : r = .ok x) {f : α → β}
    {y : β} (h : r.toOption.map f = some y) : f x = y := by
  subst hr
  exact Option.some.inj h

theorem findings_of_written_reference_saved :
    (∃ a a', translating = .ok a ∧ a.newLanguageFile "en_us.json" false = .ok a' ∧
      a'.findings "ko_kr.json" = a.findings "ko_kr.json") ∧
    ∃ a a', referencing = .ok a ∧ a.save = .ok a' ∧
      a'.findings "ko_kr.json" = [Session.strayFinding] := by
  refine ⟨?_, ?_⟩
  · obtain ⟨a, ha, heq⟩ := exists_eq_ok (r := translating) (f := fun a =>
      ((Session.newLanguageFile Session.emit (.ofText "en_us.json") false a).toOption.map (·.2.ok),
        a.referenceName)) (y := (some true, "en_us.json")) (by decide +kernel)
    obtain ⟨hmade, hreference⟩ := Prod.mk.inj heq
    obtain ⟨⟨made, reply⟩, h, hok⟩ := exists_eq_ok hmade
    have hname : (Path.ofText "en_us.json").name = a.referenceName := by
      rw [hreference]
      decide +kernel
    obtain ⟨a', ha', -, hfindings⟩ :=
      (findings_of_written_reference a).2 "en_us.json" false made reply h hok hname
    exact ⟨a, a', ha, ha', hfindings "ko_kr.json"⟩
  · obtain ⟨a, ha, heq⟩ := exists_eq_ok (r := referencing) (f := fun a =>
      (a.held?, (a.disk.writeText (.ofText "en_us.json") (Skeleton.ofKeys ["a"])).2.toOption,
        a.referenceName))
      (y := (some ("en_us.json", Skeleton.ofKeys ["a"]), some (), "en_us.json"))
      (by decide +kernel)
    have hcompared := eq_of_toOption_map ha (f := fun a =>
      a.save.toOption.map fun a' => (a'.comparison? "ko_kr.json").map (·.candidate))
      (y := some (some [Session.strayFinding])) (by decide +kernel)
    obtain ⟨hheld, heq⟩ := Prod.mk.inj heq
    obtain ⟨hwrite, hreference⟩ := Prod.mk.inj heq
    have hname : (Path.ofText "en_us.json").name = a.referenceName := by
      rw [hreference]
      decide +kernel
    generalize hwritten : a.disk.writeText (.ofText "en_us.json") (Skeleton.ofKeys ["a"]) = written
      at hwrite
    obtain ⟨disk, _ | ⟨⟩⟩ := written
    · simp [Except.toOption] at hwrite
    · obtain ⟨a', ha', -, hcurrent, -⟩ :=
        (findings_of_written_reference a).1 "en_us.json" _ disk hheld hwritten
      rw [ha'] at hcompared
      obtain ⟨c, hc, hcandidate⟩ := Option.map_eq_some_iff.1 (Option.some.inj hcompared)
      exact ⟨a, a', ha, ha', (hcurrent hname "ko_kr.json" c hc).trans hcandidate⟩

/-- **Findings miss a reference that has just been made,** although it is there to compare with. -/
theorem findings_miss_new_reference :
    ∃ a c, referencing = .ok a ∧ a.comparison? "ko_kr.json" = some c ∧
      c.candidate = [Session.strayFinding] ∧ a.findings "ko_kr.json" = [] := by
  obtain ⟨a, ha, heq⟩ := exists_eq_ok (r := referencing) (f := fun a =>
    ((a.comparison? "ko_kr.json").map (·.candidate), a.findings "ko_kr.json"))
    (y := (some [Session.strayFinding], [])) (by decide +kernel)
  obtain ⟨hcompared, hfindings⟩ := Prod.mk.inj heq
  obtain ⟨c, hc, hcandidate⟩ := Option.map_eq_some_iff.1 hcompared
  exact ⟨a, c, ha, hc, hcandidate, hfindings⟩

end App

end LangFile

import LangFile.Proofs.Validation
import LangFile.Session.Recorder

/-!
# Documents, findings and edits

Looking up what an operation has put: the document at a path, and the findings about one. An edit
opens or changes one document and is an event, or it changes nothing (`ObserverEdit.Causes`).
-/

namespace LangFile

/-! ## Findings by path -/

theorem find?_setFindings (all : List (Text × List Finding)) (path : Text) (fs : List Finding)
    (q : Text) :
    ((setFindings all path fs).find? fun p => p.1 = q)
      = if path = q then some (path, fs) else all.find? fun p => p.1 = q := by
  induction all with
  | nil => by_cases h : path = q <;> simp [setFindings, h]
  | cons entry rest ih =>
    obtain ⟨p, old⟩ := entry
    unfold setFindings
    by_cases hp : p = path
    · subst hp
      by_cases h : p = q <;> simp [h]
    · rw [if_neg hp]
      by_cases hq : p = q
      · subst hq
        simp [Ne.symm hp]
      · simp [hq, ih]

theorem mem_map_fst_setFindings {all : List (Text × List Finding)} {path : Text}
    {fs : List Finding} {q : Text} :
    q ∈ (setFindings all path fs).map (·.1) ↔ q = path ∨ q ∈ all.map (·.1) := by
  induction all with
  | nil => simp [setFindings]
  | cons entry rest ih =>
    obtain ⟨p, old⟩ := entry
    unfold setFindings
    by_cases hp : p = path
    · subst hp
      simp
    · simp only [if_neg hp, List.map_cons, List.mem_cons, ih]
      exact or_left_comm

/-! ## Texts of documents -/

namespace Document

theorem path_setText (d : Document) (text : Text) : (d.setText text).path = d.path := by
  unfold setText
  split <;> rfl

theorem language_setText (d : Document) (text : Text) :
    (d.setText text).language = d.language := by
  unfold setText
  split <;> rfl

end Document

namespace Session

variable {V E : Type} {s s' : Session V E} {p q : Text} {d : Document}

/-- The session with findings put in. -/
def withFindings (s : Session V E) (path : Text) (fs : List Finding) : Session V E :=
  { s with diagnostics := setFindings s.diagnostics path fs }

theorem findings_withFindings (s : Session V E) (path : Text) (fs : List Finding) (q : Text) :
    (s.withFindings path fs).findings q = if q = path then fs else s.findings q := by
  unfold findings withFindings
  rw [find?_setFindings]
  by_cases h : path = q
  · simp [h]
  · simp [h, Ne.symm h]

/-! ## Documents by path -/

theorem path_of_document? (h : s.document? p = some d) : d.path = p := by
  simpa using List.find?_some h

theorem mem_of_document? (h : s.document? p = some d) : d ∈ s.documents :=
  List.mem_of_find?_eq_some h

theorem document?_append (h : s.document? d.path = none) (q : Text) :
    ({ s with documents := s.documents ++ [d] } : Session V E).document? q
      = if q = d.path then some d else s.document? q := by
  unfold document? at h ⊢
  rw [List.find?_append]
  by_cases hq : q = d.path
  · subst hq
    rw [h]
    simp
  · simp [hq, Ne.symm hq]

/-- The new state of a document stands where the old one stood. -/
theorem document?_setDocument (s : Session V E) (d : Document) (q : Text) :
    (s.setDocument d).document? q = (s.document? q).map fun old => if q = d.path then d else old := by
  have hpath : (fun old : Document => decide ((if old.path = d.path then d else old).path = q))
      = fun old => decide (old.path = q) := by
    funext old
    split
    · next h => rw [h]
    · rfl
  unfold document? setDocument
  rw [List.find?_map, Function.comp_def, hpath]
  cases hold : s.documents.find? fun old => decide (old.path = q) with
  | none => rfl
  | some old =>
    obtain rfl : old.path = q := by simpa using List.find?_some hold
    rfl

/-! ## Comparisons -/

theorem comparison?_eq_some_iff {c : Comparison} :
    s.comparison? p = some c ↔ ∃ d, s.document? p = some d ∧
      validatedLanguages.contains d.language = true ∧
        Validation.validate s.disk (.ofText p) d.text s.referenceName = some c := by
  unfold comparison?
  cases hd : s.document? p with
  | none => simp
  | some d =>
    have hpath := path_of_document? hd
    subst hpath
    simp

theorem comparison?_congr (hdisk : s'.disk = s.disk) (hname : s'.referenceName = s.referenceName)
    (hdocument : s'.document? p = s.document? p) : s'.comparison? p = s.comparison? p := by
  unfold comparison?
  rw [hdisk, hname, hdocument]

/-- A document that is named like the reference is compared with none. -/
theorem comparison?_eq_none_of_name (hname : (Path.ofText p).name = s.referenceName) :
    s.comparison? p = none := by
  cases hc : s.comparison? p with
  | none => rfl
  | some c =>
    obtain ⟨_, -, -, hvalidate⟩ := comparison?_eq_some_iff.1 hc
    obtain ⟨-, hother, -⟩ := Validation.validate_eq_some_iff.1 hvalidate
    exact absurd hname hother

/-! ## Passes -/

theorem validate_of_comparison?_eq_none [Host V E] (h : s.comparison? p = none)
    (emit : Delivery V E) : s.validate emit p = s := by
  unfold validate
  rw [h]

/-- A pass posts the findings about its document, and then those about the reference. -/
theorem validate_of_comparison? [Host V E] {c : Comparison} (h : s.comparison? p = some c)
    (emit : Delivery V E) :
    s.validate emit p = emit (.diagnosed c.referencePath)
      ((emit (.diagnosed p) (s.withFindings p c.candidate)).withFindings c.referencePath
        c.reference) := by
  unfold validate
  rw [h]
  rfl

end Session

/-! ## Edits -/

namespace ObserverEdit

variable {V E : Type} {s : Session V E} {edit : ObserverEdit} {p : Text}

/-- The document that the edit opens or changes, if it does. -/
def target? (s : Session V E) : ObserverEdit → Option Text
  | openDocument path _ =>
    if (s.document? (Path.ofText path).toText).isSome then none else some (Path.ofText path).toText
  | updateDocument path text =>
    (s.document? path).bind fun d => if d.text = text then none else some path

/-- The path of the document that the edit is about. -/
def path : ObserverEdit → Text
  | openDocument path _ => (Path.ofText path).toText
  | updateDocument path _ => path

theorem path_of_target? (h : edit.target? s = some p) : edit.path = p := by
  cases edit with
  | openDocument path text =>
    simp only [target?] at h
    split at h
    · simp at h
    · exact Option.some.inj h
  | updateDocument path text =>
    obtain ⟨d, -, hchanged⟩ := Option.bind_eq_some_iff.1 h
    split at hchanged
    · simp at hchanged
    · exact Option.some.inj hchanged

/-- What an edit of the document at `p` does: it puts it among the documents, in the language that it
has if it was open, and causes the event. -/
structure Causes (edit : ObserverEdit) (s : Session V E) (e : Event) (p : Text)
    (documents : List Document) : Prop where
  event : e = .opened p ∨ e = .changed p
  isNew : e = .opened p → s.document? p = none
  perform_eq (emit : Delivery V E) : edit.perform emit s = emit e { s with documents }
  isOpen : ∃ d, ({ s with documents } : Session V E).document? p = some d ∧
    ∀ old, s.document? p = some old → d.language = old.language
  others : ∀ q, q ≠ p → ({ s with documents } : Session V E).document? q = s.document? q

theorem perform_of_target?_eq_none (h : edit.target? s = none) (emit : Delivery V E) :
    edit.perform emit s = s := by
  cases edit with
  | openDocument path text =>
    show s.openDocument emit path text = s
    unfold Session.openDocument
    cases hd : s.document? (Path.ofText path).toText with
    | none => simp [target?, hd] at h
    | some d => simp [Document.new, hd]
  | updateDocument path text =>
    show s.updateDocument emit path text = s
    unfold Session.updateDocument
    cases hd : s.document? path with
    | none => rfl
    | some d =>
      by_cases htext : d.text = text
      · simp [htext]
      · simp [target?, hd, htext] at h

/-- **An edit is an event about its document, or nothing.** -/
theorem exists_causes (h : edit.target? s = some p) : ∃ e documents, edit.Causes s e p documents := by
  cases edit with
  | openDocument path text =>
    cases hd : s.document? (Path.ofText path).toText with
    | some d => simp [target?, hd] at h
    | none =>
      obtain rfl : (Path.ofText path).toText = p := by simpa [target?, hd] using h
      have hnew : s.document? (Document.new path text).path = none := hd
      refine ⟨.opened (Document.new path text).path, s.documents ++ [.new path text], Or.inl rfl,
        fun _ => hnew, fun emit => ?_, ⟨.new path text, ?_, fun old hold => ?_⟩, fun q hq => ?_⟩
      · show s.openDocument emit path text = _
        simp [Session.openDocument, hnew]
      · rw [Session.document?_append hnew]
        exact if_pos rfl
      · rw [hd] at hold
        simp at hold
      · rw [Session.document?_append hnew]
        exact if_neg hq
  | updateDocument path text =>
    cases hd : s.document? path with
    | none => simp [target?, hd] at h
    | some d =>
      by_cases htext : d.text = text
      · simp [target?, hd, htext] at h
      · obtain rfl : path = p := by simpa [target?, hd, htext] using h
        have hpath : (d.setText text).path = path :=
          (d.path_setText text).trans (Session.path_of_document? hd)
        have hfound (q : Text) := Session.document?_setDocument s (d.setText text) q
        rw [hpath] at hfound
        refine ⟨.changed path, (s.setDocument (d.setText text)).documents, Or.inr rfl,
          Event.noConfusion, fun emit => ?_, ⟨d.setText text, ?_, fun old hold => ?_⟩, fun q hq => ?_⟩
        · show s.updateDocument emit path text = _
          simp [Session.updateDocument, hd, htext, Session.setDocument]
        · refine (hfound path).trans ?_
          simp [hd]
        · rw [hd] at hold
          exact Option.some.inj hold ▸ d.language_setText text
        · refine (hfound q).trans ?_
          simp [hq]

end ObserverEdit

end LangFile

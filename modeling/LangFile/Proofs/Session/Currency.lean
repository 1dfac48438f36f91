import LangFile.Proofs.Session.Delivery
import LangFile.Proofs.Session.Documents

/-!
# Findings keep up with documents

The findings about a document that is compared are current when they are those of its text. A pass
makes them so, and every delivery keeps them so, whatever listeners open and change in its course: a
document that they change is validated before their own delivery is over. Only a path that is also
the reference of a document can be written by the passes of others.

1. What events leave alone (`Continues`).
2. What they do to the findings (`Updates`), and what is settled when they are over (`Settled`).
3. Both hold of every delivery (`meets_emit_updates`) and of every edit (`updates_edit`).
-/

namespace LangFile.Session

variable {V E : Type} {s s' s'' : Session V E} {p : Text} {c : Comparison}

/-! ## What stays -/

/-- The session's own listener hears of a topic, and no preview that closes takes its subscription
away. -/
def HearsOf (s : Session V E) (topic : Topic) : Prop :=
  ∃ sub ∈ s.signal.subscriptions, sub.listener = ⟨topic, .validation⟩ ∧ sub.id < s.signal.next ∧
    ∀ preview ∈ s.previews, sub.id ∉ preview.subscriptions

/-- The session validates what is opened and changed. -/
structure IsListening (s : Session V E) : Prop where
  opened : s.HearsOf .opened
  changed : s.HearsOf .changed

theorem IsListening.hearsOf {e : Event} (h : s.IsListening) (he : e = .opened p ∨ e = .changed p) :
    s.HearsOf e.topic := by
  rcases he with rfl | rfl
  · exact h.opened
  · exact h.changed

/-- Events leave the disk and the subscriptions alone. Open documents stay open in their language, and
no delivery is left out. -/
structure Continues (s s' : Session V E) : Prop where
  disk : s'.disk = s.disk
  referenceName : s'.referenceName = s.referenceName
  signal : s'.signal = s.signal
  previews : s'.previews = s.previews
  overrun : s'.overrun = s.overrun
  isOpen {p : Text} {d : Document} :
    s.document? p = some d → ∃ d', s'.document? p = some d' ∧ d'.language = d.language

/-- The path is that of the reference of a document. -/
def IsReference (s : Session V E) (p : Text) : Prop :=
  ∃ q c, s.comparison? q = some c ∧ c.referencePath = p

theorem name_of_isReference (hbare : Path.IsBareName s.referenceName) (h : s.IsReference p) :
    (Path.ofText p).name = s.referenceName := by
  obtain ⟨q, c, hc, rfl⟩ := h
  obtain ⟨_, -, -, hvalidate⟩ := comparison?_eq_some_iff.1 hc
  exact Validation.name_referencePath hbare hvalidate

/-- A document that is compared is no reference. -/
theorem not_isReference (hbare : Path.IsBareName s.referenceName)
    (hc : s.comparison? p = some c) : ¬ s.IsReference p := by
  intro hreference
  obtain ⟨_, -, -, hvalidate⟩ := comparison?_eq_some_iff.1 hc
  obtain ⟨-, hname, -⟩ := Validation.validate_eq_some_iff.1 hvalidate
  exact hname (name_of_isReference hbare hreference)

/-- Some document's pass posts findings about the path. -/
def IsPosted (s : Session V E) (p : Text) : Prop := (∃ c, s.comparison? p = some c) ∨ s.IsReference p

namespace Continues

theorem refl (s : Session V E) : Continues s s := ⟨rfl, rfl, rfl, rfl, rfl, fun h => ⟨_, h, rfl⟩⟩

theorem trans (h : Continues s s') (h' : Continues s' s'') : Continues s s'' where
  disk := h'.disk.trans h.disk
  referenceName := h'.referenceName.trans h.referenceName
  signal := h'.signal.trans h.signal
  previews := h'.previews.trans h.previews
  overrun := h'.overrun.trans h.overrun
  isOpen hd := by
    obtain ⟨d', hd', hlanguage⟩ := h.isOpen hd
    obtain ⟨d'', hd'', hlanguage'⟩ := h'.isOpen hd'
    exact ⟨d'', hd'', hlanguage'.trans hlanguage⟩

theorem hearsOf_iff {topic : Topic} (h : Continues s s') : s'.HearsOf topic ↔ s.HearsOf topic := by
  unfold HearsOf
  rw [h.signal, h.previews]

theorem isListening_iff (h : Continues s s') : s'.IsListening ↔ s.IsListening :=
  ⟨fun hs => ⟨h.hearsOf_iff.1 hs.opened, h.hearsOf_iff.1 hs.changed⟩,
    fun hs => ⟨h.hearsOf_iff.2 hs.opened, h.hearsOf_iff.2 hs.changed⟩⟩

/-- A document that is compared stays so, with the same reference. -/
theorem exists_comparison? (h : Continues s s') (hc : s.comparison? p = some c) :
    ∃ c', s'.comparison? p = some c' ∧ c'.referencePath = c.referencePath := by
  obtain ⟨d, hd, hlanguage, hvalidate⟩ := comparison?_eq_some_iff.1 hc
  obtain ⟨d', hd', hsame⟩ := h.isOpen hd
  obtain ⟨c', hvalidate', hpath⟩ := Validation.exists_validate hvalidate d'.text
  rw [← h.disk, ← h.referenceName] at hvalidate'
  exact ⟨c', comparison?_eq_some_iff.2 ⟨d', hd', hsame ▸ hlanguage, hvalidate'⟩, hpath⟩

theorem comparison?_eq_none (h : Continues s s') (hnone : s'.comparison? p = none) :
    s.comparison? p = none := by
  cases hc : s.comparison? p with
  | none => rfl
  | some c =>
    obtain ⟨c', hc', -⟩ := h.exists_comparison? hc
    rw [hnone] at hc'
    simp at hc'

theorem isReference (h : Continues s s') (hs : s.IsReference p) : s'.IsReference p := by
  obtain ⟨q, c, hc, rfl⟩ := hs
  obtain ⟨c', hc', hpath⟩ := h.exists_comparison? hc
  exact ⟨q, c', hc', hpath⟩

theorem isPosted (h : Continues s s') (hs : s.IsPosted p) : s'.IsPosted p := by
  rcases hs with ⟨c, hc⟩ | hreference
  · obtain ⟨c', hc', -⟩ := h.exists_comparison? hc
    exact Or.inl ⟨c', hc'⟩
  · exact Or.inr (h.isReference hreference)

/-- Documents, the disk and what listens are the same. -/
theorem of_eq (hdisk : s'.disk = s.disk) (hname : s'.referenceName = s.referenceName)
    (hsignal : s'.signal = s.signal) (hpreviews : s'.previews = s.previews)
    (hoverrun : s'.overrun = s.overrun) (hdocuments : s'.documents = s.documents) :
    Continues s s' := by
  refine ⟨hdisk, hname, hsignal, hpreviews, hoverrun, fun {p d} hd => ⟨d, ?_, rfl⟩⟩
  unfold document? at hd ⊢
  rw [hdocuments]
  exact hd

/-- An edit keeps all documents open. -/
theorem of_edit {edit : ObserverEdit} {e : Event} {documents : List Document}
    (hcauses : edit.Causes s e p documents) : Continues s { s with documents } := by
  refine ⟨rfl, rfl, rfl, rfl, rfl, fun {q d} hd => ?_⟩
  by_cases hq : q = p
  · subst hq
    obtain ⟨d', hd', hlanguage⟩ := hcauses.isOpen
    exact ⟨d', hd', hlanguage d hd⟩
  · exact ⟨d, (hcauses.others q hq).trans hd, rfl⟩

end Continues

/-! ## What comes of the findings -/

/-- The findings about a document are those of its present text. -/
def IsCurrent (s : Session V E) (p : Text) : Prop :=
  ∀ c, s.comparison? p = some c → s.findings p = c.candidate

/-- What events do to the findings about a path that is no reference: what was current stays so, and
what is not compared is not touched. Findings are posted by passes only. -/
structure Updates (s s' : Session V E) : Prop extends Continues s s' where
  current {p : Text} : s.IsListening → ¬ s'.IsReference p → s.IsCurrent p → s'.IsCurrent p
  untouched {p : Text} :
    ¬ s'.IsReference p → s'.comparison? p = none → s'.findings p = s.findings p
  posted {p : Text} :
    p ∈ s'.diagnostics.map (·.1) → p ∈ s.diagnostics.map (·.1) ∨ s'.IsPosted p

/-- When the news of a document is over, the findings about it are current if the session listened. -/
def Settled (e : Event) (s s' : Session V E) : Prop :=
  s.IsListening → ∀ p, e = .opened p ∨ e = .changed p → ¬ s'.IsReference p → s'.IsCurrent p

namespace Updates

theorem refl (s : Session V E) : Updates s s :=
  ⟨Continues.refl s, fun _ _ h => h, fun _ _ => rfl, Or.inl⟩

theorem trans (h : Updates s s') (h' : Updates s' s'') : Updates s s'' where
  toContinues := h.toContinues.trans h'.toContinues
  current hlistening hnot hcurrent :=
    h'.current (h.isListening_iff.2 hlistening) hnot
      (h.current hlistening (fun hs' => hnot (h'.isReference hs')) hcurrent)
  untouched hnot hnone :=
    (h'.untouched hnot hnone).trans
      (h.untouched (fun hs' => hnot (h'.isReference hs')) (h'.comparison?_eq_none hnone))
  posted hp := by
    rcases h'.posted hp with hs' | hposted
    · exact (h.posted hs').imp_right h'.isPosted
    · exact Or.inr hposted

/-- Nothing has happened to what findings are computed from, nor to the findings. -/
theorem of_eq (hdisk : s'.disk = s.disk) (hname : s'.referenceName = s.referenceName)
    (hsignal : s'.signal = s.signal) (hpreviews : s'.previews = s.previews)
    (hoverrun : s'.overrun = s.overrun) (hdocuments : s'.documents = s.documents)
    (hdiagnostics : s'.diagnostics = s.diagnostics) : Updates s s' := by
  have hdocument (q : Text) : s'.document? q = s.document? q := by
    unfold document?
    rw [hdocuments]
  have hfindings (q : Text) : s'.findings q = s.findings q := by
    unfold findings
    rw [hdiagnostics]
  refine ⟨Continues.of_eq hdisk hname hsignal hpreviews hoverrun hdocuments,
    fun {q} _ _ hcurrent c hc => ?_, fun {q} _ _ => hfindings q, fun {q} hq => Or.inl ?_⟩
  · rw [comparison?_congr hdisk hname (hdocument q)] at hc
    exact (hfindings q).trans (hcurrent c hc)
  · rw [← hdiagnostics]
    exact hq

/-- What the pass over a document posts is what is to be posted. -/
theorem withFindings {fs : List Finding}
    (h : (∃ c, s.comparison? p = some c ∧ c.candidate = fs) ∨ s.IsReference p) :
    Updates s (s.withFindings p fs) where
  toContinues := Continues.of_eq rfl rfl rfl rfl rfl rfl
  current {q} _ hnot hcurrent c' hc' := by
    rw [findings_withFindings]
    split
    · next hq =>
      subst hq
      rcases h with ⟨c, hc, rfl⟩ | hreference
      · obtain rfl := Option.some.inj (hc.symm.trans hc')
        rfl
      · exact absurd hreference hnot
    · exact hcurrent c' hc'
  untouched {q} hnot hnone := by
    rw [findings_withFindings, if_neg]
    rintro rfl
    rcases h with ⟨c, hc, -⟩ | hreference
    · exact Option.some_ne_none c (hc.symm.trans hnone)
    · exact hnot hreference
  posted {q} hq := by
    rcases mem_map_fst_setFindings.1 hq with rfl | hold
    · exact Or.inr (h.imp_left fun ⟨c, hc, _⟩ => ⟨c, hc⟩)
    · exact Or.inl hold

/-- An edit, when the document that it is about is settled in the end. -/
theorem of_edit {edit : ObserverEdit} {e : Event} {documents : List Document}
    (hcauses : edit.Causes s e p documents) (h : Updates { s with documents } s')
    (hsettled : s.IsListening → ¬ s'.IsReference p → s'.IsCurrent p) : Updates s s' := by
  have hcontinues : Continues s { s with documents } := Continues.of_edit hcauses
  refine ⟨hcontinues.trans h.toContinues, fun {q} hlistening hnot hcurrent => ?_, h.untouched,
    h.posted⟩
  by_cases hq : q = p
  · subst hq
    exact hsettled hlistening hnot
  · refine h.current (hcontinues.isListening_iff.2 hlistening) hnot fun c hc => hcurrent c ?_
    have hsame : ({ s with documents } : Session V E).comparison? q = s.comparison? q :=
      comparison?_congr rfl rfl (hcauses.others q hq)
    exact hsame.symm.trans hc

end Updates

/-! ## What deliveries do -/

variable [Host V E] [Host.Orderly V E] {emit : Delivery V E} {depth : Nat}

section

variable {keeps : Session V E → Session V E → Prop}
  {settles : Event → Session V E → Session V E → Prop}

/-- The session's own listener is called in its turn. -/
theorem IsIndifferent.exists_validation {e : Event} (hkept : IsIndifferent keeps)
    (hstep : ∀ s' (interest : Interest), CalmlyKeeps keeps s s' →
      CalmlyKeeps keeps s' (s'.react emit interest.listener e))
    (hsignal : ∀ s', keeps s s' → s'.signal = s.signal) (hheard : s.HearsOf e.topic) :
    ∃ s₁, CalmlyKeeps keeps s s₁ ∧
      CalmlyKeeps keeps (s₁.react emit .validation e) (s.callSubscribers emit e) := by
  obtain ⟨sub, hsub, hlistener, -⟩ := hheard
  exact hkept.exists_reaction hstep hsignal ⟨sub, hsub, hlistener⟩

/-- In the course of the news of a document there is a pass over it. -/
theorem IsKept.exists_pass {e : Event} (hkept : IsKept keeps settles)
    (hemit : Meets keeps settles depth emit) (h : need e s ≤ depth + 1)
    (hsignal : ∀ s', keeps s s' → s'.signal = s.signal) (he : e = .opened p ∨ e = .changed p)
    (hheard : s.HearsOf e.topic) :
    ∃ s₁, CalmlyKeeps keeps s s₁ ∧ 2 * s₁.budget + 1 ≤ depth ∧
      keeps (s₁.validate emit p) (s.callSubscribers emit e) := by
  obtain ⟨s₁, hs₁, hrest⟩ := hkept.exists_validation
    (fun s' interest hs' =>
      hkept.react hemit interest.listener e (Nat.le_trans (hs'.1.need_le e) h)) hsignal hheard
  have hneed := Nat.le_trans (hs₁.1.need_le e) h
  rcases he with rfl | rfl
  · have hle : 2 * s₁.budget + 2 ≤ depth + 1 := hneed
    exact ⟨s₁, hs₁, by omega, hrest.2⟩
  · have hle : 2 * s₁.budget + 2 ≤ depth + 1 := hneed
    exact ⟨s₁, hs₁, by omega, hkept.trans (hkept.decorateVisible _).2 hrest.2⟩

/-- A pass posts about the document, and when that has been heard about the reference. -/
theorem Meets.exists_halves (hemit : Meets keeps settles depth emit)
    (h : 2 * s.budget + 1 ≤ depth) (hc : s.comparison? p = some c) :
    ∃ heard, keeps (s.withFindings p c.candidate) heard ∧
      keeps (heard.withFindings c.referencePath c.reference) (s.validate emit p) := by
  have hneed : need (.diagnosed p) (s.withFindings p c.candidate) ≤ depth := h
  have hcalm := hemit.calm hneed
  refine ⟨emit (.diagnosed p) (s.withFindings p c.candidate), hemit.keeps hneed, ?_⟩
  rw [validate_of_comparison? hc]
  generalize emit (.diagnosed p) (s.withFindings p c.candidate) = heard at hcalm ⊢
  refine hemit.keeps ?_
  have hbudget : heard.budget ≤ s.budget := hcalm.budget
  show 2 * heard.budget + 1 ≤ depth
  omega

/-- After the first half of a pass the rest is news, and findings about the reference. -/
theorem IsIndifferent.posted (hkept : IsIndifferent keeps) (hemit : Meets keeps settles depth emit)
    (h : 2 * s.budget + 1 ≤ depth) (hc : s.comparison? p = some c)
    (hreference : ∀ heard, keeps (s.withFindings p c.candidate) heard →
      keeps heard (heard.withFindings c.referencePath c.reference)) :
    keeps (s.withFindings p c.candidate) (s.validate emit p) := by
  obtain ⟨heard, hnews, hrest⟩ := hemit.exists_halves h hc
  exact hkept.trans hnews (hkept.trans (hreference heard hnews) hrest)

/-- An edit is the delivery of its event, or nothing. -/
theorem IsIndifferent.edit (hkept : IsIndifferent keeps) (hemit : Meets keeps settles depth emit)
    (h : 2 * s.budget + 2 ≤ depth) (edit : ObserverEdit)
    (hcaused : ∀ {e q documents s'}, edit.Causes s e q documents →
      keeps { s with documents } s' → settles e { s with documents } s' → keeps s s') :
    keeps s (edit.perform emit s) := by
  cases htarget : edit.target? s with
  | none =>
    rw [edit.perform_of_target?_eq_none htarget]
    exact hkept.refl s
  | some q =>
    obtain ⟨e, documents, hcauses⟩ := edit.exists_causes htarget
    rw [hcauses.perform_eq emit]
    have hneed : need e ({ s with documents } : Session V E) ≤ depth :=
      Nat.le_trans (need_le e _) h
    exact hcaused hcauses (hemit.keeps hneed) (hemit.settles hneed)

end

theorem isIndifferent_updates : IsIndifferent (Updates (V := V) (E := E)) :=
  .of_aside Updates.refl Updates.trans fun _ _ _ _ _ _ _ _ _ =>
    Updates.of_eq rfl rfl rfl rfl rfl rfl rfl

theorem updates_posted (hemit : Meets Updates Settled depth emit) (h : 2 * s.budget + 1 ≤ depth)
    (hc : s.comparison? p = some c) :
    Updates (s.withFindings p c.candidate) (s.validate emit p) :=
  isIndifferent_updates.posted hemit h hc fun _ hheard =>
    Updates.withFindings (Or.inr (hheard.isReference ⟨p, c, hc, rfl⟩))

theorem updates_validate (hemit : Meets Updates Settled depth emit)
    (h : 2 * s.budget + 1 ≤ depth) (p : Text) : Updates s (s.validate emit p) := by
  cases hc : s.comparison? p with
  | none =>
    rw [validate_of_comparison?_eq_none hc]
    exact Updates.refl s
  | some c =>
    exact (Updates.withFindings (Or.inl ⟨c, hc, rfl⟩)).trans (updates_posted hemit h hc)

/-- **A pass makes the findings about its document current.** -/
theorem isCurrent_validate (hemit : Meets Updates Settled depth emit)
    (h : 2 * s.budget + 1 ≤ depth) (hlistening : s.IsListening)
    (hnot : ¬ (s.validate emit p).IsReference p) : (s.validate emit p).IsCurrent p := by
  cases hc : s.comparison? p with
  | none =>
    intro c hc'
    rw [validate_of_comparison?_eq_none hc, hc] at hc'
    simp at hc'
  | some c =>
    have hposted := updates_posted hemit h hc
    refine hposted.current ⟨hlistening.opened, hlistening.changed⟩ hnot fun c' hc' => ?_
    obtain rfl := Option.some.inj (hc.symm.trans hc')
    rw [findings_withFindings, if_pos rfl]

theorem updates_edit (hemit : Meets Updates Settled depth emit) (h : 2 * s.budget + 2 ≤ depth)
    (edit : ObserverEdit) : Updates s (edit.perform emit s) :=
  isIndifferent_updates.edit hemit h edit fun {_ q _ _} hcauses hupdates hsettled =>
    Updates.of_edit hcauses hupdates fun hlistening =>
      hsettled ((Continues.of_edit hcauses).isListening_iff.2 hlistening) q hcauses.event

/-- An edit makes the findings about its document current. -/
theorem isCurrent_edit (hemit : Meets Updates Settled depth emit) (h : 2 * s.budget + 2 ≤ depth)
    {edit : ObserverEdit} (htarget : edit.target? s = some p) (hlistening : s.IsListening)
    (hnot : ¬ (edit.perform emit s).IsReference p) : (edit.perform emit s).IsCurrent p := by
  obtain ⟨e, documents, hcauses⟩ := edit.exists_causes htarget
  rw [hcauses.perform_eq emit] at hnot ⊢
  have hneed : need e ({ s with documents } : Session V E) ≤ depth := Nat.le_trans (need_le e _) h
  have hlistens := (Continues.of_edit hcauses).isListening_iff.2 hlistening
  exact hemit.settles hneed hlistens p hcauses.event hnot

theorem isKept_updates : IsKept (Updates (V := V) (E := E)) Settled where
  toIsIndifferent := isIndifferent_updates
  validate p hemit h := updates_validate hemit h p
  edit edit hemit h := updates_edit hemit h edit

/-- The session's own listener is called in its turn, and what it has made current stays so. -/
theorem settled_callSubscribers {e : Event} (hemit : Meets Updates Settled depth emit)
    (h : need e s ≤ depth + 1) : Settled e s (s.callSubscribers emit e) := by
  have hkept := isKept_updates (V := V) (E := E)
  intro hlistening p he hnot
  obtain ⟨s₁, hs₁, hpass, hend⟩ :=
    hkept.exists_pass hemit h (fun _ hs' => hs'.signal) he (hlistening.hearsOf he)
  have hlistening₁ := hs₁.2.isListening_iff.2 hlistening
  have hvalidated := updates_validate hemit hpass p
  refine hend.current (hvalidated.isListening_iff.2 hlistening₁) hnot ?_
  exact isCurrent_validate hemit hpass hlistening₁ fun hs => hnot (hend.isReference hs)

/-- **Every event updates the findings, and settles those of the document that it is about.** -/
theorem meets_emit_updates (depth : Nat) :
    Meets (V := V) (E := E) Updates Settled depth Session.emit :=
  isKept_updates.meets_emit settled_callSubscribers depth

end LangFile.Session

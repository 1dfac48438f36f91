import LangFile.Proofs.Comparison.Position
import LangFile.Proofs.Session.Passes

/-!
# Where stored findings point

The findings about a document that is only a candidate point into its present text. Those about a
reference point into the text that its file has on the disk: a document that is opened or changed is
never read as a reference, so they need not point into the text of an open reference document.

1. What is stored about a document that is compared (`IsFresh`), and that events keep it
   (`Refreshes`), also where a reference is itself compared with another one.
2. Where the stored findings point (`findings_point_at_keys`), and findings about an edited reference
   that point beside its keys (`findings_miss_edited_reference`).
-/

namespace LangFile.Session

variable {V E : Type} {s s' s'' : Session V E} {p : Text} {c : Comparison}

/-! ## What is stored -/

/-- What is stored about a path is what some pass over an open document has posted about it as that
document's reference. -/
def IsReferencePosting (s : Session V E) (path : Text) : Prop :=
  ∃ q d text c, s.document? q = some d ∧ d.language ∈ validatedLanguages ∧
    Validation.validate s.disk (.ofText q) text s.referenceName = some c ∧
    path = c.referencePath ∧ s.findings path = c.reference

/-- What is stored about a document, if it is compared, are the findings about its present text,
unless it is a reference. -/
def IsFresh (s : Session V E) (p : Text) : Prop :=
  ∀ c, s.comparison? p = some c → s.findings p = c.candidate ∨ s.IsReferencePosting p

theorem IsReferencePosting.continues (h : s.IsReferencePosting p) (hcontinues : Continues s s')
    (hfindings : s'.findings p = s.findings p) : s'.IsReferencePosting p := by
  obtain ⟨q, d, text, c, hd, hlanguage, hc, hpath, hposted⟩ := h
  obtain ⟨d', hd', hsame⟩ := hcontinues.isOpen hd
  rw [← hcontinues.disk, ← hcontinues.referenceName] at hc
  exact ⟨q, d', text, c, hd', hsame ▸ hlanguage, hc, hpath, hfindings.trans hposted⟩

/-- Nothing has happened to the document nor to what is stored about it. -/
theorem IsFresh.continues (h : s.IsFresh p) (hcontinues : Continues s s')
    (hdocument : s'.document? p = s.document? p) (hfindings : s'.findings p = s.findings p) :
    s'.IsFresh p := by
  intro c hc
  rw [comparison?_congr hcontinues.disk hcontinues.referenceName hdocument] at hc
  rcases h c hc with hcurrent | hreference
  · exact Or.inl (hfindings.trans hcurrent)
  · exact Or.inr (hreference.continues hcontinues hfindings)

/-- The findings about a document keep up with its text. -/
structure Refreshes (s s' : Session V E) : Prop extends Continues s s' where
  isFresh {p : Text} : s.IsListening → s.IsFresh p → s'.IsFresh p

/-- When the news of a document is over, what is stored about it is fresh if the session listened. -/
def Refreshed (e : Event) (s s' : Session V E) : Prop :=
  s.IsListening → ∀ p, e = .opened p ∨ e = .changed p → s'.IsFresh p

namespace Refreshes

theorem refl (s : Session V E) : Refreshes s s := ⟨Continues.refl s, fun _ h => h⟩

theorem trans (h : Refreshes s s') (h' : Refreshes s' s'') : Refreshes s s'' :=
  ⟨h.toContinues.trans h'.toContinues, fun hlistening hfresh =>
    h'.isFresh (h.isListening_iff.2 hlistening) (h.isFresh hlistening hfresh)⟩

theorem of_continues (h : Continues s s') (hdocument : ∀ p, s'.document? p = s.document? p)
    (hfindings : ∀ p, s'.findings p = s.findings p) : Refreshes s s' :=
  ⟨h, fun _ hfresh => hfresh.continues h (hdocument _) (hfindings _)⟩

/-- What is posted about a path matters for that path only. -/
theorem withFindings {fs : List Finding}
    (h : (s.withFindings p fs).IsFresh p) : Refreshes s (s.withFindings p fs) := by
  have hcontinues : Continues s (s.withFindings p fs) := Continues.of_eq rfl rfl rfl rfl rfl rfl
  refine ⟨hcontinues, fun {q} _ hfresh => ?_⟩
  by_cases hq : q = p
  · exact hq ▸ h
  · exact hfresh.continues hcontinues rfl (by rw [findings_withFindings, if_neg hq])

theorem withCandidate (hc : s.comparison? p = some c) :
    Refreshes s (s.withFindings p c.candidate) := by
  refine withFindings fun c' hc' => Or.inl ?_
  obtain rfl := Option.some.inj (hc.symm.trans hc')
  rw [findings_withFindings, if_pos rfl]

theorem withReference {q text : Text} {d : Document} (hd : s.document? q = some d)
    (hlanguage : d.language ∈ validatedLanguages)
    (hc : Validation.validate s.disk (.ofText q) text s.referenceName = some c) :
    Refreshes s (s.withFindings c.referencePath c.reference) := by
  refine withFindings fun _ _ => Or.inr ⟨q, d, text, c, hd, hlanguage, hc, rfl, ?_⟩
  rw [findings_withFindings, if_pos rfl]

/-- An edit, when the document that it is about is fresh in the end. -/
theorem of_edit {edit : ObserverEdit} {e : Event} {documents : List Document}
    (hcauses : edit.Causes s e p documents) (h : Refreshes { s with documents } s')
    (hrefreshed : s.IsListening → s'.IsFresh p) : Refreshes s s' := by
  have hcontinues : Continues s { s with documents } := Continues.of_edit hcauses
  refine ⟨hcontinues.trans h.toContinues, fun {q} hlistening hfresh => ?_⟩
  by_cases hq : q = p
  · exact hq ▸ hrefreshed hlistening
  · exact h.isFresh (hcontinues.isListening_iff.2 hlistening)
      (hfresh.continues hcontinues (hcauses.others q hq) rfl)

variable [Host V E] [Host.Orderly V E] {emit : Delivery V E} {depth : Nat}

theorem isIndifferent : IsIndifferent (Refreshes (V := V) (E := E)) :=
  .of_aside refl trans fun _ _ _ _ _ _ _ _ _ =>
    of_continues (Continues.of_eq rfl rfl rfl rfl rfl rfl) (fun _ => rfl) fun _ => rfl

/-- After the first half of a pass the rest is news, and findings about the reference. -/
theorem posted (hemit : Meets Refreshes Refreshed depth emit) (h : 2 * s.budget + 1 ≤ depth)
    (hc : s.comparison? p = some c) :
    Refreshes (s.withFindings p c.candidate) (s.validate emit p) := by
  obtain ⟨d, hd, hlanguage, hvalidate⟩ := comparison?_eq_some_iff.1 hc
  refine isIndifferent.posted hemit h hc fun heard hheard => ?_
  have hcontinues := (withCandidate hc).toContinues.trans hheard.toContinues
  obtain ⟨d', hd', hsame⟩ := hcontinues.isOpen hd
  rw [← hcontinues.disk, ← hcontinues.referenceName] at hvalidate
  exact withReference hd' (hsame ▸ List.contains_iff_mem.1 hlanguage) hvalidate

theorem validate (hemit : Meets Refreshes Refreshed depth emit) (h : 2 * s.budget + 1 ≤ depth)
    (p : Text) : Refreshes s (s.validate emit p) := by
  cases hc : s.comparison? p with
  | none =>
    rw [validate_of_comparison?_eq_none hc]
    exact refl s
  | some c => exact (withCandidate hc).trans (posted hemit h hc)

/-- **A pass leaves its document fresh.** -/
theorem isFresh_validate (hemit : Meets Refreshes Refreshed depth emit)
    (h : 2 * s.budget + 1 ≤ depth) (hlistening : s.IsListening) :
    (s.validate emit p).IsFresh p := by
  cases hc : s.comparison? p with
  | none =>
    intro c hc'
    rw [validate_of_comparison?_eq_none hc, hc] at hc'
    simp at hc'
  | some c =>
    have hcandidate := withCandidate hc
    refine (posted hemit h hc).isFresh (hcandidate.isListening_iff.2 hlistening) ?_
    intro c' hc'
    obtain rfl := Option.some.inj (hc.symm.trans hc')
    exact Or.inl (by rw [findings_withFindings, if_pos rfl])

theorem isKept : IsKept (Refreshes (V := V) (E := E)) Refreshed where
  toIsIndifferent := isIndifferent
  validate p hemit h := validate hemit h p
  edit edit hemit h :=
    isIndifferent.edit hemit h edit fun {_ q _ _} hcauses hrefreshes hrefreshed =>
      of_edit hcauses hrefreshes fun hlistening =>
        hrefreshed ((Continues.of_edit hcauses).isListening_iff.2 hlistening) q hcauses.event

/-- The session passes over the document in its turn, and what is fresh stays so. -/
theorem refreshed_callSubscribers {e : Event} (hemit : Meets Refreshes Refreshed depth emit)
    (h : need e s ≤ depth + 1) : Refreshed e s (s.callSubscribers emit e) := by
  have hkept := isKept (V := V) (E := E)
  intro hlistening p he
  obtain ⟨s₁, hs₁, hpass, hend⟩ :=
    hkept.exists_pass hemit h (fun _ hs' => hs'.signal) he (hlistening.hearsOf he)
  have hlistening₁ := hs₁.2.isListening_iff.2 hlistening
  have hvalidated := validate hemit hpass p
  exact hend.isFresh (hvalidated.isListening_iff.2 hlistening₁)
    (isFresh_validate hemit hpass hlistening₁)

theorem meets_emit (depth : Nat) :
    Meets (V := V) (E := E) Refreshes Refreshed depth Session.emit :=
  isKept.meets_emit refreshed_callSubscribers depth

theorem start (s : Session V E) : Refreshes s.begun (s.start Session.emit) :=
  isKept.start meets_emit s

/-- From the start on, what is stored about every document is fresh. -/
theorem isFresh_start (hnew : s.IsNew) (p : Text) : (s.start Session.emit).IsFresh p := by
  have hlistening := isListening_begun hnew
  cases hd : s.begun.document? p with
  | none =>
    -- a document that listeners open in the course of the start is validated when it is opened
    refine (start s).isFresh hlistening fun c hc => ?_
    obtain ⟨d, hd', -⟩ := comparison?_eq_some_iff.1 hc
    rw [hd] at hd'
    simp at hd'
  | some d =>
    obtain rfl := path_of_document? hd
    have hmem : d ∈ s.documents := mem_of_document? hd
    obtain ⟨s₁, hbefore, hend⟩ := isKept.exists_pass_start (s := s) meets_emit hmem
    have hmeets := meets_emit (V := V) (E := E) (2 * s₁.budget + 1)
    have hlistening₁ := hbefore.isListening_iff.2 hlistening
    have hvalidated := validate hmeets (Nat.le_refl _) d.path
    exact hend.isFresh (hvalidated.isListening_iff.2 hlistening₁)
      (isFresh_validate hmeets (Nat.le_refl _) hlistening₁)

theorem edits (edits : List ObserverEdit) (s : Session V E) :
    Refreshes s (edits.foldl (fun s edit => edit.perform Session.emit s) s) :=
  isKept.edits_emit meets_emit edits s

end Refreshes

/-! ## Where findings point -/

/-- What is posted about a reference points into the text of its file. -/
theorem IsReferencePosting.exists_pointsInto (h : s.IsReferencePosting p) :
    s.IsReference p ∧
      ∃ t, s.disk.readText (.ofText p) = .ok t ∧ ∀ f ∈ s.findings p, f.PointsInto t := by
  obtain ⟨q, d, text, c, hd, hlanguage, hc, rfl, hposted⟩ := h
  refine ⟨?_, ?_⟩
  · obtain ⟨c', hc', hpath⟩ := Validation.exists_validate hc d.text
    exact ⟨q, c', comparison?_eq_some_iff.2 ⟨d, hd, List.contains_iff_mem.2 hlanguage, hc'⟩, hpath⟩
  · rw [hposted]
    exact Validation.exists_pointsInto_reference hc

/-- Nothing is posted about a document that is not compared, but as about a reference. -/
theorem IsOnePosting.of_comparison?_eq_none {states : List (Session V E)}
    (h : s.IsOnePosting states p) (hcourse : ∀ passed ∈ states, Continues passed s)
    (hnone : s.comparison? p = none) : s.findings p = [] ∨ s.IsReferencePosting p := by
  rcases h with hempty | ⟨passed, hpassed, q, c, hc, ⟨hpath, hposted⟩ | ⟨rfl, -⟩⟩
  · exact Or.inl hempty
  · have hcontinues := hcourse passed hpassed
    obtain ⟨d, hd, hlanguage, hvalidate⟩ := comparison?_eq_some_iff.1 hc
    obtain ⟨d', hd', hsame⟩ := hcontinues.isOpen hd
    rw [← hcontinues.disk, ← hcontinues.referenceName] at hvalidate
    exact Or.inr ⟨q, d', d.text, c, hd', hsame ▸ List.contains_iff_mem.1 hlanguage, hvalidate, hpath,
      hposted⟩
  · obtain ⟨c', hc', -⟩ := (hcourse passed hpassed).exists_comparison? hc
    rw [hnone] at hc'
    simp at hc'

variable [Host V E] [Host.Orderly V E]

/--
**Stored findings point at their keys:** those about a document into its present text, or, if it is
the reference of another document, into the text that its file has on the disk.
-/
theorem findings_point_at_keys {s₀ : Session V E} (hnew : s₀.IsNew) (edits : List ObserverEdit) :
    let s := edits.foldl (fun s edit => edit.perform Session.emit s) (s₀.start Session.emit)
    ∀ p d, s.document? p = some d →
      (∀ f ∈ s.findings p, f.PointsInto d.text) ∨
        s.IsReference p ∧
          ∃ t, s₀.disk.readText (.ofText p) = .ok t ∧ ∀ f ∈ s.findings p, f.PointsInto t := by
  intro s p d hd
  obtain ⟨states, hcourse⟩ := exists_course s₀ edits
  have hposting : s.IsOnePosting states p := hcourse.isOnePosting p (findings_begun hnew p)
  have hlistening := (Refreshes.start s₀).isListening_iff.2 (isListening_begun hnew)
  have hfresh : s.IsFresh p :=
    (Refreshes.edits edits _).isFresh hlistening (Refreshes.isFresh_start hnew p)
  have hdisk : s.disk = s₀.disk :=
    ((updates_start s₀).trans (isKept_updates.edits_emit meets_emit_updates edits _)).disk
  rw [← hdisk]
  cases hc : s.comparison? p with
  | none =>
    rcases hposting.of_comparison?_eq_none hcourse.continues hc with hempty | hreference
    · exact Or.inl (by simp [hempty])
    · exact Or.inr hreference.exists_pointsInto
  | some c =>
    rcases hfresh c hc with hcurrent | hreference
    · obtain ⟨d', hd', -, hvalidate⟩ := comparison?_eq_some_iff.1 hc
      obtain rfl := Option.some.inj (hd'.symm.trans hd)
      rw [hcurrent]
      exact Or.inl (Validation.pointsInto_candidate hvalidate)
    · exact Or.inr hreference.exists_pointsInto

/-- The text of the reference with a blank put before it. -/
def shiftedReference : Text := " \x7b\"a\": \"A\"\x7d"

/-- The reference is opened with another text than its file has, and then a document that lacks its
key. -/
def shifting : List ObserverEdit :=
  [.openDocument "en_us.json" shiftedReference, .openDocument "ko_kr.json" "\x7b\x7d"]

theorem not_pointsInto_shiftedReference : ¬ missingFinding.PointsInto shiftedReference := by
  intro h
  exact absurd h.getElem? (by decide)

theorem findings_point_at_keys_shifted :
    let s := shifting.foldl (fun s edit => edit.perform Session.emit s)
      ((observed []).start Session.emit)
    s.findings "en_us.json" = [missingFinding] ∧ s.IsReference "en_us.json" ∧
      ∃ t, englishDisk.readText (.ofText "en_us.json") = .ok t ∧ missingFinding.PointsInto t := by
  intro s
  have hfindings : s.findings "en_us.json" = [missingFinding] := by decide +kernel
  have hdocument : (s.document? "en_us.json").map (·.text) = some shiftedReference := by
    decide +kernel
  obtain ⟨d, hd, htext⟩ := Option.map_eq_some_iff.1 hdocument
  have hmem : missingFinding ∈ s.findings "en_us.json" := hfindings ▸ List.mem_cons_self
  rcases findings_point_at_keys (isNew_observed []) shifting "en_us.json" d hd with
    hpoints | ⟨hreference, t, ht, hpoints⟩
  · exact absurd (htext ▸ hpoints _ hmem) not_pointsInto_shiftedReference
  · exact ⟨hfindings, hreference, t, ht, hpoints _ hmem⟩

/-- **Findings about an edited reference point beside its keys.** -/
theorem findings_miss_edited_reference :
    let s := shifting.foldl (fun s edit => edit.perform Session.emit s)
      ((observed []).start Session.emit)
    ∃ d f, s.document? "en_us.json" = some d ∧ f ∈ s.findings "en_us.json" ∧
      ¬ f.PointsInto d.text := by
  intro s
  have hfindings : s.findings "en_us.json" = [missingFinding] := by decide +kernel
  have hdocument : (s.document? "en_us.json").map (·.text) = some shiftedReference := by
    decide +kernel
  obtain ⟨d, hd, htext⟩ := Option.map_eq_some_iff.1 hdocument
  exact ⟨d, missingFinding, hd, hfindings ▸ List.mem_cons_self,
    htext ▸ not_pointsInto_shiftedReference⟩

end LangFile.Session

import LangFile.Proofs.Session.Operation

/-!
# Listeners that make no edits

When the surroundings edit nothing themselves, an event about a document does to the documents and
the findings what the session's own pass over the document does, and nothing else.

1. What a pass posts (`posting?`), and what a delivery may do to findings (`Posts`).
2. The news of findings does nothing to them (`IsQuiet`), nor does any that is about no document.
3. Passes over documents, one after another (`isCurrent_validations`).
4. The event of an edit is one pass (`posts_emit`, `findings_emit`).
-/

namespace LangFile.Session

variable {V E : Type} {s s' s'' : Session V E} {p q : Text}

/-! ## What is posted -/

/-- What the pass over a document posts about a path, if it posts anything: the findings about the
reference, which are posted last, or about the document. -/
def posting? (s : Session V E) (document path : Text) : Option (List Finding) :=
  (s.comparison? document).bind fun c =>
    if path = c.referencePath then some c.reference
    else if path = document then some c.candidate
    else none

theorem posting?_of_comparison?_eq_none (h : s.comparison? p = none) (q : Text) :
    s.posting? p q = none := by
  unfold posting?
  rw [h]
  rfl

theorem posting?_of_comparison? {c : Comparison} (h : s.comparison? p = some c) (q : Text) :
    s.posting? p q = if q = c.referencePath then some c.reference
      else if q = p then some c.candidate else none := by
  unfold posting?
  rw [h]
  rfl

/-- Nothing changes but the findings, and those only to what is posted. -/
structure Posts (postings : Text → Option (List Finding)) (s s' : Session V E) : Prop where
  disk : s'.disk = s.disk
  referenceName : s'.referenceName = s.referenceName
  documents : s'.documents = s.documents
  signal : s'.signal = s.signal
  previews : s'.previews = s.previews
  findings (q : Text) : s'.findings q = s.findings q ∨ postings q = some (s'.findings q)

namespace Posts

variable {postings : Text → Option (List Finding)}

theorem document? (h : Posts postings s s') (p : Text) : s'.document? p = s.document? p := by
  unfold Session.document?
  rw [h.documents]

theorem comparison? (h : Posts postings s s') (p : Text) : s'.comparison? p = s.comparison? p :=
  comparison?_congr h.disk h.referenceName (h.document? p)

theorem posting? (h : Posts postings s s') (p : Text) : s'.posting? p = s.posting? p := by
  funext q
  unfold Session.posting?
  rw [h.comparison? p]

/-- If nothing is posted, the findings are the same. -/
theorem findings_eq (h : Posts postings s s') (hnone : postings q = none) :
    s'.findings q = s.findings q := by
  rcases h.findings q with heq | hposted
  · exact heq
  · rw [hnone] at hposted
    simp at hposted

theorem mono (h : Posts (fun _ => none) s s') : Posts postings s s' :=
  ⟨h.disk, h.referenceName, h.documents, h.signal, h.previews,
    fun _ => Or.inl (h.findings_eq rfl)⟩

theorem trans (h : Posts postings s s') (h' : Posts postings s' s'') : Posts postings s s'' where
  disk := h'.disk.trans h.disk
  referenceName := h'.referenceName.trans h.referenceName
  documents := h'.documents.trans h.documents
  signal := h'.signal.trans h.signal
  previews := h'.previews.trans h.previews
  findings q := by
    rcases h'.findings q with heq | hposted
    · rw [heq]
      exact h.findings q
    · exact Or.inr hposted

end Posts

variable [Host V E] [Host.Orderly V E] {emit : Delivery V E}
  {postings : Text → Option (List Finding)}

theorem isIndifferent_posts (postings : Text → Option (List Finding)) :
    IsIndifferent (Posts (V := V) (E := E) postings) :=
  .of_aside (fun _ => ⟨rfl, rfl, rfl, rfl, rfl, fun _ => Or.inl rfl⟩) Posts.trans
    fun _ _ _ _ _ _ _ _ _ => ⟨rfl, rfl, rfl, rfl, rfl, fun _ => Or.inl rfl⟩

/-! ## News of findings -/

/-- Surroundings without a budget make no edits. -/
theorem IsIndifferent.hear {keeps : Session V E → Session V E → Prop} (hkept : IsIndifferent keeps)
    (h : s.budget = 0) (emit : Delivery V E) (e : Event) :
    CalmlyKeeps keeps s (Host.hear emit e s) := by
  obtain ⟨views, outside, edits, heq, hle, hpaid, hkeeps⟩ := hkept.told emit e s
  rw [heq]
  cases edits with
  | nil => exact ⟨⟨rfl, hle, fun hround => hround⟩, hkeeps⟩
  | cons edit edits =>
    have hlt : Host.Orderly.budget V outside < s.budget := hpaid (List.cons_ne_nil _ _)
    omega

/-- Of what listens in a session, only its own validation acts on documents and findings. -/
theorem IsIndifferent.react {keeps : Session V E → Session V E → Prop} (hkept : IsIndifferent keeps)
    (h : s.budget = 0) (emit : Delivery V E) {l : Listener} {e : Event} (hl : l ≠ .validation)
    (he : e.topic ≠ .scrolled) : CalmlyKeeps keeps s (s.react emit l e) := by
  cases l with
  | validation => exact absurd rfl hl
  | decoration => exact hkept.decorateVisible s
  | scrolling =>
    cases e with
    | scrolled => exact absurd rfl he
    | _ => exact hkept.calmly_refl s
  | preview id => exact hkept.refreshPreview id e s
  | outside => exact hkept.hear h emit e

/-- The news of findings changes nothing. -/
def IsQuiet (emit : Delivery V E) : Prop :=
  ∀ (s : Session V E) (p : Text), s.budget = 0 →
    CalmlyKeeps (Posts fun _ => none) s (emit (.diagnosed p) s)

/-- What is news of neither a document nor scrolling changes neither documents nor findings. -/
theorem posts_emitNested_aside {e : Event} (hopened : e.topic ≠ .opened)
    (hchanged : e.topic ≠ .changed) (hscrolled : e.topic ≠ .scrolled) (depth : Nat)
    (hquiet : s.budget = 0) :
    CalmlyKeeps (Posts fun _ => none) s (emitNested (depth + 1) e s) := by
  have hindifferent := isIndifferent_posts (V := V) (E := E) fun _ => none
  refine deliver_induction hindifferent.calmly_refl hindifferent.calmly_trans
    fun s' interest hs' => ?_
  by_cases hl : interest.listener = .validation
  · rw [hl]
    cases e with
    | opened => exact absurd rfl hopened
    | changed => exact absurd rfl hchanged
    | _ => exact hindifferent.calmly_refl s'
  · exact hindifferent.react (hs'.1.quiet hquiet) _ hl hscrolled

theorem isQuiet_emitNested (depth : Nat) :
    IsQuiet (emitNested (depth + 1) : Delivery V E) := fun _ _ =>
  posts_emitNested_aside (by simp [Event.topic]) (by simp [Event.topic]) (by simp [Event.topic])
    depth

/-- The nesting allowed at the top is enough for the news of a pass. -/
theorem exists_emit_eq (e : Event) (s : Session V E) :
    ∃ depth, Session.emit e s = s.callSubscribers (emitNested (depth + 1)) e := by
  have hnesting : 2 ≤ Host.nesting V s.outside :=
    Nat.le_trans (Nat.le_add_left 2 _) (Host.Orderly.le_nesting s.outside)
  obtain ⟨depth, hdepth⟩ := Nat.exists_eq_add_of_le hnesting
  refine ⟨depth, ?_⟩
  unfold Session.emit
  rw [hdepth, Nat.add_comm]
  rfl

theorem posts_emit_aside {e : Event} (hopened : e.topic ≠ .opened) (hchanged : e.topic ≠ .changed)
    (hscrolled : e.topic ≠ .scrolled) (hquiet : s.budget = 0) :
    CalmlyKeeps (Posts fun _ => none) s (Session.emit e s) := by
  obtain ⟨depth, hdepth⟩ := exists_emit_eq e s
  rw [hdepth]
  exact posts_emitNested_aside hopened hchanged hscrolled (depth + 1) hquiet

theorem isQuiet_emit : IsQuiet (Session.emit : Delivery V E) := fun _ _ =>
  posts_emit_aside (by simp [Event.topic]) (by simp [Event.topic]) (by simp [Event.topic])

/-! ## Passes -/

/-- A pass posts what there is to be posted, and changes nothing else. -/
theorem posts_validate (hemit : IsQuiet emit) (hquiet : s.budget = 0)
    (hpostings : s.posting? p = postings) :
    CalmlyKeeps (Posts postings) s (s.validate emit p) ∧
      ∀ q, (s.validate emit p).findings q = (postings q).getD (s.findings q) := by
  subst hpostings
  cases hc : s.comparison? p with
  | none =>
    rw [validate_of_comparison?_eq_none hc]
    exact ⟨(isIndifferent_posts _).calmly_refl s, fun q => by
      rw [posting?_of_comparison?_eq_none hc, Option.getD_none]⟩
  | some c =>
    rw [validate_of_comparison? hc]
    have hfirst := hemit (s.withFindings p c.candidate) p hquiet
    generalize emit (.diagnosed p) (s.withFindings p c.candidate) = first at hfirst ⊢
    have hquiet' : first.budget = 0 := hfirst.1.quiet hquiet
    have hlast := hemit (first.withFindings c.referencePath c.reference) c.referencePath hquiet'
    generalize emit (.diagnosed c.referencePath) _ = last at hlast ⊢
    have hfindings (q : Text) : last.findings q = (s.posting? p q).getD (s.findings q) := by
      rw [hlast.2.findings_eq rfl, findings_withFindings, hfirst.2.findings_eq rfl,
        findings_withFindings, posting?_of_comparison? hc]
      split
      · rfl
      · split <;> rfl
    refine ⟨⟨?_, ?_⟩, hfindings⟩
    · exact Calm.trans ⟨hfirst.1.overrun, hfirst.1.budget, hfirst.1.inProgress⟩
        ⟨hlast.1.overrun, hlast.1.budget, hlast.1.inProgress⟩
    · refine ⟨hlast.2.disk.trans hfirst.2.disk, hlast.2.referenceName.trans hfirst.2.referenceName,
        hlast.2.documents.trans hfirst.2.documents, hlast.2.signal.trans hfirst.2.signal,
        hlast.2.previews.trans hfirst.2.previews, fun q => ?_⟩
      rw [hfindings q]
      cases s.posting? p q with
      | none => exact Or.inl rfl
      | some fs => exact Or.inr rfl

/-- A pass makes the findings about its document current, and leaves those about others that are
compared as they are: its reference is not compared. -/
theorem isCurrent_validate_of_quiet (hbare : Path.IsBareName s.referenceName)
    (hquiet : s.budget = 0) (h : q = p ∨ s.IsCurrent q) :
    (s.validate Session.emit p).IsCurrent q := by
  obtain ⟨hposts, hfindings⟩ := posts_validate isQuiet_emit hquiet (s := s) (p := p) rfl
  intro c hc
  rw [hposts.2.comparison? q] at hc
  rw [hfindings q]
  have hnot {c' : Comparison} (hc' : s.comparison? p = some c') : q ≠ c'.referencePath :=
    fun heq => not_isReference hbare hc ⟨p, c', hc', heq.symm⟩
  by_cases hq : q = p
  · subst hq
    rw [posting?_of_comparison? hc, if_neg (hnot hc), if_pos rfl]
    rfl
  · have hnone : s.posting? p q = none := by
      cases hc' : s.comparison? p with
      | none => exact posting?_of_comparison?_eq_none hc' q
      | some c' => rw [posting?_of_comparison? hc', if_neg (hnot hc'), if_neg hq]
    rw [hnone]
    exact h.resolve_left hq c hc

/-- **Passes over documents make the findings about all of them current.** -/
theorem isCurrent_validations (documents : List Document)
    (hbare : Path.IsBareName s.referenceName) (hquiet : s.budget = 0)
    (h : q ∈ documents.map (·.path) ∨ s.IsCurrent q) :
    (documents.foldl (fun s d => s.validate Session.emit d.path) s).IsCurrent q := by
  induction documents generalizing s with
  | nil => exact h.resolve_left List.not_mem_nil
  | cons d documents ih =>
    obtain ⟨hposts, -⟩ := posts_validate isQuiet_emit hquiet (s := s) (p := d.path) rfl
    refine ih (hposts.2.referenceName ▸ hbare) (hposts.1.quiet hquiet) ?_
    rw [List.map_cons, List.mem_cons, or_assoc] at h
    rcases h with hthis | hlater | hcurrent
    · exact Or.inr (isCurrent_validate_of_quiet hbare hquiet (Or.inl hthis))
    · exact Or.inl hlater
    · exact Or.inr (isCurrent_validate_of_quiet hbare hquiet (Or.inr hcurrent))

section

variable {e : Event} (he : e = .opened p ∨ e = .changed p)

include he

/-- What the session's own listener does is its pass; what it decorates does not matter. -/
theorem posts_react_validation (hemit : IsQuiet emit) (hquiet : s.budget = 0)
    (hpostings : s.posting? p = postings) :
    CalmlyKeeps (Posts postings) s (s.react emit .validation e) ∧
      ∀ q, (s.react emit .validation e).findings q = (postings q).getD (s.findings q) := by
  obtain ⟨hposts, hfindings⟩ := posts_validate hemit hquiet hpostings
  have hdecorated := (isIndifferent_posts fun _ => none).decorateVisible
    (s.validate emit p)
  rcases he with rfl | rfl
  · exact ⟨hposts, hfindings⟩
  · exact ⟨(isIndifferent_posts _).calmly_trans hposts ⟨hdecorated.1, hdecorated.2.mono⟩,
      fun q => (hdecorated.2.findings_eq rfl).trans (hfindings q)⟩

theorem posts_react (hemit : IsQuiet emit) (hquiet : s.budget = 0)
    (hpostings : s.posting? p = postings) (l : Listener) :
    CalmlyKeeps (Posts postings) s (s.react emit l e) := by
  by_cases hl : l = .validation
  · rw [hl]
    exact (posts_react_validation he hemit hquiet hpostings).1
  · refine (isIndifferent_posts _).react hquiet emit hl ?_
    rcases he with rfl | rfl <;> simp [Event.topic]

/-- The event of an edit changes nothing but findings, and those to what the pass posts. -/
theorem posts_emit (hquiet : s.budget = 0) (hpostings : s.posting? p = postings) :
    CalmlyKeeps (Posts postings) s (Session.emit e s) := by
  obtain ⟨depth, hdepth⟩ := exists_emit_eq e s
  rw [hdepth]
  exact deliver_induction (isIndifferent_posts _).calmly_refl (isIndifferent_posts _).calmly_trans
    fun s' interest hs' => posts_react he (isQuiet_emitNested depth) (hs'.1.quiet hquiet)
      ((hs'.2.posting? p).trans hpostings) interest.listener

/-- **The event of an edit is one pass over the document.** -/
theorem findings_emit (hlistening : s.IsListening) (hquiet : s.budget = 0)
    (hpostings : s.posting? p = postings) (q : Text) :
    (Session.emit e s).findings q = (postings q).getD (s.findings q) := by
  obtain ⟨depth, hdepth⟩ := exists_emit_eq e s
  rw [hdepth]
  have hemit := isQuiet_emitNested (V := V) (E := E) depth
  obtain ⟨s₁, hbefore, hafter⟩ := (isIndifferent_posts postings).exists_validation
    (fun s' interest hs' => posts_react he hemit (hs'.1.quiet hquiet)
      ((hs'.2.posting? p).trans hpostings) interest.listener)
    (fun _ hs' => hs'.signal) (hlistening.hearsOf he)
  have hposted := (posts_react_validation he hemit (hbefore.1.quiet hquiet)
    ((hbefore.2.posting? p).trans hpostings)).2 q
  cases hfs : postings q with
  | none =>
    rw [hafter.2.findings_eq hfs, hposted, hfs, hbefore.2.findings_eq hfs]
  | some fs =>
    rcases hafter.2.findings q with heq | hagain
    · rw [heq, hposted, hfs]
      rfl
    · exact Option.some.inj (hagain.symm.trans hfs)

end

end LangFile.Session

import LangFile.Proofs.Session.Findings
import LangFile.Proofs.Session.Quiet
import Mathlib.Data.List.Basic

/-!
# Which pass the findings come from

A pass replaces the findings about a path as a whole. Documents that share a reference all post about
it, so of the findings about the reference only those of one of them are kept: of the document over
which the session has passed last.

1. The course of a session through its states (`Course`), and that what is stored has been posted as a
   whole by one pass on the way (`IsOnePosting`), whatever listeners edit (`Prolongs.isKept`).
2. The passes in the course of edits (`passes`), and what the last of them leaves (`lastPosting`).
3. That is what is stored when listeners make no edits (`findings_passes`), so a pass discards what
   another one has found (`findings_discarded`).
-/

namespace LangFile.Session

variable {V E : Type} {s s' : Session V E} {p : Text} {passed : List Text}

/-! ## One pass -/

/-- What a pass over a document posts about a path. -/
def IsPosting (c : Comparison) (document path : Text) (fs : List Finding) : Prop :=
  (path = c.referencePath ∧ fs = c.reference) ∨ (path = document ∧ fs = c.candidate)

/-- The course of a session from its start, as far as documents and findings go, through the states
that are listed, the last one first. Documents are opened and changed, and passes are made over the
texts that they have in one of the states; listeners may act before a pass has posted all it found. -/
inductive Course (s₀ : Session V E) : List (Session V E) → Session V E → Prop
  | start : Course s₀ [] s₀
  | aside {states : List (Session V E)} {s s' : Session V E} :
    Course s₀ states s → s'.disk = s.disk → s'.referenceName = s.referenceName →
    s'.signal = s.signal → s'.previews = s.previews → s'.overrun = s.overrun →
    s'.documents = s.documents → s'.diagnostics = s.diagnostics → Course s₀ (s :: states) s'
  | edited {states : List (Session V E)} {s : Session V E} {edit : ObserverEdit} {e : Event}
    {p : Text} {documents : List Document} :
    Course s₀ states s → edit.Causes s e p documents →
    Course s₀ (s :: states) { s with documents }
  | posted {states : List (Session V E)} {s passed : Session V E} {q path : Text} {c : Comparison}
    {fs : List Finding} :
    Course s₀ states s → passed ∈ s :: states → passed.comparison? q = some c →
    IsPosting c q path fs → Course s₀ (s :: states) (s.withFindings path fs)

/-- What is stored about a path is nothing, or what one pass over an open document has posted about
it, with the text that the document had in one of the states before. -/
def IsOnePosting (s : Session V E) (states : List (Session V E)) (path : Text) : Prop :=
  s.findings path = [] ∨ ∃ passed ∈ states, ∃ q c,
    passed.comparison? q = some c ∧ IsPosting c q path (s.findings path)

theorem IsOnePosting.of_findings_eq {states : List (Session V E)} {path : Text}
    (h : s.IsOnePosting states path) (hfindings : s'.findings path = s.findings path) :
    s'.IsOnePosting (s :: states) path := by
  unfold IsOnePosting
  rw [hfindings]
  refine h.imp_right fun ⟨passed, hpassed, hposting⟩ => ?_
  exact ⟨passed, List.mem_cons_of_mem _ hpassed, hposting⟩

namespace Course

variable {s₀ : Session V E} {states : List (Session V E)}

/-- **Findings are replaced as a whole.** -/
theorem isOnePosting (h : s₀.Course states s) (path : Text) (hnone : s₀.findings path = []) :
    s.IsOnePosting states path := by
  induction h with
  | start => exact .inl hnone
  | aside _ _ _ _ _ _ _ hdiagnostics ih =>
    refine ih.of_findings_eq ?_
    unfold findings
    rw [hdiagnostics]
  | edited _ _ ih => exact ih.of_findings_eq rfl
  | @posted states s passed q path' c fs _ hpassed hc hposting ih =>
    by_cases hpath : path = path'
    · subst hpath
      refine .inr ⟨passed, hpassed, q, c, hc, ?_⟩
      rwa [findings_withFindings, if_pos rfl]
    · exact ih.of_findings_eq (by rw [findings_withFindings, if_neg hpath])

/-- Every state goes on to those behind it. -/
theorem continues (h : s₀.Course states s) : ∀ passed ∈ states, Continues passed s := by
  have hlast {states : List (Session V E)} {s s' : Session V E} (hs : Continues s s')
      (ih : ∀ passed ∈ states, Continues passed s) : ∀ passed ∈ s :: states, Continues passed s' :=
    List.forall_mem_cons.2 ⟨hs, fun passed hpassed => (ih passed hpassed).trans hs⟩
  induction h with
  | start => exact List.forall_mem_nil _
  | aside _ hdisk hname hsignal hpreviews hoverrun hdocuments _ ih =>
    exact hlast (.of_eq hdisk hname hsignal hpreviews hoverrun hdocuments) ih
  | edited _ hcauses ih => exact hlast (.of_edit hcauses) ih
  | posted _ _ _ _ ih => exact hlast (.of_eq rfl rfl rfl rfl rfl rfl) ih

end Course

/-- Whatever course has led to the first session goes on to the second. -/
def Prolongs (s₀ s s' : Session V E) : Prop :=
  ∀ states, s₀.Course states s → ∃ later, s₀.Course (later ++ states) s'

namespace Prolongs

variable {s₀ : Session V E}

theorem refl (s : Session V E) : s₀.Prolongs s s := fun _ h => ⟨[], h⟩

theorem trans {s'' : Session V E} (h : s₀.Prolongs s s') (h' : s₀.Prolongs s' s'') :
    s₀.Prolongs s s'' := by
  intro states hcourse
  obtain ⟨later, hcourse'⟩ := h states hcourse
  obtain ⟨later', hcourse''⟩ := h' _ hcourse'
  exact ⟨later' ++ later, List.append_assoc later' later states ▸ hcourse''⟩

variable [Host V E] [Host.Orderly V E]

theorem isIndifferent (s₀ : Session V E) : IsIndifferent s₀.Prolongs :=
  .of_aside refl trans fun s _ _ _ _ _ _ _ _ _ h =>
    ⟨[s], h.aside rfl rfl rfl rfl rfl rfl rfl⟩

/-- A pass posts twice, and what it posts at last comes of the text that it began with. -/
theorem isKept (s₀ : Session V E) : IsKept s₀.Prolongs fun _ _ _ => True where
  toIsIndifferent := isIndifferent s₀
  validate {emit depth s} p hemit h := by
    cases hc : s.comparison? p with
    | none =>
      rw [validate_of_comparison?_eq_none hc]
      exact refl s
    | some c =>
      intro states hcourse
      obtain ⟨heard, hnews, hrest⟩ := hemit.exists_halves h hc
      have hcandidate : s₀.Course (s :: states) (s.withFindings p c.candidate) :=
        .posted hcourse List.mem_cons_self hc (.inr ⟨rfl, rfl⟩)
      obtain ⟨later, hheard⟩ := hnews _ hcandidate
      have hreference : s₀.Course (heard :: (later ++ s :: states))
          (heard.withFindings c.referencePath c.reference) := by
        refine .posted hheard (List.mem_cons_of_mem _ ?_) hc (.inl ⟨rfl, rfl⟩)
        exact List.mem_append_right _ List.mem_cons_self
      obtain ⟨last, hlast⟩ := hrest _ hreference
      exact ⟨last ++ heard :: (later ++ [s]), by simpa using hlast⟩
  edit edit hemit h := by
    refine (isIndifferent s₀).edit hemit h edit fun hcauses hprolongs _ => ?_
    intro states hcourse
    obtain ⟨later, hlast⟩ := hprolongs _ (.edited hcourse hcauses)
    exact ⟨later ++ [_], by simpa using hlast⟩

theorem meets_emit (s₀ : Session V E) (depth : Nat) :
    Meets s₀.Prolongs (fun _ _ _ => True) depth Session.emit :=
  (isKept s₀).meets_emit (fun _ _ => trivial) depth

end Prolongs

/-- **The start of a session and the edits behind it are a course.** -/
theorem exists_course [Host V E] [Host.Orderly V E] (s₀ : Session V E) (edits : List ObserverEdit) :
    ∃ states, s₀.begun.Course states
      (edits.foldl (fun s edit => edit.perform Session.emit s) (s₀.start Session.emit)) := by
  have hkept := Prolongs.isKept s₀.begun
  have hemit := Prolongs.meets_emit s₀.begun
  have hstart := hkept.start hemit s₀
  have hedits := hkept.edits_emit hemit edits (s₀.start Session.emit)
  obtain ⟨states, hcourse⟩ := hstart.trans hedits [] .start
  exact ⟨states ++ [], hcourse⟩

/-! ## The last pass -/

/-- The findings that passes over documents leave about a path: those of the last pass that posts
there. -/
def lastPosting (s : Session V E) (passed : List Text) (path : Text) : List Finding :=
  (passed.filterMap fun document => s.posting? document path).getLast?.getD []

theorem lastPosting_concat (s : Session V E) (passed : List Text) (p path : Text) :
    s.lastPosting (passed ++ [p]) path = (s.posting? p path).getD (s.lastPosting passed path) := by
  unfold lastPosting
  rw [List.filterMap_append]
  cases hfs : s.posting? p path with
  | none =>
    simp only [List.filterMap_cons, hfs, List.filterMap_nil, List.append_nil, Option.getD_none]
  | some fs =>
    simp only [List.filterMap_cons, hfs, List.filterMap_nil, List.getLast?_concat, Option.getD_some]

theorem lastPosting_congr {path : Text}
    (h : ∀ q ∈ passed, s'.posting? q path = s.posting? q path) :
    s'.lastPosting passed path = s.lastPosting passed path := by
  unfold lastPosting
  rw [List.filterMap_congr h]

/-- Whether a pass posts about a path is a matter of the paths alone. -/
theorem posting?_eq_none (h : Continues s s') {path : Text} (hnone : s'.posting? p path = none) :
    s.posting? p path = none := by
  cases hc : s.comparison? p with
  | none => exact posting?_of_comparison?_eq_none hc path
  | some c =>
    obtain ⟨c', hc', hreference⟩ := h.exists_comparison? hc
    rw [posting?_of_comparison? hc', hreference] at hnone
    rw [posting?_of_comparison? hc]
    by_cases hr : path = c.referencePath
    · rw [if_pos hr] at hnone
      exact absurd hnone (Option.some_ne_none _)
    · by_cases hp : path = p
      · rw [if_neg hr, if_pos hp] at hnone
        exact absurd hnone (Option.some_ne_none _)
      · rw [if_neg hr, if_neg hp]

variable [Host V E] [Host.Orderly V E]

/-- The surroundings make no edits, and what is stored is what the passes so far have left. -/
structure IsPassed (s : Session V E) (passed : List Text) : Prop where
  budget : s.budget = 0
  findings (path : Text) : s.findings path = s.lastPosting passed path

/-- One more pass, when the documents that it is not about are as they were. -/
theorem IsPassed.concat (h : s.IsPassed passed) (hcontinues : Continues s s') (hcalm : Calm s s')
    (hothers : ∀ q, q ≠ p → s'.posting? q = s.posting? q)
    (hfindings : ∀ path, s'.findings path = (s'.posting? p path).getD (s.findings path)) :
    s'.IsPassed (passed ++ [p]) := by
  refine ⟨hcalm.quiet h.budget, fun path => ?_⟩
  rw [hfindings path, lastPosting_concat]
  cases hfs : s'.posting? p path with
  | some fs => rfl
  | none =>
    rw [Option.getD_none, Option.getD_none, h.findings path]
    refine (lastPosting_congr fun q _ => ?_).symm
    by_cases hq : q = p
    · rw [hq, hfs, posting?_eq_none hcontinues hfs]
    · rw [hothers q hq]

/-- **An edit adds its pass to those that there have been.** -/
theorem IsPassed.edit (h : s.IsPassed passed) (hlistening : s.IsListening) (edit : ObserverEdit) :
    (edit.perform Session.emit s).IsPassed (passed ++ (edit.target? s).toList) := by
  cases htarget : edit.target? s with
  | none =>
    rw [edit.perform_of_target?_eq_none htarget, Option.toList_none, List.append_nil]
    exact h
  | some p =>
    have hcontinues := (updates_edit_emit edit s).toContinues
    obtain ⟨e, documents, hcauses⟩ := edit.exists_causes htarget
    rw [hcauses.perform_eq] at hcontinues ⊢
    have hposts := posts_emit (s := { s with documents }) hcauses.event h.budget rfl
    have hfindings := findings_emit (s := { s with documents }) hcauses.event
      ⟨hlistening.opened, hlistening.changed⟩ h.budget rfl
    refine h.concat hcontinues ?_ (fun q hq => ?_) fun path => ?_
    · exact ⟨hposts.1.overrun, hposts.1.budget, hposts.1.inProgress⟩
    · rw [hposts.2.posting? q]
      have hsame : ({ s with documents } : Session V E).comparison? q = s.comparison? q :=
        comparison?_congr rfl rfl (hcauses.others q hq)
      funext path
      unfold posting?
      rw [hsame]
    · rw [hposts.2.posting? p]
      exact hfindings path

omit [Host V E] [Host.Orderly V E] in
theorem findings_begun (hnew : s.IsNew) (path : Text) : s.begun.findings path = [] := by
  have hnone : s.begun.diagnostics = [] := hnew.diagnostics
  unfold findings
  rw [hnone]
  rfl

/-- What is missing from the first of them. -/
def missingFinding : Finding :=
  ⟨"en_us.json", ⟨1, 4⟩, .error, "Missing translation in ko_kr.json", "a"⟩

end LangFile.Session

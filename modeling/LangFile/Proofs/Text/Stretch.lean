import LangFile.Proofs.Text.Literal

/-!
# Stretches of a text with literals

A stretch is a part of a text that cuts nothing in two: it is made of literals, of names with a
colon and the beginning of a value behind them, and of characters that are neither quotation marks,
backslashes nor colons. So it is clear which quotation marks of a stretch open a literal, and which
literals are names, which are the values of names, and which stand alone.
-/

namespace LangFile.Text

/-- A character that stands for itself between literals. -/
def IsPlainChar (c : CodePoint) : Prop :=
  c ≠ .scalar '"' ∧ c ≠ .scalar '\\' ∧ c ≠ .scalar ':'

instance (c : CodePoint) : Decidable (IsPlainChar c) :=
  inferInstanceAs (Decidable (c ≠ .scalar '"' ∧ c ≠ .scalar '\\' ∧ c ≠ .scalar ':'))

/-- A part of a text that cuts no literal in two and no name from its value. -/
inductive Stretch : Text → Prop
  | nil : Stretch []
  | plain {c : CodePoint} {t : Text} : IsPlainChar c → Stretch t → Stretch (c :: t)
  | item {b t : Text} : IsBody b → Stretch t → Stretch (literal b ++ t)
  | bare {b w w' t : Text} {c : CodePoint} :
      IsBody b → AllBlank w → AllBlank w' → IsPlainChar c → c.isBlank = false → Stretch t →
      Stretch (literal b ++ (w ++ .scalar ':' :: (w' ++ c :: t)))
  | valued {b w w' v t : Text} :
      IsBody b → AllBlank w → AllBlank w' → IsBody v → Stretch t →
      Stretch (literal b ++ (w ++ .scalar ':' :: (w' ++ (literal v ++ t))))

/-- A stretch that may stand behind the colon of a name: white space does not begin it. -/
inductive SolidStretch : Text → Prop
  | plain {c : CodePoint} {t : Text} :
      IsPlainChar c → c.isBlank = false → Stretch t → SolidStretch (c :: t)
  | item {b t : Text} : IsBody b → Stretch t → SolidStretch (literal b ++ t)

theorem Stretch.append {s t : Text} (hs : Stretch s) (ht : Stretch t) : Stretch (s ++ t) := by
  induction hs with
  | nil => exact ht
  | plain hc _ ih => exact .plain hc ih
  | item hb _ ih =>
    rw [List.append_assoc]
    exact .item hb ih
  | bare hb hw hw' hc hblank _ ih =>
    simp only [List.append_assoc, List.cons_append]
    exact .bare hb hw hw' hc hblank ih
  | valued hb hw hw' hv _ ih =>
    simp only [List.append_assoc, List.cons_append]
    exact .valued hb hw hw' hv ih

theorem SolidStretch.append {s t : Text} (hs : SolidStretch s) (ht : Stretch t) :
    SolidStretch (s ++ t) := by
  cases hs with
  | plain hc hblank hs => exact .plain hc hblank (hs.append ht)
  | item hb hs =>
    rw [List.append_assoc]
    exact .item hb (hs.append ht)

theorem SolidStretch.stretch {t : Text} (h : SolidStretch t) : Stretch t := by
  cases h with
  | plain hc _ ht => exact .plain hc ht
  | item hb ht => exact .item hb ht

theorem Stretch.name {b w w' t : Text} (hb : IsBody b) (hw : AllBlank w) (hw' : AllBlank w')
    (ht : SolidStretch t) : Stretch (literal b ++ (w ++ .scalar ':' :: (w' ++ t))) := by
  cases ht with
  | plain hc hblank ht => exact .bare hb hw hw' hc hblank ht
  | item hv ht => exact .valued hb hw hw' hv ht

theorem Stretch.of_isBody {b : Text} (hb : IsBody b) : Stretch (literal b) := by
  have hstretch := Stretch.item hb .nil
  rwa [List.append_nil] at hstretch

theorem Stretch.of_plain {t : Text} (h : ∀ c ∈ t, IsPlainChar c) : Stretch t := by
  induction t with
  | nil => exact .nil
  | cons c t ih =>
    obtain ⟨hc, ht⟩ := List.forall_mem_cons.1 h
    exact .plain hc (ih ht)

theorem SolidStretch.of_plain {t : Text} (hne : t ≠ [])
    (h : ∀ c ∈ t, IsPlainChar c ∧ c.isBlank = false) : SolidStretch t := by
  obtain ⟨c, t, rfl⟩ := List.exists_cons_of_ne_nil hne
  obtain ⟨⟨hc, hblank⟩, ht⟩ := List.forall_mem_cons.1 h
  exact .plain hc hblank (.of_plain fun d hd => (ht d hd).1)

/-! ## Behind a literal -/

/-- What stands behind a literal of a stretch: the stretch goes on, or the literal is a name. -/
inductive Behind : Text → Prop
  | item {t : Text} : Stretch t → Behind t
  | bare {w w' t : Text} {c : CodePoint} :
      AllBlank w → AllBlank w' → IsPlainChar c → c.isBlank = false → Stretch t →
      Behind (w ++ .scalar ':' :: (w' ++ c :: t))
  | valued {w w' v t : Text} :
      AllBlank w → AllBlank w' → IsBody v → Stretch t →
      Behind (w ++ .scalar ':' :: (w' ++ (literal v ++ t)))

/-- No literal begins or ends in the text, and no character of it is escaped. -/
def IsGap (g : Text) : Prop := ∀ c ∈ g, c ≠ .scalar '"' ∧ c ≠ .scalar '\\'

theorem AllBlank.isGap {w : Text} (hw : AllBlank w) : IsGap w := by
  intro c hc
  have hblank := hw c hc
  constructor
  · rintro rfl
    exact absurd hblank (by decide)
  · rintro rfl
    exact absurd hblank (by decide)

theorem IsGap.isBody {g : Text} (h : IsGap g) : IsBody g := by
  induction g with
  | nil => exact .nil
  | cons c g ih =>
    obtain ⟨⟨hquote, hbackslash⟩, hg⟩ := List.forall_mem_cons.1 h
    exact .plain hquote hbackslash (ih hg)

theorem IsGap.isBody_of_append {g b : Text} (hg : IsGap g) (h : IsBody (g ++ b)) : IsBody b := by
  induction g with
  | nil => exact h
  | cons c g ih =>
    obtain ⟨⟨-, hbackslash⟩, hg⟩ := List.forall_mem_cons.1 hg
    rw [List.cons_append] at h
    generalize g ++ b = s at h ih
    cases h with
    | plain _ _ h => exact ih hg h
    | escaped => exact absurd rfl hbackslash

theorem quoteFree_of_isGap {g : Text} (h : IsGap g) : .scalar '"' ∉ g :=
  fun hquote => (h _ hquote).1 rfl

theorem IsGap.append {g g' : Text} (h : IsGap g) (h' : IsGap g') : IsGap (g ++ g') :=
  List.forall_mem_append.2 ⟨h, h'⟩

theorem isGap_of_plain {g : Text} (h : ∀ c ∈ g, IsPlainChar c) : IsGap g :=
  fun c hc => ⟨(h c hc).1, (h c hc).2.1⟩

theorem isGap_colon {w w' : Text} (hw : AllBlank w) (hw' : AllBlank w') :
    IsGap (w ++ .scalar ':' :: w') :=
  hw.isGap.append (List.forall_mem_cons.2 ⟨by decide, hw'.isGap⟩)

/-- **A stretch is plain, or it is plain up to its first literal.** -/
theorem Stretch.plain_or_exists_literal {t : Text} (h : Stretch t) :
    (∀ c ∈ t, IsPlainChar c) ∨ ∃ g b u, t = g ++ (literal b ++ u) ∧ (∀ c ∈ g, IsPlainChar c) ∧
      IsBody b ∧ Behind u := by
  induction h with
  | nil => exact Or.inl (List.forall_mem_nil _)
  | plain hc _ ih =>
    rcases ih with hplain | ⟨g, b, u, rfl, hg, hb, hu⟩
    · exact Or.inl (List.forall_mem_cons.2 ⟨hc, hplain⟩)
    · exact Or.inr ⟨_ :: g, b, u, rfl, List.forall_mem_cons.2 ⟨hc, hg⟩, hb, hu⟩
  | item hb ht _ => exact Or.inr ⟨[], _, _, rfl, List.forall_mem_nil _, hb, .item ht⟩
  | bare hb hw hw' hc hblank ht _ =>
    exact Or.inr ⟨[], _, _, rfl, List.forall_mem_nil _, hb, .bare hw hw' hc hblank ht⟩
  | valued hb hw hw' hv ht _ =>
    exact Or.inr ⟨[], _, _, rfl, List.forall_mem_nil _, hb, .valued hw hw' hv ht⟩

/-- What is behind a literal is a gap, or it is a gap up to the next literal. -/
theorem Behind.gap_or_exists_literal {t : Text} (h : Behind t) :
    IsGap t ∨ ∃ g b u, t = g ++ (literal b ++ u) ∧ IsGap g ∧ IsBody b ∧ Behind u := by
  cases h with
  | item ht =>
    rcases ht.plain_or_exists_literal with hplain | ⟨g, b, u, rfl, hg, hb, hu⟩
    · exact Or.inl (isGap_of_plain hplain)
    · exact Or.inr ⟨g, b, u, rfl, isGap_of_plain hg, hb, hu⟩
  | @bare w w' t c hw hw' hc _ ht =>
    have hgap : IsGap (w ++ .scalar ':' :: w' ++ [c]) :=
      (isGap_colon hw hw').append (List.forall_mem_singleton.2 ⟨hc.1, hc.2.1⟩)
    rcases ht.plain_or_exists_literal with hplain | ⟨g, b, u, rfl, hg, hb, hu⟩
    · refine Or.inl ?_
      have hall := hgap.append (isGap_of_plain hplain)
      simpa using hall
    · exact Or.inr ⟨_, b, u, by simp, hgap.append (isGap_of_plain hg), hb, hu⟩
  | @valued w w' v t hw hw' hv ht =>
    exact Or.inr ⟨_, v, t, by simp, isGap_colon hw hw', hv, .item ht⟩

/-! ## Colons -/

/-- A colon begins the text, behind white space or not. -/
def BeginsWithColon (t : Text) : Prop := (trimLeft t).head? = some (.scalar ':')

instance (t : Text) : Decidable (BeginsWithColon t) :=
  inferInstanceAs (Decidable ((trimLeft t).head? = some (.scalar ':')))

theorem beginsWithColon_append {w : Text} (hw : AllBlank w) (t : Text) :
    BeginsWithColon (w ++ t) ↔ BeginsWithColon t := by
  rw [BeginsWithColon, trimLeft_append hw, BeginsWithColon]

theorem beginsWithColon_cons {c : CodePoint} (hc : c.isBlank = false) (t : Text) :
    BeginsWithColon (c :: t) ↔ c = .scalar ':' := by
  rw [BeginsWithColon, trimLeft_cons hc, List.head?_cons, Option.some_inj]

theorem exists_colon_of_beginsWithColon {t : Text} (h : BeginsWithColon t) :
    ∃ w u, AllBlank w ∧ t = w ++ .scalar ':' :: u := by
  obtain ⟨w, hw, ht⟩ := exists_eq_append_trimLeft t
  obtain ⟨u, hu⟩ := List.head?_eq_some_iff.1 h
  exact ⟨w, u, hw, by rw [← hu, ← ht]⟩

/-- No stretch brings a colon to the front. -/
theorem Stretch.not_beginsWithColon {t u : Text} (h : Stretch t) (hu : ¬ BeginsWithColon u) :
    ¬ BeginsWithColon (t ++ u) := by
  have hliteral (b v : Text) : ¬ BeginsWithColon (literal b ++ v) := by
    rw [literal_append, beginsWithColon_cons quotationMark_not_blank]
    decide
  induction h with
  | nil => exact hu
  | @plain c t hc _ ih =>
    cases hblank : c.isBlank with
    | true =>
      have hw : AllBlank [c] := List.forall_mem_singleton.2 hblank
      intro hcolon
      exact ih ((beginsWithColon_append hw _).1 hcolon)
    | false =>
      rw [List.cons_append, beginsWithColon_cons hblank]
      exact hc.2.2
  | item _ _ _ =>
    rw [List.append_assoc]
    exact hliteral _ _
  | bare _ _ _ _ _ _ _ =>
    rw [List.append_assoc]
    exact hliteral _ _
  | valued _ _ _ _ _ _ =>
    rw [List.append_assoc]
    exact hliteral _ _

end LangFile.Text

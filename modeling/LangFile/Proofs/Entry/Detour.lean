import LangFile.Proofs.Entry.Decomposition
import LangFile.Proofs.Text.Stretch

/-!
# Detours of the scanner

A literal that is neither a name nor the value of one is no pair, and the scanner tries its closing
quotation mark as the beginning of one. When the next literal begins with a colon it succeeds: the
text between the two is taken for a key, and the scanner goes on inside the next literal. On such a
detour it passes over the opening quotation marks of names.

1. Without a detour no name is passed over (`reaches_of_no_detour`).
2. Whatever detours there are, a name is only passed over when its own literal begins with a colon,
   or when the literal before it is nothing but a colon (`reaches_of_not_followsColon`).
-/

namespace LangFile.Entry

open Text

/-- A literal that is neither a name nor the value of one comes before a literal that begins with a
colon. -/
def HasDetour (t : Text) : Prop :=
  ∃ x a g b y, Stretch x ∧ IsBody a ∧ (∀ c ∈ g, IsPlainChar c) ∧ IsBody b ∧ BeginsWithColon b ∧
    t = x ++ (literal a ++ (g ++ (literal b ++ y)))

/-- The last literal of the text is nothing but a colon, with white space around it or not; a
quotation mark behind a backslash opens no literal. -/
def FollowsColon (t : Text) : Prop :=
  ∃ x w w' g, x.getLast? ≠ some (.scalar '\\') ∧ AllBlank w ∧ AllBlank w' ∧ .scalar '"' ∉ g ∧
    t = x ++ (literal (w ++ .scalar ':' :: w') ++ g)

/-- A text has one last quotation mark. -/
theorem last_quotationMark_unique {x y g g' : Text} (hg : .scalar '"' ∉ g) (hg' : .scalar '"' ∉ g')
    (h : x ++ .scalar '"' :: g = y ++ .scalar '"' :: g') : x = y := by
  rcases List.append_eq_append_iff.1 h with ⟨a, rfl, ha⟩ | ⟨a, rfl, ha⟩
  · cases a with
    | nil => exact (List.append_nil x).symm
    | cons c a =>
      obtain ⟨-, rfl⟩ := List.cons.inj ha
      simp at hg
  · cases a with
    | nil => exact List.append_nil y
    | cons c a =>
      obtain ⟨-, rfl⟩ := List.cons.inj ha
      simp at hg'

/-- A literal that is nothing but a colon ends with the colon or with white space. -/
theorem FollowsColon.last {y g : Text} {c : CodePoint}
    (h : FollowsColon (y ++ c :: .scalar '"' :: g)) (hg : .scalar '"' ∉ g) :
    c = .scalar ':' ∨ c.isBlank = true := by
  obtain ⟨x, w, w', g', -, -, hw', hg', heq⟩ := h
  have hleft : y ++ c :: .scalar '"' :: g = y ++ [c] ++ .scalar '"' :: g := by simp
  have hright : x ++ (literal (w ++ .scalar ':' :: w') ++ g')
      = x ++ .scalar '"' :: w ++ .scalar ':' :: w' ++ .scalar '"' :: g' := by
    simp [literal]
  rw [hleft, hright] at heq
  have hlast := congrArg List.getLast? (last_quotationMark_unique hg hg' heq)
  rw [List.getLast?_append, List.getLast?_append, List.getLast?_cons] at hlast
  obtain rfl := Option.some.inj hlast
  have hne : CodePoint.scalar ':' :: w' ≠ [] := List.cons_ne_nil _ _
  rcases List.mem_cons.1 (List.getLast_mem hne) with hc | hc
  · exact Or.inl hc
  · exact Or.inr (hw' _ hc)

/-! ## What is no pair -/

theorem pair_literal_eq_none {b t : Text} (hb : IsBody b) (ht : ¬ BeginsWithColon t) :
    pair (literal b ++ t) = none := by
  cases hpair : pair (literal b ++ t) with
  | none => rfl
  | some r =>
    obtain ⟨key, w, u, hkey, hw, heq⟩ := exists_colon_of_pair hpair
    have hread := quoted_literal_append hb t
    rw [heq, quoted_literal_append hkey] at hread
    obtain ⟨-, hrest⟩ := Prod.mk.inj (Option.some.inj hread)
    refine absurd ?_ ht
    rw [← hrest, beginsWithColon_append hw, beginsWithColon_cons colon_not_blank]

theorem trimLeft_eq_nil_or_cons (t : Text) :
    trimLeft t = [] ∨ ∃ c r, trimLeft t = c :: r ∧ c.isBlank = false := by
  induction t with
  | nil => exact Or.inl rfl
  | cons c t ih =>
    cases hblank : c.isBlank with
    | true =>
      have hw : AllBlank [c] := List.forall_mem_singleton.2 hblank
      have htrim : trimLeft (c :: t) = trimLeft t := trimLeft_append hw t
      rw [htrim]
      exact ih
    | false => exact Or.inr ⟨c, t, trimLeft_cons hblank t, hblank⟩

/-- A quotation mark behind a text brings no colon to its front. -/
theorem beginsWithColon_quotationMark (b t : Text) :
    BeginsWithColon (b ++ .scalar '"' :: t) ↔ BeginsWithColon b := by
  obtain ⟨w, hw, hb⟩ := exists_eq_append_trimLeft b
  rw [hb, List.append_assoc, beginsWithColon_append hw, beginsWithColon_append hw]
  rcases trimLeft_eq_nil_or_cons b with hnil | ⟨c, r, hcons, hblank⟩
  · rw [hnil, List.nil_append, beginsWithColon_cons quotationMark_not_blank]
    constructor
    · intro h
      exact absurd h (by decide)
    · intro h
      exact absurd h (by decide)
  · rw [hcons, List.cons_append, beginsWithColon_cons hblank, beginsWithColon_cons hblank]

/-- Nothing begins at the closing quotation mark of a literal, when the next literal does not begin
with a colon. -/
theorem noMatchIn_closing {g b u : Text} (hg : IsGap g) (hb : ¬ BeginsWithColon b) :
    NoMatchIn pair [.scalar '"'] (g ++ (literal b ++ u)) := by
  refine noMatchIn_cons ?_ noMatchIn_nil
  have htext : .scalar '"' :: (g ++ (literal b ++ u)) = literal g ++ (b ++ .scalar '"' :: u) := by
    simp [literal]
  rw [List.nil_append, htext]
  exact pair_literal_eq_none hg.isBody (mt (beginsWithColon_quotationMark b u).1 hb)

/-- A body has no quotation mark, or a body stands behind its first one. -/
theorem quoteFree_or_exists_quotationMark {b : Text} (h : IsBody b) :
    .scalar '"' ∉ b ∨ ∃ b₁ b₂, b = b₁ ++ .scalar '"' :: b₂ ∧ .scalar '"' ∉ b₁ ∧ IsBody b₂ := by
  induction h with
  | nil => exact Or.inl List.not_mem_nil
  | @plain c b hquote _ _ ih =>
    rcases ih with hfree | ⟨b₁, b₂, rfl, hfree, hb₂⟩
    · exact Or.inl (List.not_mem_cons_of_ne_of_not_mem (Ne.symm hquote) hfree)
    · refine Or.inr ⟨c :: b₁, b₂, rfl, ?_, hb₂⟩
      exact List.not_mem_cons_of_ne_of_not_mem (Ne.symm hquote) hfree
  | @escaped c b _ hb ih =>
    by_cases hquote : c = .scalar '"'
    · exact Or.inr ⟨[.scalar '\\'], b, by rw [hquote]; rfl, by decide, hb⟩
    · have hpair {t : Text} (ht : .scalar '"' ∉ t) : .scalar '"' ∉ .scalar '\\' :: c :: t :=
        List.not_mem_cons_of_ne_of_not_mem (by decide)
          (List.not_mem_cons_of_ne_of_not_mem (Ne.symm hquote) ht)
      rcases ih with hfree | ⟨b₁, b₂, rfl, hfree, hb₂⟩
      · exact Or.inl (hpair hfree)
      · exact Or.inr ⟨.scalar '\\' :: c :: b₁, b₂, rfl, hpair hfree, hb₂⟩

theorem pair_cons_eq_none {c : CodePoint} (hc : c ≠ .scalar '"') (t : Text) :
    pair (c :: t) = none := by
  rw [pair, quoted_eq_none_of_head]
  intro r hr
  exact hc (List.cons.inj hr).1

/-- Nothing begins inside a literal that no colon follows, not even at its escaped quotation
marks. -/
theorem noMatchIn_body {b u : Text} (hb : IsBody b) (hu : ¬ BeginsWithColon u) :
    NoMatchIn pair b (.scalar '"' :: u) := by
  induction hb with
  | nil => exact noMatchIn_nil
  | plain hquote _ _ ih => exact noMatchIn_cons (pair_cons_eq_none hquote _) ih
  | @escaped c b _ hb ih =>
    refine noMatchIn_cons (pair_cons_eq_none (by decide) _) (noMatchIn_cons ?_ ih)
    by_cases hquote : c = .scalar '"'
    · rw [hquote, ← literal_append]
      exact pair_literal_eq_none hb hu
    · exact pair_cons_eq_none hquote _

/-- Nothing begins in a literal without a colon behind it, when the next literal does not begin with
one. -/
theorem noMatchIn_item {a g b u : Text} (ha : IsBody a) (hg : ∀ c ∈ g, IsPlainChar c)
    (hb : ¬ BeginsWithColon b) : NoMatchIn pair (literal a) (g ++ (literal b ++ u)) := by
  have hcolon : ¬ BeginsWithColon (g ++ (literal b ++ u)) := by
    refine (Stretch.of_plain hg).not_beginsWithColon ?_
    rw [literal_append, beginsWithColon_cons quotationMark_not_blank]
    decide
  have hwhole := pair_literal_eq_none ha hcolon
  exact noMatchIn_cons hwhole
    ((noMatchIn_body ha hcolon).append (noMatchIn_closing (isGap_of_plain hg) hb))

/-! ## Reaching a name -/

section

variable {raw rest x s : Text}

/-- From between `x` and `s` the scanner gets to the key with body `raw`, which stands behind both
and begins `rest`. -/
def Reaches (raw rest x s : Text) : Prop :=
  ∃ value, ⟨raw, (x ++ s).length, value⟩ ∈ scanFrom x.length (s ++ rest)

theorem Reaches.gap {g : Text} (hg : NoMatchIn pair g (s ++ rest))
    (h : Reaches raw rest (x ++ g) s) : Reaches raw rest x (g ++ s) := by
  obtain ⟨value, hmem⟩ := h
  refine ⟨value, ?_⟩
  rwa [List.append_assoc, scanFrom_gap hg, ← List.append_assoc, ← List.length_append]

theorem Reaches.pair {key m : Text} {value : Option Text} (hm : IsPair key value m)
    (hv : value = none → LacksValue (s ++ rest)) (h : Reaches raw rest (x ++ m) s) :
    Reaches raw rest x (m ++ s) := by
  obtain ⟨value', hmem⟩ := h
  refine ⟨value', ?_⟩
  rw [List.append_assoc, scanFrom_pair hm hv, ← List.append_assoc, ← List.length_append]
  exact List.mem_cons_of_mem _ hmem

theorem Reaches.value {b w w' v : Text} (hb : IsBody b) (hw : AllBlank w) (hw' : AllBlank w')
    (hv : IsBody v)
    (h : Reaches raw rest (x ++ (literal b ++ w ++ .scalar ':' :: w' ++ literal v)) s) :
    Reaches raw rest x (literal b ++ w ++ .scalar ':' :: w' ++ literal v ++ s) :=
  .pair (.valued hb hw hw' hv) (fun hnone => absurd hnone (Option.some_ne_none _)) h

/-- At its opening quotation mark a key with its colon is reported. -/
theorem reaches_name {w u : Text} (hraw : IsBody raw) (hw : AllBlank w) (x : Text) :
    Reaches raw (literal raw ++ (w ++ .scalar ':' :: u)) x [] := by
  obtain ⟨value, n, hread⟩ : ∃ value n,
      Entry.pair (literal raw ++ (w ++ .scalar ':' :: u)) = some ((raw, value), n) := by
    rw [pair_colon hraw hw]
    split
    · exact ⟨_, _, rfl⟩
    · exact ⟨_, _, rfl⟩
  obtain ⟨m, after, heq, hm, hv⟩ := isPair_of_pair hread
  refine ⟨value, ?_⟩
  rw [List.nil_append, heq, scanFrom_pair hm hv, List.append_nil]
  exact List.mem_cons_self

theorem reaches_behind {g w u : Text} (hraw : IsBody raw) (hw : AllBlank w)
    (hg : NoMatchIn Entry.pair g (literal raw ++ (w ++ .scalar ':' :: u))) (x : Text) :
    Reaches raw (literal raw ++ (w ++ .scalar ':' :: u)) x g := by
  have hreach := Reaches.gap (x := x) (s := []) hg (reaches_name hraw hw _)
  rwa [List.append_nil] at hreach

/-- What begins with another character than a quotation mark or white space is no value. -/
theorem lacksValue_cons {c : CodePoint} (hquote : c ≠ .scalar '"') (hblank : c.isBlank = false)
    (t : Text) : LacksValue (c :: t) := by
  rw [lacksValue_iff, trimLeft_cons hblank]
  refine quoted_eq_none_of_head fun r hr => ?_
  exact hquote (List.cons.inj hr).1

theorem reaches_bare {b w w' t : Text} {c : CodePoint} (hb : IsBody b) (hw : AllBlank w)
    (hw' : AllBlank w') (hc : IsPlainChar c) (hblank : c.isBlank = false)
    (h : Reaches raw rest (x ++ (literal b ++ (w ++ .scalar ':' :: (w' ++ [c])))) t) :
    Reaches raw rest x (literal b ++ (w ++ .scalar ':' :: (w' ++ c :: t))) := by
  have htext : literal b ++ (w ++ .scalar ':' :: (w' ++ c :: t))
      = literal b ++ w ++ .scalar ':' :: w' ++ ([c] ++ t) := by
    simp
  rw [htext]
  refine .pair (.bare hb hw hw') (fun _ => lacksValue_cons hc.1 hblank _) (.gap ?_ ?_)
  · exact noMatchIn_of_quoteFree (mt List.mem_singleton.1 (Ne.symm hc.1)) _
  · simpa using h

theorem reaches_valued {b w w' v t : Text} (hb : IsBody b) (hw : AllBlank w) (hw' : AllBlank w')
    (hv : IsBody v)
    (h : Reaches raw rest (x ++ (literal b ++ (w ++ .scalar ':' :: (w' ++ literal v)))) t) :
    Reaches raw rest x (literal b ++ (w ++ .scalar ':' :: (w' ++ (literal v ++ t)))) := by
  have htext : literal b ++ (w ++ .scalar ':' :: (w' ++ (literal v ++ t)))
      = literal b ++ w ++ .scalar ':' :: w' ++ literal v ++ t := by
    simp
  rw [htext]
  refine .value hb hw hw' hv ?_
  simpa using h

/-! ## Without a detour -/

/-- **A name is reached when no detour leads up to it.** -/
theorem reaches_of_no_detour {w u : Text} (hraw : IsBody raw) (hw : AllBlank w) (hs : Stretch s)
    (hx : Stretch x) (hdetour : ¬ HasDetour (x ++ (s ++ literal raw))) :
    Reaches raw (literal raw ++ (w ++ .scalar ':' :: u)) x s := by
  induction hs generalizing x with
  | nil => exact reaches_name hraw hw x
  | @plain c t hc _ ih =>
    have hgap : NoMatchIn Entry.pair [c] (t ++ (literal raw ++ (w ++ .scalar ':' :: u))) :=
      noMatchIn_of_quoteFree (mt List.mem_singleton.1 (Ne.symm hc.1)) _
    refine Reaches.gap hgap (ih (hx.append (.plain hc .nil)) ?_)
    simpa using hdetour
  | @item b t hb ht ih =>
    have hnext : NoMatchIn Entry.pair (literal b)
        (t ++ (literal raw ++ (w ++ .scalar ':' :: u))) := by
      rcases ht.plain_or_exists_literal with hplain | ⟨g, b', t', rfl, hg, hb', -⟩
      · refine noMatchIn_item hb hplain fun hcolon => hdetour ?_
        exact ⟨x, b, t, raw, [], hx, hb, hplain, hraw, hcolon, by simp⟩
      · have hitem : NoMatchIn Entry.pair (literal b) (g ++ (literal b' ++ (t' ++ (literal raw ++
            (w ++ .scalar ':' :: u))))) := by
          refine noMatchIn_item hb hg fun hcolon => hdetour ?_
          exact ⟨x, b, g, b', t' ++ literal raw, hx, hb, hg, hb', hcolon, by simp⟩
        simpa using hitem
    exact Reaches.gap hnext (ih (hx.append (.of_isBody hb)) (by simpa using hdetour))
  | @bare b w₁ w₂ t c hb hw₁ hw₂ hc hblank ht ih =>
    refine reaches_bare hb hw₁ hw₂ hc hblank (ih (hx.append ?_) (by simpa using hdetour))
    exact .bare hb hw₁ hw₂ hc hblank .nil
  | @valued b w₁ w₂ v t hb hw₁ hw₂ hv ht ih =>
    refine reaches_valued hb hw₁ hw₂ hv (ih (hx.append ?_) (by simpa using hdetour))
    have hstretch := Stretch.valued hb hw₁ hw₂ hv .nil
    rwa [List.append_nil] at hstretch

/-! ## On a detour -/

/-- A name is reached from every literal with less than `n` characters in it and behind it. -/
def ReachesFromLiterals (raw rest : Text) (n : Nat) : Prop :=
  ∀ {x b t : Text}, IsBody b → Behind t → b.length + t.length < n →
    ¬ FollowsColon (x ++ (literal b ++ t)) → Reaches raw rest x (literal b ++ t)

/-- A name is reached from inside every literal with less than `n` characters left in it and
behind it. -/
def ReachesFromInside (raw rest : Text) (n : Nat) : Prop :=
  ∀ {x b t : Text}, IsBody b → Behind t → b.length + t.length < n →
    ¬ FollowsColon (x ++ (b ++ .scalar '"' :: t)) → Reaches raw rest x (b ++ .scalar '"' :: t)

theorem getLast?_gap_ne {g : Text} (hg : IsGap g) (x : Text) :
    (x ++ .scalar '"' :: g).getLast? ≠ some (.scalar '\\') := by
  rw [List.getLast?_append, List.getLast?_cons, Option.some_or, ← List.getLast?_cons]
  intro h
  rcases List.mem_cons.1 (List.mem_of_getLast? h) with heq | hmem
  · exact absurd heq (by decide)
  · exact (hg _ hmem).2 rfl

/-- What is behind the colon of a body that begins with one: nothing, or a character that begins no
value. -/
theorem exists_behind_colon {b : Text} (hb : IsBody b) (h : BeginsWithColon b) :
    ∃ w w' r, b = w ++ .scalar ':' :: (w' ++ r) ∧ AllBlank w ∧ AllBlank w' ∧ IsBody r ∧
      (r = [] ∨ ∃ c r', r = c :: r' ∧ c ≠ .scalar '"' ∧ c.isBlank = false) := by
  obtain ⟨w, s, hw, rfl⟩ := exists_colon_of_beginsWithColon h
  obtain ⟨w', hw', hs⟩ := exists_eq_append_trimLeft s
  have hr : IsBody (trimLeft s) := by
    refine (isGap_colon hw hw').isBody_of_append ?_
    rwa [List.append_assoc, List.cons_append, ← hs]
  refine ⟨w, w', trimLeft s, by rw [← hs], hw, hw', hr, ?_⟩
  rcases trimLeft_eq_nil_or_cons s with hnil | ⟨c, r', hcons, hblank⟩
  · exact Or.inl hnil
  · refine Or.inr ⟨c, r', hcons, ?_, hblank⟩
    rw [hcons] at hr
    cases hr with
    | plain hquote _ _ => exact hquote
    | escaped => decide

section

variable {w u : Text} {n : Nat} (hraw : IsBody raw) (hw : AllBlank w)
include hraw hw

/-- From a stretch the scanner gets to its first literal, or to the name. -/
theorem reaches_from_stretch {t : Text} (ht : Stretch t) (hn : t.length ≤ n)
    (hliterals : ReachesFromLiterals raw (literal raw ++ (w ++ .scalar ':' :: u)) n)
    (hfollows : ¬ FollowsColon (x ++ t)) :
    Reaches raw (literal raw ++ (w ++ .scalar ':' :: u)) x t := by
  rcases ht.plain_or_exists_literal with hplain | ⟨g, b, t', rfl, hg, hb, ht'⟩
  · have hgap := noMatchIn_of_quoteFree (quoteFree_of_isGap (isGap_of_plain hplain))
      (literal raw ++ (w ++ .scalar ':' :: u))
    exact reaches_behind hraw hw hgap x
  · refine .gap (noMatchIn_of_quoteFree (quoteFree_of_isGap (isGap_of_plain hg)) _) ?_
    refine hliterals hb ht' ?_ (by simpa using hfollows)
    simp only [List.length_append, length_literal] at hn
    omega

/-- **From the closing quotation mark of a literal** the scanner goes on at the next literal, or,
when that one begins with a colon, inside it or inside the one behind it. -/
theorem reaches_from_closing {t : Text} (ht : Behind t) (hn : t.length ≤ n)
    (hcolon : ¬ BeginsWithColon raw)
    (hliterals : ReachesFromLiterals raw (literal raw ++ (w ++ .scalar ':' :: u)) n)
    (hinside : ReachesFromInside raw (literal raw ++ (w ++ .scalar ':' :: u)) n)
    (hfollows : ¬ FollowsColon (x ++ .scalar '"' :: t)) :
    Reaches raw (literal raw ++ (w ++ .scalar ':' :: u)) x (.scalar '"' :: t) := by
  rcases ht.gap_or_exists_literal with hgap | ⟨g, b, t', rfl, hg, hb, ht'⟩
  · have hclosing := noMatchIn_closing (u := w ++ .scalar ':' :: u) hgap hcolon
    have hwhole := hclosing.append (noMatchIn_of_quoteFree (quoteFree_of_isGap hgap) _)
    exact reaches_behind hraw hw hwhole x
  · by_cases hb' : BeginsWithColon b
    · obtain ⟨w₁, w₂, r, rfl, hw₁, hw₂, hr, rfl | ⟨c, r, rfl, hquote, hblank⟩⟩ :=
        exists_behind_colon hb hb'
      · -- the next literal is nothing but a colon, and the text behind it is taken for a value
        rcases ht'.gap_or_exists_literal with hgap | ⟨g', b', t'', rfl, hg', hb'', ht''⟩
        · refine absurd ?_ hfollows
          refine ⟨x ++ .scalar '"' :: g, w₁, w₂, t', getLast?_gap_ne hg x, hw₁, hw₂,
            quoteFree_of_isGap hgap, ?_⟩
          simp
        · have htext : .scalar '"' :: (g ++ (literal (w₁ ++ .scalar ':' :: (w₂ ++ [])) ++
              (g' ++ (literal b' ++ t''))))
              = literal g ++ w₁ ++ .scalar ':' :: w₂ ++ literal g'
                ++ (b' ++ .scalar '"' :: t'') := by
            simp [literal]
          rw [htext]
          refine .value hg.isBody hw₁ hw₂ hg'.isBody (hinside hb'' ht'' ?_ ?_)
          · simp only [List.length_append, List.length_cons, length_literal] at hn
            omega
          · rw [htext] at hfollows
            simpa using hfollows
      · -- what is behind the colon of the next literal is no value, and nothing begins before it
        have htext : .scalar '"' :: (g ++ (literal (w₁ ++ .scalar ':' :: (w₂ ++ c :: r)) ++ t'))
            = literal g ++ w₁ ++ .scalar ':' :: w₂ ++ (c :: r ++ .scalar '"' :: t') := by
          simp [literal]
        rw [htext]
        refine .pair (.bare hg.isBody hw₁ hw₂) (fun _ => lacksValue_cons hquote hblank _)
          (hinside hr ht' ?_ ?_)
        · simp only [List.length_append, List.length_cons, length_literal] at hn ⊢
          omega
        · rw [htext] at hfollows
          simpa using hfollows
    · have hwhole := (noMatchIn_closing (u := t' ++ (literal raw ++ (w ++ .scalar ':' :: u))) hg
        hb').append (noMatchIn_of_quoteFree (quoteFree_of_isGap hg) _)
      have htext : .scalar '"' :: (g ++ (literal b ++ t'))
          = .scalar '"' :: g ++ (literal b ++ t') :=
        rfl
      rw [htext] at hfollows ⊢
      refine .gap (by simpa using hwhole) (hliterals hb ht' ?_ (by simpa using hfollows))
      simp only [List.length_append, length_literal] at hn
      omega

/-- **From inside a literal** the scanner goes on at its next quotation mark, an escaped one or the
closing one. -/
theorem reaches_from_inside {b t : Text} (hb : IsBody b) (ht : Behind t)
    (hn : b.length + t.length ≤ n)
    (hcolon : ¬ BeginsWithColon raw)
    (hliterals : ReachesFromLiterals raw (literal raw ++ (w ++ .scalar ':' :: u)) n)
    (hinside : ReachesFromInside raw (literal raw ++ (w ++ .scalar ':' :: u)) n)
    (hfollows : ¬ FollowsColon (x ++ (b ++ .scalar '"' :: t))) :
    Reaches raw (literal raw ++ (w ++ .scalar ':' :: u)) x (b ++ .scalar '"' :: t) := by
  rcases quoteFree_or_exists_quotationMark hb with hfree | ⟨b₁, b₂, rfl, hfree, hb₂⟩
  · refine .gap (noMatchIn_of_quoteFree hfree _) ?_
    exact reaches_from_closing hraw hw ht (by omega) hcolon hliterals hinside
      (by simpa using hfollows)
  · have htext : b₁ ++ .scalar '"' :: b₂ ++ .scalar '"' :: t = b₁ ++ (literal b₂ ++ t) := by
      simp [literal]
    rw [htext] at hfollows ⊢
    refine .gap (noMatchIn_of_quoteFree hfree _) (hliterals hb₂ ht ?_ (by simpa using hfollows))
    simp only [List.length_append, List.length_cons] at hn
    omega

/-- **From the opening quotation mark of a literal** the scanner goes on behind the pair that begins
there, or inside the literal. -/
theorem reaches_from_literal {b t : Text} (hb : IsBody b) (ht : Behind t)
    (hn : b.length + t.length ≤ n)
    (hliterals : ReachesFromLiterals raw (literal raw ++ (w ++ .scalar ':' :: u)) n)
    (hinside : ReachesFromInside raw (literal raw ++ (w ++ .scalar ':' :: u)) (n + 1))
    (hfollows : ¬ FollowsColon (x ++ (literal b ++ t))) :
    Reaches raw (literal raw ++ (w ++ .scalar ':' :: u)) x (literal b ++ t) := by
  cases ht with
  | item ht =>
    have hopening : NoMatchIn Entry.pair [.scalar '"']
        (b ++ .scalar '"' :: t ++ (literal raw ++ (w ++ .scalar ':' :: u))) := by
      have hcolon : ¬ BeginsWithColon (t ++ (literal raw ++ (w ++ .scalar ':' :: u))) := by
        refine ht.not_beginsWithColon ?_
        rw [literal_append, beginsWithColon_cons quotationMark_not_blank]
        decide
      have hpair := pair_literal_eq_none hb hcolon
      rw [literal_append] at hpair
      exact noMatchIn_cons (by simpa using hpair) noMatchIn_nil
    have htext : literal b ++ t = [.scalar '"'] ++ (b ++ .scalar '"' :: t) := literal_append b t
    rw [htext] at hfollows ⊢
    exact .gap hopening (hinside hb (.item ht) (Nat.lt_succ_of_le hn) (by simpa using hfollows))
  | bare hw₁ hw₂ hc hblank ht =>
    refine reaches_bare hb hw₁ hw₂ hc hblank ?_
    refine reaches_from_stretch hraw hw ht ?_ hliterals (by simpa using hfollows)
    simp only [List.length_append, List.length_cons] at hn
    omega
  | valued hw₁ hw₂ hv ht =>
    refine reaches_valued hb hw₁ hw₂ hv ?_
    refine reaches_from_stretch hraw hw ht ?_ hliterals (by simpa using hfollows)
    simp only [List.length_append, List.length_cons] at hn
    omega

theorem reaches_from_all (hcolon : ¬ BeginsWithColon raw) (n : Nat) :
    ReachesFromLiterals raw (literal raw ++ (w ++ .scalar ':' :: u)) n ∧
      ReachesFromInside raw (literal raw ++ (w ++ .scalar ':' :: u)) n := by
  induction n with
  | zero =>
    exact ⟨fun _ _ h => absurd h (Nat.not_lt_zero _), fun _ _ h => absurd h (Nat.not_lt_zero _)⟩
  | succ n ih =>
    obtain ⟨hliterals, hinside⟩ := ih
    -- the inside comes first: a literal that begins no pair is entered with as much left as before
    have hinside' : ReachesFromInside raw (literal raw ++ (w ++ .scalar ':' :: u)) (n + 1) :=
      fun hb ht hn =>
        reaches_from_inside hraw hw hb ht (Nat.le_of_lt_succ hn) hcolon hliterals hinside
    refine ⟨fun hb ht hn => ?_, hinside'⟩
    exact reaches_from_literal hraw hw hb ht (Nat.le_of_lt_succ hn) hliterals hinside'

/-- **A name is reached on any detour,** unless its own literal begins with a colon or the literal
before it is nothing but a colon. -/
theorem reaches_of_not_followsColon {t : Text} (ht : Stretch t) (hcolon : ¬ BeginsWithColon raw)
    (hfollows : ¬ FollowsColon (x ++ t)) :
    Reaches raw (literal raw ++ (w ++ .scalar ':' :: u)) x t :=
  reaches_from_stretch hraw hw ht (Nat.le_refl _) (reaches_from_all hraw hw hcolon _).1 hfollows

end

end

end LangFile.Entry

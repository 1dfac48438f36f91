import LangFile.Entry.Scan
import LangFile.Proofs.Text.Leftmost
import LangFile.Proofs.Text.Literal

/-!
# A scan is the leftmost decomposition by the grammar of pairs

The grammar of a pair is a literal, white space, a colon, white space, and a literal or nothing.
`Decomposition` says what it is to cut a text into gaps and pairs from the left, in terms of the
grammar alone, and `scan` is the one list of entries that a text decomposes into.

1. One pair: `pair` reads what the grammar derives at the start of a text (`pair_append`), and
   fails where the grammar derives nothing (`beginsPair_iff`).
2. The whole text: a step of the search for each gap and each pair (`scanFrom_gap`,
   `scanFrom_pair`), and induction on the length of what is left.
-/

namespace LangFile.Entry

open Text

/-! ## The grammar -/

/-- The texts of a pair with the bodies of its key and its value. -/
inductive IsPair : Text → Option Text → Text → Prop
  | valued {key w₁ w₂ value : Text} :
      IsBody key → AllBlank w₁ → AllBlank w₂ → IsBody value →
      IsPair key (some value) (literal key ++ w₁ ++ .scalar ':' :: w₂ ++ literal value)
  | bare {key w₁ w₂ : Text} :
      IsBody key → AllBlank w₁ → AllBlank w₂ →
      IsPair key none (literal key ++ w₁ ++ .scalar ':' :: w₂)

theorem IsPair.literal_prefix {key m : Text} {value : Option Text} (h : IsPair key value m) :
    literal key <+: m := by
  cases h with
  | @valued w₁ w₂ value _ _ _ _ => exact ⟨w₁ ++ .scalar ':' :: (w₂ ++ literal value), by simp⟩
  | @bare w₁ w₂ _ _ _ => exact ⟨w₁ ++ .scalar ':' :: w₂, by simp⟩

theorem IsPair.length_pos {key m : Text} {value : Option Text} (h : IsPair key value m) :
    0 < m.length := by
  have := h.literal_prefix.length_le
  rw [length_literal] at this
  omega

/-- The text begins with a pair. -/
def BeginsPair (t : Text) : Prop := ∃ key value m, IsPair key value m ∧ m <+: t

/-- No literal begins the text, nor follows the white space that begins it. -/
def LacksValue (t : Text) : Prop := ∀ w v, AllBlank w → IsBody v → ¬ w ++ literal v <+: t

/--
The entries of a text that stands at offset `pos`, cut from the left into gaps and pairs: no pair
begins in a gap or behind the last pair, and a pair is without a value only where no literal
follows its colon and the white space behind that.
-/
inductive Decomposition : Nat → Text → List Entry → Prop
  | gap {pos : Nat} {t : Text} :
      (∀ u, u <:+ t → ¬ BeginsPair u) → Decomposition pos t []
  | pair {pos : Nat} {gap m rest key : Text} {value : Option Text} {es : List Entry} :
      (∀ g, g <:+ gap → g ≠ [] → ¬ BeginsPair (g ++ (m ++ rest))) →
      IsPair key value m → (value = none → LacksValue rest) →
      Decomposition (pos + gap.length + m.length) rest es →
      Decomposition pos (gap ++ (m ++ rest)) (⟨key, pos + gap.length, value⟩ :: es)

/-! ## One pair -/

theorem lacksValue_iff {t : Text} : LacksValue t ↔ quoted (trimLeft t) = none := by
  constructor
  · intro h
    cases hq : quoted (trimLeft t) with
    | none => rfl
    | some r =>
      obtain ⟨hv, ht⟩ := quoted_eq_some_iff.1 hq
      obtain ⟨w, hw, hwt⟩ := exists_eq_append_trimLeft t
      refine absurd ⟨r.2, ?_⟩ (h w r.1 hw hv)
      rw [List.append_assoc, ← ht, ← hwt]
  · rintro h w v hw hv ⟨r, rfl⟩
    rw [List.append_assoc, trimLeft_append hw, trimLeft_literal_append,
      quoted_literal_append hv] at h
    simp at h

/-- White space before a text neither brings a value nor takes one away. -/
theorem lacksValue_append {w t : Text} (hw : AllBlank w) : LacksValue (w ++ t) ↔ LacksValue t := by
  rw [lacksValue_iff, lacksValue_iff, trimLeft_append hw]

/-- A key and a colon are read as a pair, whatever follows. -/
theorem pair_colon {key w : Text} (hk : IsBody key) (hw : AllBlank w) (u : Text) :
    pair (literal key ++ (w ++ .scalar ':' :: u)) =
      match quoted (trimLeft u) with
      | some (value, rest) =>
        some ((key, some value), (literal key ++ (w ++ .scalar ':' :: u)).length - rest.length)
      | none =>
        some ((key, none),
          (literal key ++ (w ++ .scalar ':' :: u)).length - (trimLeft u).length) := by
  rw [pair, quoted_literal_append hk]
  dsimp only
  rw [trimLeft_append hw, trimLeft_cons colon_not_blank]
  rfl

/-- A pair is read where its key and its colon stand. -/
theorem exists_colon_of_pair {t : Text} {r : (Text × Option Text) × Nat} (h : pair t = some r) :
    ∃ key w u, IsBody key ∧ AllBlank w ∧ t = literal key ++ (w ++ .scalar ':' :: u) := by
  unfold pair at h
  split at h
  · simp at h
  · next key afterKey hq =>
    obtain ⟨hk, rfl⟩ := quoted_eq_some_iff.1 hq
    split at h
    · next u ht =>
      obtain ⟨w, hw, hwt⟩ := exists_eq_append_trimLeft afterKey
      refine ⟨key, w, u, hk, hw, ?_⟩
      rw [← ht, ← hwt]
    · simp at h

/-- **What the grammar derives at the start of a text is read**, and with it the white space that
follows a pair without a value. -/
theorem pair_append {key m rest : Text} {value : Option Text} (h : IsPair key value m)
    (hv : value = none → LacksValue rest) :
    ∃ w rest', AllBlank w ∧ rest = w ++ rest' ∧
      pair (m ++ rest) = some ((key, value), m.length + w.length) := by
  cases h with
  | @valued w₁ w₂ value hk h₁ h₂ hval =>
    refine ⟨[], rest, by simp [AllBlank], rfl, ?_⟩
    have hm : literal key ++ w₁ ++ .scalar ':' :: w₂ ++ literal value ++ rest
        = literal key ++ (w₁ ++ .scalar ':' :: (w₂ ++ (literal value ++ rest))) := by simp
    rw [hm, pair_colon hk h₁, trimLeft_append h₂, trimLeft_literal_append,
      quoted_literal_append hval]
    simp only [List.length_append, List.length_cons, List.length_nil]
    congr 2
    omega
  | @bare w₁ w₂ hk h₁ h₂ =>
    obtain ⟨w, hw, hwr⟩ := exists_eq_append_trimLeft rest
    refine ⟨w, trimLeft rest, hw, hwr, ?_⟩
    have hm : literal key ++ w₁ ++ .scalar ':' :: w₂ ++ rest
        = literal key ++ (w₁ ++ .scalar ':' :: (w₂ ++ rest)) := by simp
    have hlen : rest.length = w.length + (trimLeft rest).length := by
      rw [← List.length_append, ← hwr]
    rw [hm, pair_colon hk h₁, trimLeft_append h₂, lacksValue_iff.1 (hv rfl)]
    simp only [List.length_append, List.length_cons]
    congr 2
    omega

/-- **What is read at the start of a text is derived there by the grammar.** -/
theorem isPair_of_pair {t key : Text} {value : Option Text} {n : Nat}
    (h : pair t = some ((key, value), n)) :
    ∃ m rest, t = m ++ rest ∧ IsPair key value m ∧ (value = none → LacksValue rest) := by
  obtain ⟨key', w, u, hk, hw, rfl⟩ := exists_colon_of_pair h
  obtain ⟨w₂, hw₂, hu⟩ := exists_eq_append_trimLeft u
  rw [pair_colon hk hw] at h
  split at h
  · next v rest hq =>
    obtain ⟨hv, ht⟩ := quoted_eq_some_iff.1 hq
    obtain ⟨⟨rfl, rfl⟩, -⟩ : (key' = key ∧ some v = value) ∧ _ = n := by simpa using h
    refine ⟨_, rest, ?_, .valued hk hw hw₂ hv, by simp⟩
    rw [hu, ht]
    simp
  · next hq =>
    obtain ⟨⟨rfl, rfl⟩, -⟩ : (key' = key ∧ none = value) ∧ _ = n := by simpa using h
    refine ⟨_, trimLeft u, ?_, .bare hk hw hw₂, fun _ => ?_⟩
    · rw [List.append_assoc, List.append_assoc, List.cons_append, ← hu]
    · rw [← lacksValue_append hw₂, ← hu]
      exact lacksValue_iff.2 hq

theorem beginsPair_iff {t : Text} : BeginsPair t ↔ pair t ≠ none := by
  constructor
  · rintro ⟨key, value, m, hm, rest, rfl⟩
    -- a value that the derivation leaves out may still be read, so only key and colon are used
    have key_colon : ∃ w u, IsBody key ∧ AllBlank w ∧
        m ++ rest = literal key ++ (w ++ .scalar ':' :: u) := by
      cases hm with
      | @valued w₁ w₂ value hk h₁ _ _ => exact ⟨w₁, w₂ ++ (literal value ++ rest), hk, h₁, by simp⟩
      | @bare w₁ w₂ hk h₁ _ => exact ⟨w₁, w₂ ++ rest, hk, h₁, by simp⟩
    obtain ⟨w, u, hk, hw, heq⟩ := key_colon
    rw [heq, pair_colon hk hw]
    split <;> simp
  · intro h
    obtain ⟨⟨⟨key, value⟩, n⟩, hr⟩ := Option.ne_none_iff_exists'.1 h
    obtain ⟨m, rest, rfl, hm, -⟩ := isPair_of_pair hr
    exact ⟨key, value, m, hm, List.prefix_append m rest⟩

theorem pair_eq_none_iff {t : Text} : pair t = none ↔ ¬ BeginsPair t := by
  rw [beginsPair_iff, Decidable.not_not]
/-! ## The whole text -/

/-- The entries of a text that stands at offset `pos`. -/
def scanFrom (pos : Nat) (t : Text) : List Entry :=
  (matchesFrom pair pos 0 t).map fun m => ⟨m.2.1, m.1, m.2.2⟩

theorem scan_eq_scanFrom (t : Text) : scan t = scanFrom 0 t := rfl

/-- No pair begins where there is no quotation mark. -/
theorem noMatchIn_of_quoteFree {gap : Text} (h : .scalar '"' ∉ gap) (u : Text) :
    NoMatchIn pair gap u := by
  rintro g hg hne
  obtain ⟨c, g', rfl⟩ := List.exists_cons_of_ne_nil hne
  have hc : c ≠ .scalar '"' := by
    rintro rfl
    exact h (hg.subset List.mem_cons_self)
  rw [pair, quoted_eq_none_of_head]
  intro r hr
  exact hc (List.cons.inj hr).1

theorem quoteFree_of_allBlank {w : Text} (h : AllBlank w) : .scalar '"' ∉ w := by
  intro hm
  exact absurd (h _ hm) (by simp [quotationMark_not_blank])

theorem noMatchIn_iff {gap u : Text} :
    NoMatchIn pair gap u ↔ ∀ g, g <:+ gap → g ≠ [] → ¬ BeginsPair (g ++ u) := by
  simp only [NoMatchIn, pair_eq_none_iff]

/-- Nothing is reported in a gap. -/
theorem scanFrom_gap {gap u : Text} (h : NoMatchIn pair gap u) (pos : Nat) :
    scanFrom pos (gap ++ u) = scanFrom (pos + gap.length) u := by
  rw [scanFrom, matchesFrom_gap h, scanFrom]

/-- **A pair is reported once, with its value, and scanning goes on behind it.** -/
theorem scanFrom_pair {key m rest : Text} {value : Option Text} (h : IsPair key value m)
    (hv : value = none → LacksValue rest) (pos : Nat) :
    scanFrom pos (m ++ rest) = ⟨key, pos, value⟩ :: scanFrom (pos + m.length) rest := by
  obtain ⟨w, rest', hw, rfl, hp⟩ := pair_append h hv
  have hm : 0 < m.length := h.length_pos
  have hne : m ++ (w ++ rest') ≠ [] := by
    intro he
    rw [(List.append_eq_nil_iff.1 he).1] at hm
    exact Nat.lt_irrefl _ hm
  rw [scanFrom, matchesFrom_match hp (by omega) hne, List.map_cons]
  rw [← List.drop_drop, List.drop_left, List.drop_left]
  rw [scanFrom_gap (noMatchIn_of_quoteFree (quoteFree_of_allBlank hw) rest'), Nat.add_assoc]
  rfl

/-- A text has no other decomposition than its scan. -/
theorem Decomposition.eq_scanFrom {pos : Nat} {t : Text} {es : List Entry}
    (h : Decomposition pos t es) : es = scanFrom pos t := by
  induction h with
  | gap hnone =>
    rw [scanFrom, matchesFrom_eq_nil, List.map_nil]
    rw [noMatchIn_iff]
    intro g hg _
    rw [List.append_nil]
    exact hnone g hg
  | pair hgap hm hv _ ih =>
    rw [scanFrom_gap (noMatchIn_iff.2 hgap), scanFrom_pair hm hv, ih]

/-- The scan of a text is a decomposition of it. -/
theorem decomposition_scanFrom (pos : Nat) (t : Text) : Decomposition pos t (scanFrom pos t) := by
  -- every pair takes at least one character off the text
  induction hn : t.length using Nat.strongRecOn generalizing pos t with
  | _ n ih =>
    rcases noMatchIn_or_exists_leftmost pair t with h | ⟨gap, u, a, k, rfl, h, hne, ha⟩
    · rw [scanFrom, matchesFrom_eq_nil h]
      refine .gap fun u hu hb => ?_
      rcases List.eq_nil_or_concat u with rfl | ⟨u', c, rfl⟩
      · exact beginsPair_iff.1 hb rfl
      · exact noMatchIn_iff.1 h _ hu (by simp) (by simpa using hb)
    · obtain ⟨key, value⟩ := a
      obtain ⟨m, rest, rfl, hm, hv⟩ := isPair_of_pair ha
      rw [scanFrom_gap h, scanFrom_pair hm hv]
      refine .pair (noMatchIn_iff.1 h) hm hv (ih rest.length ?_ _ rest rfl)
      have hpos : 0 < m.length := hm.length_pos
      simp only [List.length_append] at hn
      omega

/-- **A text decomposes into its scan and into nothing else.** -/
theorem decomposition_iff_eq_scan (t : Text) (es : List Entry) :
    Decomposition 0 t es ↔ es = scan t := by
  constructor
  · intro h
    exact h.eq_scanFrom
  · rintro rfl
    exact decomposition_scanFrom 0 t

/-! ## Where the keys stand -/

/-- The literal of every key stands at the offset of its entry. -/
theorem Decomposition.literal_prefix_drop {pos : Nat} {t : Text} {es : List Entry}
    (h : Decomposition pos t es) {before : Text} (hb : before.length = pos) {e : Entry}
    (he : e ∈ es) : literal e.rawKey <+: (before ++ t).drop e.start := by
  induction h generalizing before with
  | gap => simp at he
  | @pair pos gap m rest key value es _ hm _ _ ih =>
    rcases List.mem_cons.1 he with rfl | he
    · have hdrop : (before ++ (gap ++ (m ++ rest))).drop (pos + gap.length) = m ++ rest := by
        rw [← hb, ← List.length_append, ← List.append_assoc, List.drop_left]
      rw [hdrop]
      exact hm.literal_prefix.trans (List.prefix_append m rest)
    · have hb' : (before ++ gap ++ m).length = pos + gap.length + m.length := by
        simp [hb, Nat.add_assoc]
      simpa using ih hb' he

/-- **The span of an entry holds the literal of its key.** -/
theorem slice_of_mem_scan {t : Text} {e : Entry} (he : e ∈ scan t) :
    t.slice e.start e.stop = literal e.rawKey := by
  have h : literal e.rawKey <+: t.drop e.start :=
    (decomposition_scanFrom 0 t).literal_prefix_drop List.length_nil he
  have hstop : e.stop - e.start = (literal e.rawKey).length := by
    rw [length_literal, stop]
    omega
  rw [slice, List.drop_take, hstop]
  exact (List.prefix_iff_eq_take.1 h).symm

theorem Decomposition.le_start {pos : Nat} {t : Text} {es : List Entry}
    (h : Decomposition pos t es) : ∀ e ∈ es, pos ≤ e.start := by
  induction h with
  | gap => exact List.forall_mem_nil _
  | pair _ _ _ _ ih =>
    refine List.forall_mem_cons.2 ⟨Nat.le_add_right _ _, fun e he => ?_⟩
    have hrest := ih e he
    omega

theorem Decomposition.pairwise {pos : Nat} {t : Text} {es : List Entry}
    (h : Decomposition pos t es) : es.Pairwise fun a b => a.stop ≤ b.start := by
  induction h with
  | gap => exact .nil
  | @pair pos gap m rest key value es _ hm _ hrest ih =>
    refine List.pairwise_cons.2 ⟨fun e he => ?_, ih⟩
    have hkey := hm.literal_prefix.length_le
    rw [length_literal] at hkey
    have hstart := hrest.le_start e he
    rw [stop]
    dsimp only
    omega

/-- **The entries stand one behind another:** the span of each ends before the next begins. -/
theorem pairwise_scan (t : Text) : (scan t).Pairwise fun a b => a.stop ≤ b.start :=
  (decomposition_scanFrom 0 t).pairwise

end LangFile.Entry

import LangFile.Proofs.Comparison.Difference
import LangFile.Proofs.Comparison.Position

/-!
# The spans of findings

Both texts are arbitrary: they may have mistakes, repeated keys and escapes. A finding's span is
computed from the key as it is written, and the finding is made because of the key that is meant.
They belong together, and the order of the entries carries over to the spans.

1. The characters at a span (`Finding.PointsInto.marksKey`).
2. Spans in the candidate increase and are apart (`pairwise_spans_candidate`).
3. Keys of the reference are reported once, each at its first entry (`nodup_keys_reference`,
   `start_le_of_referenceFinding?`).
4. All together (`compare_marks`).
-/

namespace LangFile

open Text

/-- The span of the finding is that of a literal in the text, and the literal stands for the
finding's key. -/
structure Finding.MarksKey (f : Finding) (t : Text) : Prop where
  start_nonneg : 0 ≤ f.span.start
  start_lt_stop : f.span.start < f.span.stop
  stop_le_length : f.span.stop ≤ t.length
  exists_literal : ∃ raw, IsBody raw ∧
    t.slice f.span.start.toNat f.span.stop.toNat = literal raw ∧ unescape raw = f.key

theorem Finding.PointsInto.marksKey {f : Finding} {t : Text} (h : f.PointsInto t) :
    f.MarksKey t := by
  obtain ⟨before, raw, after, ht, hbody, hspan, hkey⟩ := h
  have hlength : t.length = before.length + (raw.length + 2) + after.length := by
    rw [ht, List.length_append, List.length_append, length_literal]
    omega
  refine ⟨?_, ?_, ?_, raw, hbody, ?_, hkey⟩
  · rw [hspan]
    exact Int.natCast_nonneg _
  · rw [hspan]
    exact Int.ofNat_lt.2 (by omega)
  · rw [hspan]
    exact Int.ofNat_le.2 (by omega)
  · have hstop : before.length + raw.length + 2 = before.length + (literal raw).length := by
      rw [length_literal, Nat.add_assoc]
    rw [hspan, Int.toNat_natCast, Int.toNat_natCast, slice, hstop, ht, List.take_length_add_append,
      List.drop_left, List.take_left]

namespace Comparison

variable {path name : Text} {keys : List Text}

/-! ## The candidate -/

theorem path_of_candidateFinding? {e : Entry} {f : Finding}
    (h : candidateFinding? path name keys e = some f) : f.path = path := by
  rw [candidateFinding?_eq] at h
  split at h
  · rw [← Option.some.inj h]
    rfl
  · split at h
    · rw [← Option.some.inj h]
      rfl
    · simp at h

/-- **The spans increase and are apart:** no literal is reported twice, and none inside another. -/
theorem pairwise_spans_candidate (t : Text) :
    ((Entry.scan t).filterMap (candidateFinding? path name keys)).Pairwise
      fun f g => f.span.start < g.span.start ∧ f.span.stop ≤ g.span.start := by
  have hscan : (Entry.scan t).Pairwise fun a b => a.start < b.start ∧ a.stop ≤ b.start := by
    refine (Entry.pairwise_scan t).imp fun {a b} hab => ?_
    have hstop : a.start < a.stop := by
      rw [Entry.stop]
      omega
    exact ⟨Nat.lt_of_lt_of_le hstop hab, hab⟩
  refine hscan.filterMap _ fun a b hab f hf g hg => ?_
  rw [span_of_candidateFinding? hf, span_of_candidateFinding? hg]
  exact ⟨Int.ofNat_lt.2 hab.1, Int.ofNat_le.2 hab.2⟩

/-! ## The reference -/

theorem key_of_referenceFinding? {entries : List Entry} {key : Text} {f : Finding}
    (h : referenceFinding? path name entries key = some f) : f.key = key := by
  obtain ⟨e, -, rfl⟩ := Option.map_eq_some_iff.1 h
  rfl

theorem path_of_referenceFinding? {entries : List Entry} {key : Text} {f : Finding}
    (h : referenceFinding? path name entries key = some f) : f.path = path := by
  obtain ⟨e, -, rfl⟩ := Option.map_eq_some_iff.1 h
  rfl

/-- Keys are reported in their order, some of them not at all. -/
theorem map_key_filterMap_sublist (entries : List Entry) (missing : List Text) :
    ((missing.filterMap (referenceFinding? path name entries)).map (·.key)).Sublist missing := by
  induction missing with
  | nil => exact .slnil
  | cons key missing ih =>
    cases hf : referenceFinding? path name entries key with
    | none =>
      rw [List.filterMap_cons_none hf]
      exact ih.cons key
    | some f =>
      rw [List.filterMap_cons_some hf, List.map_cons, key_of_referenceFinding? hf]
      exact ih.cons_cons key

theorem nodup_keys_reference (hkeys : keys.Nodup) (entries : List Entry) (p : Text → Bool) :
    (((keys.filter p).filterMap (referenceFinding? path name entries)).map (·.key)).Nodup :=
  (map_key_filterMap_sublist entries (keys.filter p)).nodup (hkeys.filter p)

/-- **A key is reported at its first entry.** -/
theorem start_le_of_referenceFinding? {t key : Text} {f : Finding}
    (h : referenceFinding? path name (Entry.scan t) key = some f) {e : Entry}
    (he : e ∈ Entry.scan t) (hkey : e.key = f.key) : f.span.start ≤ e.start := by
  rw [key_of_referenceFinding? h] at hkey
  obtain ⟨first, hfirst, rfl⟩ := Option.map_eq_some_iff.1 h
  obtain ⟨-, before, after, hscan, hbefore⟩ := List.find?_eq_some_iff_append.1 hfirst
  rw [hscan] at he
  have hpairwise := Entry.pairwise_scan t
  rw [hscan] at hpairwise
  rcases List.mem_append.1 he with he | he
  · exact absurd hkey (by simpa using hbefore e he)
  · rcases List.mem_cons.1 he with rfl | he
    · exact Int.le_refl _
    · have hafter : first.stop ≤ e.start :=
        List.rel_of_pairwise_cons (List.pairwise_append.1 hpairwise).2.1 he
      rw [Entry.stop] at hafter
      exact Int.ofNat_le.2 (by omega)

/-! ## Both -/

variable {candidatePath candidateText referencePath referenceText : Text} {f : Finding}

theorem path_of_mem_candidate
    (h : f ∈ (compare candidatePath candidateText referencePath referenceText keys).candidate) :
    f.path = candidatePath := by
  obtain ⟨e, -, he⟩ := List.mem_filterMap.1 h
  exact path_of_candidateFinding? he

theorem path_of_mem_reference
    (h : f ∈ (compare candidatePath candidateText referencePath referenceText keys).reference) :
    f.path = referencePath := by
  obtain ⟨key, -, hkey⟩ := List.mem_filterMap.1 h
  exact path_of_referenceFinding? hkey

/-- Every finding of the comparison marks a key in the text of its file, in order and only once. -/
structure Marks (candidatePath candidateText referencePath referenceText : Text)
    (c : Comparison) : Prop where
  candidate : ∀ f ∈ c.candidate, f.path = candidatePath ∧ f.MarksKey candidateText
  reference : ∀ f ∈ c.reference, f.path = referencePath ∧ f.MarksKey referenceText
  /-- The spans in the candidate increase and do not overlap. -/
  candidate_apart : c.candidate.Pairwise
    fun f g => f.span.start < g.span.start ∧ f.span.stop ≤ g.span.start
  reference_distinct : (c.reference.map (·.key)).Nodup
  /-- No entry with the key stands before the one that is reported. -/
  reference_first : ∀ f ∈ c.reference, ∀ e ∈ Entry.scan referenceText,
    e.key = f.key → f.span.start ≤ e.start

/--
**Findings mark the literals of their keys,** whatever the two texts are: those of the candidate one
behind the other, and those of the reference once for each key, at the first entry that has it. The
keys of the reference are those of a mapping, and so distinct.
-/
theorem compare_marks (candidatePath candidateText referencePath referenceText : Text)
    {keys : List Text} (hkeys : keys.Nodup) :
    Marks candidatePath candidateText referencePath referenceText
      (compare candidatePath candidateText referencePath referenceText keys) where
  candidate _ hf := ⟨path_of_mem_candidate hf, (pointsInto_candidate hf).marksKey⟩
  reference _ hf := ⟨path_of_mem_reference hf, (pointsInto_reference hf).marksKey⟩
  candidate_apart := pairwise_spans_candidate candidateText
  reference_distinct := nodup_keys_reference hkeys _ _
  reference_first f hf e he hkey := by
    obtain ⟨key, -, hfinding⟩ := List.mem_filterMap.1 hf
    exact start_le_of_referenceFinding? hfinding he hkey

/-- A candidate with mistakes that spells a key in two ways. -/
def misspelt : Text := "\"c\": 1 [\"\\u0063\": \"\""

/-- A reference with mistakes that spells a key in two ways. -/
def respelt : Text := "\"b\" \"b\": 1, \"\\u0062\":: "

theorem compare_marks_misspelt :
    let c := compare "ko_kr.json" misspelt "en_us.json" respelt ["a", "b"]
    [Text.ofString "a", Text.ofString "b"].Nodup ∧
      c.candidate.map (·.span) = [⟨0, 3⟩, ⟨8, 16⟩] ∧ c.reference.map (·.span) = [⟨4, 7⟩] ∧
      Marks "ko_kr.json" misspelt "en_us.json" respelt c := by
  have hkeys : [Text.ofString "a", Text.ofString "b"].Nodup := by decide
  refine ⟨hkeys, by decide, by decide, ?_⟩
  exact compare_marks "ko_kr.json" misspelt "en_us.json" respelt hkeys

end Comparison

/-! ## Findings about files -/

namespace Validation

variable {d : Disk} {path text name : Text} {c : Comparison} {f : Finding}

theorem path_of_mem_candidate (h : validate d (.ofText path) text name = some c)
    (hf : f ∈ c.candidate) : f.path = (Path.ofText path).toText := by
  obtain ⟨-, -, r, -, rfl⟩ := validate_eq_some_iff.1 h
  exact Comparison.path_of_mem_candidate hf

theorem path_of_mem_reference (h : validate d (.ofText path) text name = some c)
    (hf : f ∈ c.reference) : f.path = c.referencePath := by
  obtain ⟨-, -, r, -, rfl⟩ := validate_eq_some_iff.1 h
  exact Comparison.path_of_mem_reference hf

end Validation

end LangFile

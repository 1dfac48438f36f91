import LangFile.Proofs.Entry.Decomposition
import LangFile.Proofs.Validation

/-!
# Where findings stand

A finding is reported at the literal of a key. Findings about a candidate stand in the text that was
compared, and findings about its reference in the text that the reference has on the disk.

1. The literals of scanned keys (`exists_literal_of_mem_scan`).
2. Findings of a comparison (`pointsInto_candidate`, `pointsInto_reference`).
3. Findings about files on a disk (`Validation.pointsInto_candidate`,
   `Validation.exists_pointsInto_reference`).
-/

namespace LangFile

open Text

variable {t : Text} {f : Finding}

/-! ## The literals of keys -/

namespace Entry

theorem IsPair.isBody {key m : Text} {value : Option Text} (h : IsPair key value m) :
    IsBody key := by
  cases h with
  | valued hkey => exact hkey
  | bare hkey => exact hkey

theorem Decomposition.isBody {pos : Nat} {es : List Entry} (h : Decomposition pos t es) :
    ∀ e ∈ es, IsBody e.rawKey := by
  induction h with
  | gap => exact List.forall_mem_nil _
  | pair _ hm _ _ ih => exact List.forall_mem_cons.2 ⟨hm.isBody, ih⟩

/-- **The literal of a key stands where its entry says.** -/
theorem exists_literal_of_mem_scan {e : Entry} (he : e ∈ scan t) :
    ∃ before after, t = before ++ (literal e.rawKey ++ after) ∧ before.length = e.start ∧
      IsBody e.rawKey := by
  have hscan := decomposition_scanFrom 0 t
  obtain ⟨after, hafter⟩ := hscan.literal_prefix_drop (show ([] : Text).length = 0 from rfl) he
  rw [List.nil_append] at hafter
  refine ⟨t.take e.start, after, ?_, ?_, hscan.isBody e he⟩
  · rw [hafter, List.take_append_drop]
  · -- a literal is not empty, so the text does not end before it
    have hlength := congrArg List.length hafter
    rw [List.length_append, length_literal, List.length_drop] at hlength
    rw [List.length_take]
    omega

end Entry

/-! ## Findings of a comparison -/

/-- The span of the finding is that of a literal in the text, and the literal stands for the
finding's key. -/
def Finding.PointsInto (f : Finding) (t : Text) : Prop :=
  ∃ before raw after, t = before ++ (literal raw ++ after) ∧ IsBody raw ∧
    f.span = ⟨before.length, (before.length + raw.length + 2 : Nat)⟩ ∧ unescape raw = f.key

theorem Finding.PointsInto.of_mem_scan {e : Entry} (he : e ∈ Entry.scan t)
    (hspan : f.span = ⟨e.start, e.stop⟩) (hkey : f.key = e.key) : f.PointsInto t := by
  obtain ⟨before, after, ht, hstart, hbody⟩ := Entry.exists_literal_of_mem_scan he
  refine ⟨before, e.rawKey, after, ht, hbody, ?_, hkey.symm⟩
  rw [hspan, Entry.stop, hstart]

/-- A quotation mark stands at the start of a finding. -/
theorem Finding.PointsInto.getElem? (h : f.PointsInto t) :
    t[f.span.start.toNat]? = some (.scalar '"') := by
  obtain ⟨before, raw, after, rfl, -, hspan, -⟩ := h
  rw [hspan, Int.toNat_natCast, List.getElem?_append_right (Nat.le_refl _), Nat.sub_self,
    literal_append]
  rfl

namespace Comparison

variable {candidatePath candidateText referencePath referenceText : Text} {keys : List Text}

/-- **Findings about a candidate stand in its text.** -/
theorem pointsInto_candidate
    (h : f ∈ (compare candidatePath candidateText referencePath referenceText keys).candidate) :
    f.PointsInto candidateText := by
  obtain ⟨e, he, hf⟩ := List.mem_filterMap.1 h
  unfold candidateFinding? at hf
  dsimp only at hf
  split at hf
  · obtain rfl := Option.some.inj hf
    exact .of_mem_scan he rfl rfl
  · split at hf
    · obtain rfl := Option.some.inj hf
      exact .of_mem_scan he rfl rfl
    · simp at hf

/-- **Findings about a reference stand in its text.** -/
theorem pointsInto_reference
    (h : f ∈ (compare candidatePath candidateText referencePath referenceText keys).reference) :
    f.PointsInto referenceText := by
  obtain ⟨key, -, hf⟩ := List.mem_filterMap.1 h
  obtain ⟨e, hfirst, rfl⟩ := Option.map_eq_some_iff.1 hf
  have hkey : e.key = key := by simpa using List.find?_some hfirst
  exact .of_mem_scan (List.mem_of_find?_eq_some hfirst) rfl hkey.symm

end Comparison

/-! ## Findings about files -/

theorem Reference.readText_of_load {d : Disk} {p : Path} {r : Reference}
    (h : Reference.load d p = .ok r) : d.readText p = .ok r.text := by
  unfold load at h
  split at h
  · simp at h
  · simp at h
  · next text htext =>
    rw [htext]
    split at h
    · simp at h
    · simp at h
    · split at h
      · rw [← Except.ok.inj h]
      · simp at h

namespace Validation

variable {d : Disk} {path text name : Text} {c : Comparison}

theorem pointsInto_candidate (h : validate d (.ofText path) text name = some c) :
    ∀ f ∈ c.candidate, f.PointsInto text := by
  obtain ⟨-, -, r, -, rfl⟩ := validate_eq_some_iff.1 h
  exact fun _ => Comparison.pointsInto_candidate

/-- Findings about a reference stand in the text of its file. -/
theorem exists_pointsInto_reference (h : validate d (.ofText path) text name = some c) :
    ∃ t, d.readText (.ofText c.referencePath) = .ok t ∧ ∀ f ∈ c.reference, f.PointsInto t := by
  obtain ⟨-, -, r, hload, rfl⟩ := validate_eq_some_iff.1 h
  refine ⟨r.text, ?_, fun _ => Comparison.pointsInto_reference⟩
  have hnormal := Path.isNormal_sibling (Path.isNormal_ofText path) name
  show d.readText (.ofText ((Path.ofText path).sibling name).toText) = .ok r.text
  rw [Path.ofText_toText hnormal]
  exact Reference.readText_of_load hload

end Validation

end LangFile

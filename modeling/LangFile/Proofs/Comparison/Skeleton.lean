import LangFile.Proofs.Comparison.Difference
import LangFile.Proofs.Skeleton
import Mathlib.Data.List.Basic

/-!
# A fresh skeleton has everything to translate

The skeleton of a flat reference has the reference's keys and no other, so a comparison of the two
finds no error, and every key of the skeleton is reported as untranslated.

1. The candidate: each of its members gets a warning (`candidate_eq_map_untranslated`).
2. Both: no key is missing, so there is nothing else to report (`compare_build`).
-/

namespace LangFile.Comparison

open Text Json

/-! ## The candidate -/

/-- The finding about a member of a skeleton. -/
def untranslated (path : Text) (m : Member) : Finding :=
  ⟨path, ⟨m.start, m.entry.stop⟩, .warning, "Translation is empty", m.name⟩

/-- A member whose value is the empty string has an empty literal for its value. -/
theorem value_entry_of_stringText {m : Member} {t : Text} (h : IsMember StringText m t)
    (hv : m.value = .string []) : m.entry.value = some [] := by
  obtain ⟨start, rawName, name, rawValue, value⟩ := m
  obtain rfl : value = .string [] := hv
  obtain @⟨_, _, _, -, -, -, hlit⟩ := h
  obtain @⟨raw, _, hs⟩ := hlit
  exact congrArg some hs.eq_nil

variable {t : Text} {ms : List Member} {keys : List Text}

/-- **Every member of a skeleton is found to be untranslated.** -/
theorem candidate_eq_map_untranslated (hms : ObjectText StringText t ms)
    (hpairs : ms.map Member.pair = keys.map fun key => (key, Json.string []))
    (path referenceName : Text) :
    (Entry.scan t).filterMap (candidateFinding? path referenceName keys)
      = ms.map (untranslated path) := by
  have hscalar := hms.mono StringText.scalarText
  rw [hscalar.scan_eq, List.filterMap_map]
  refine List.filterMap_eq_map_iff_forall_eq_some.2 fun m hm => ?_
  obtain ⟨key, hkey, hpair⟩ := List.mem_map.1 (hpairs ▸ List.mem_map_of_mem hm)
  obtain ⟨hname, hvalue⟩ := Prod.mk.inj hpair
  obtain ⟨u, hmember⟩ := hms.isMember m hm
  have hentry : m.entry.key ∈ keys := by
    rw [hscalar.key_entry hm, ← hname]
    exact hkey
  rw [Function.comp_apply, candidateFinding?_eq, if_neg (not_not_intro hentry),
    if_pos (value_entry_of_stringText hmember hvalue.symm), emptyTranslation, hscalar.key_entry hm]
  rfl

/-! ## Both -/

theorem hasErrors_of_untranslated {c : Comparison} {path : Text}
    (hcandidate : c.candidate = ms.map (untranslated path)) (hreference : c.reference = []) :
    c.hasErrors = false := by
  rw [hasErrors, hreference, List.append_nil, hcandidate, List.any_eq_false]
  intro f hf
  obtain ⟨m, -, rfl⟩ := List.mem_map.1 hf
  simp [untranslated]

/--
**The skeleton of a flat reference has no error against it, and is wholly untranslated.** The
skeleton is built and is an object written as members `ms`, whose names are those of the parsed
reference, each once and in its order. The only findings are a warning for each of them, at the
literal of its name.
-/
theorem compare_build {members : List (Text × Json)} (h : parse t = .ok (.object members))
    (hflat : IsFlat t) (candidatePath referencePath : Text) :
    ∃ s ms, Skeleton.build t = .ok s ∧ ObjectText StringText s ms ∧
      ms.map (·.name) = members.map (·.1) ∧ (members.map (·.1)).Nodup ∧
      (∀ m ∈ ms, s.slice m.start m.entry.stop = quote m.name) ∧
      let c := compare candidatePath s referencePath t (members.map (·.1))
      c.candidate = ms.map (untranslated candidatePath) ∧ c.reference = [] ∧
        c.hasErrors = false := by
  obtain ⟨ms, hms, hpairs, hquoted⟩ := Skeleton.exists_objectText_ofKeys (members.map (·.1))
  have hscalar := hms.mono StringText.scalarText
  have hnames : ms.map (·.name) = members.map (·.1) := by
    have hfirst := congrArg (List.map Prod.fst) hpairs
    rw [List.map_map, Skeleton.map_name_emptyMembers] at hfirst
    exact hfirst
  have hnodup : (members.map (·.1)).Nodup := by
    obtain ⟨ws, -, rfl⟩ := exists_written_of_parse h
    exact nodup_name_collectMembers ws
  have hcandidate := candidate_eq_map_untranslated hms hpairs candidatePath
    (Path.ofText referencePath).name
  have hreference : (compare candidatePath (Skeleton.ofKeys (members.map (·.1))) referencePath t
      (members.map (·.1))).reference = [] := by
    -- every name of the reference is a key of the skeleton
    have hmissing : (members.map (·.1)).filter (fun key =>
        !((Entry.scan (Skeleton.ofKeys (members.map (·.1)))).map (·.key)).contains key) = [] := by
      rw [List.filter_eq_nil_iff, hscalar.map_key_scan, hpairs, List.map_map]
      intro key hkey
      simpa using hkey
    simp only [compare, hmissing, List.filterMap_nil]
  refine ⟨_, ms, Skeleton.build_of_isFlat h hflat, hms, hnames, hnodup, fun m hm => ?_, hcandidate,
    hreference, hasErrors_of_untranslated hcandidate hreference⟩
  rw [← hquoted m hm]
  refine Entry.slice_of_mem_scan (e := m.entry) ?_
  rw [hscalar.scan_eq]
  exact List.mem_map_of_mem hm

theorem compare_build_respelled :
    parse respelled = .ok (.object [("a", .null), ("b", .number "-1.5e3")]) ∧ IsFlat respelled ∧
      ∃ s ms, Skeleton.build respelled = .ok s ∧ ObjectText StringText s ms ∧
        ms.map (·.name) = (["a", "b"] : List Text) ∧
        (compare "de.json" s "en_us.json" respelled ["a", "b"]).candidate
          = ms.map (untranslated "de.json") := by
  have hparse : parse respelled = .ok (.object [("a", .null), ("b", .number "-1.5e3")]) := by rfl
  have hflat : IsFlat respelled := by decide
  obtain ⟨s, ms, hbuild, hms, hnames, -, -, hcandidate, -, -⟩ :=
    compare_build hparse hflat "de.json" "en_us.json"
  exact ⟨hparse, hflat, s, ms, hbuild, hms, hnames, hcandidate⟩

end LangFile.Comparison

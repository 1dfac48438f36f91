import LangFile.Comparison
import LangFile.Proofs.Entry.FlatObject
import Mathlib.Data.List.Find

/-!
# A comparison is a set difference

The candidate is a layout and the reference a flat object. What is found about them is then the
difference of the candidate's keys and the names of the parsed reference, however either spells them
and wherever they stand.

1. The findings about the candidate, one for each entry that deserves one (`filter_error_candidate`,
   `filter_warning_candidate`).
2. The findings about the reference, one for each missing name (`exists_firstMembers`).
3. Both together (`compare_isDifference`).
-/

namespace LangFile.Comparison

open Text Json

/-- The finding about an entry whose key the reference lacks. -/
def unknownKey (path referenceName : Text) (e : Entry) : Finding :=
  ⟨path, ⟨e.start, e.stop⟩, .error, "Key not present in " ++ referenceName, e.key⟩

/-- The finding about an entry whose value is empty. -/
def emptyTranslation (path : Text) (e : Entry) : Finding :=
  ⟨path, ⟨e.start, e.stop⟩, .warning, "Translation is empty", e.key⟩

/-- The finding about a member of the reference whose name the candidate lacks. -/
def missingKey (path candidateName : Text) (m : Member) : Finding :=
  ⟨path, ⟨m.start, m.entry.stop⟩, .error, "Missing translation in " ++ candidateName, m.name⟩

/-- A comparison is the difference of the entries of a candidate and of the keys of a reference,
which is written as members. -/
structure IsDifference (candidatePath referencePath : Text) (entries : List Entry)
    (keys : List Text) (written : List Member) (c : Comparison) : Prop where
  candidatePath_eq : c.candidatePath = candidatePath
  referencePath_eq : c.referencePath = referencePath
  /-- The errors about the candidate are the entries with other keys. -/
  candidate_errors : c.candidate.filter (fun f => f.severity = .error)
    = (entries.filter fun e => e.key ∉ keys).map
        (unknownKey candidatePath (Path.ofText referencePath).name)
  /-- The warnings about the candidate are the entries with empty values. -/
  candidate_warnings : c.candidate.filter (fun f => f.severity = .warning)
    = (entries.filter fun e => e.key ∈ keys ∧ e.value = some []).map
        (emptyTranslation candidatePath)
  /-- The findings about the candidate are in the order of its text. -/
  candidate_ordered : c.candidate.Pairwise fun f g => f.span.stop ≤ g.span.start
  /-- The findings about the reference are its keys that no entry has, in their order, each at the
  first member with that name. -/
  reference_errors : ∃ firsts : List Member,
    firsts.map (·.name) = keys.filter (fun k => k ∉ entries.map Entry.key) ∧
      (∀ m ∈ firsts, written.find? (fun m' => m'.name = m.name) = some m) ∧
      c.reference = firsts.map (missingKey referencePath (Path.ofText candidatePath).name)

/-! ## The candidate -/

variable {path name : Text} {keys : List Text}

theorem candidateFinding?_eq (e : Entry) :
    candidateFinding? path name keys e =
      if e.key ∉ keys then some (unknownKey path name e)
      else if e.value = some [] then some (emptyTranslation path e) else none := by
  simp [candidateFinding?, unknownKey, emptyTranslation]

/-- What passes a test after a partial map is what passes another test before a map. -/
theorem filter_filterMap_eq_map_filter {α β : Type} {f : α → Option β} {p : β → Bool}
    {q : α → Bool} {g : α → β} (h : ∀ a, (f a).filter p = if q a then some (g a) else none)
    (l : List α) : (l.filterMap f).filter p = (l.filter q).map g := by
  rw [List.filter_filterMap, ← List.filterMap_eq_map, List.filterMap_filter]
  exact congrArg (l.filterMap ·) (funext h)

theorem filter_error_candidate (entries : List Entry) :
    (entries.filterMap (candidateFinding? path name keys)).filter (fun f => f.severity = .error)
      = (entries.filter fun e => e.key ∉ keys).map (unknownKey path name) := by
  refine filter_filterMap_eq_map_filter (fun e => ?_) entries
  rw [candidateFinding?_eq]
  by_cases hkey : e.key ∈ keys
  · by_cases hv : e.value = some [] <;> simp [hkey, hv, emptyTranslation]
  · simp [hkey, unknownKey]

theorem filter_warning_candidate (entries : List Entry) :
    (entries.filterMap (candidateFinding? path name keys)).filter (fun f => f.severity = .warning)
      = (entries.filter fun e => e.key ∈ keys ∧ e.value = some []).map (emptyTranslation path) := by
  refine filter_filterMap_eq_map_filter (fun e => ?_) entries
  rw [candidateFinding?_eq]
  by_cases hkey : e.key ∈ keys
  · by_cases hv : e.value = some [] <;> simp [hkey, hv, emptyTranslation]
  · simp [hkey, unknownKey]

/-- A finding about an entry has the entry's span. -/
theorem span_of_candidateFinding? {e : Entry} {f : Finding}
    (h : candidateFinding? path name keys e = some f) : f.span = ⟨e.start, e.stop⟩ := by
  rw [candidateFinding?_eq] at h
  split at h
  · rw [← Option.some.inj h]
    rfl
  · split at h
    · rw [← Option.some.inj h]
      rfl
    · simp at h

theorem pairwise_candidate {entries : List Entry}
    (h : entries.Pairwise fun a b => a.stop ≤ b.start) :
    (entries.filterMap (candidateFinding? path name keys)).Pairwise
      fun f g => f.span.stop ≤ g.span.start := by
  refine h.filterMap _ fun a b hab f hf g hg => ?_
  rw [span_of_candidateFinding? hf, span_of_candidateFinding? hg]
  exact Int.ofNat_le.2 hab

/-! ## The reference -/

/-- The first of the reference's entries with a key is the first member with that name. -/
theorem firstWithKey_scan {t : Text} {written : List Member} (h : ObjectText ScalarText t written)
    (key : Text) :
    firstWithKey key (Entry.scan t) = (written.find? fun m => m.name = key).map Member.entry := by
  rw [firstWithKey, h.scan_eq, List.find?_map]
  congr 1
  refine List.find?_congr fun m hm => ?_
  rw [Function.comp_apply, h.key_entry hm]

theorem referenceFinding?_scan {t : Text} {written : List Member}
    (h : ObjectText ScalarText t written) (key : Text) :
    referenceFinding? path name (Entry.scan t) key
      = (written.find? fun m => m.name = key).map (missingKey path name) := by
  rw [referenceFinding?, firstWithKey_scan h, Option.map_map]
  cases hfind : written.find? fun m => m.name = key with
  | none => rfl
  | some m =>
    have hname : m.name = key := by simpa using List.find?_some hfind
    rw [Option.map_some, Option.map_some, missingKey, hname]
    rfl

/-- The first members with the given names, when every name occurs. -/
theorem map_name_filterMap_find? {written : List Member} {names : List Text}
    (h : ∀ k ∈ names, k ∈ written.map (·.name)) :
    (names.filterMap fun k => written.find? fun m => m.name = k).map (·.name) = names := by
  induction names with
  | nil => rfl
  | cons k names ih =>
    obtain ⟨hk, hnames⟩ := List.forall_mem_cons.1 h
    obtain ⟨m, hm, rfl⟩ := List.mem_map.1 hk
    obtain ⟨m', hfind⟩ : ∃ m', written.find? (fun m' => m'.name = m.name) = some m' :=
      Option.isSome_iff_exists.1 (List.find?_isSome.2 ⟨m, hm, by simp⟩)
    have hname : m'.name = m.name := by simpa using List.find?_some hfind
    simp only [List.filterMap_cons, hfind, List.map_cons, ih hnames, hname]

/-- **The findings about the reference are its missing names,** each at the first member with it. -/
theorem exists_firstMembers (path name : Text) {t : Text} {written : List Member}
    (h : ObjectText ScalarText t written) {missing : List Text}
    (hmissing : ∀ k ∈ missing, k ∈ written.map (·.name)) :
    ∃ firsts : List Member, firsts.map (·.name) = missing ∧
      (∀ m ∈ firsts, written.find? (fun m' => m'.name = m.name) = some m) ∧
      missing.filterMap (referenceFinding? path name (Entry.scan t))
        = firsts.map (missingKey path name) := by
  refine ⟨missing.filterMap fun k => written.find? fun m => m.name = k,
    map_name_filterMap_find? hmissing, fun m hm => ?_, ?_⟩
  · obtain ⟨k, -, hfind⟩ := List.mem_filterMap.1 hm
    have hname : m.name = k := by simpa using List.find?_some hfind
    rw [hname, hfind]
  · rw [List.map_filterMap]
    exact congrArg (missing.filterMap ·) (funext (referenceFinding?_scan h))

/-! ## Both -/

/-- **A comparison without errors says that the keys agree.** -/
theorem IsDifference.hasErrors_eq_false_iff {candidatePath referencePath : Text}
    {entries : List Entry} {written : List Member} {c : Comparison}
    (h : IsDifference candidatePath referencePath entries keys written c) :
    c.hasErrors = false ↔ ∀ k, k ∈ keys ↔ k ∈ entries.map Entry.key := by
  have hcandidate : (∀ f ∈ c.candidate, f.severity ≠ .error) ↔ ∀ e ∈ entries, e.key ∈ keys := by
    have hnil := congrArg (· = []) h.candidate_errors
    simpa [List.filter_eq_nil_iff] using hnil
  have hreference : (∀ f ∈ c.reference, f.severity ≠ .error) ↔
      ∀ k ∈ keys, k ∈ entries.map Entry.key := by
    obtain ⟨firsts, hfirsts, -, hfindings⟩ := h.reference_errors
    -- every finding about the reference is an error, so there may be none
    have hnone : (∀ f ∈ c.reference, f.severity ≠ .error) ↔ firsts.map (·.name) = [] := by
      rw [hfindings, List.map_eq_nil_iff]
      simp [missingKey, List.eq_nil_iff_forall_not_mem]
    rw [hnone, hfirsts, List.filter_eq_nil_iff]
    simp
  have hsplit : c.hasErrors = false ↔
      (∀ f ∈ c.candidate, f.severity ≠ .error) ∧ ∀ f ∈ c.reference, f.severity ≠ .error := by
    simp [hasErrors]
  rw [hsplit, hcandidate, hreference]
  constructor
  · rintro ⟨hentries, hkeys⟩ k
    refine ⟨hkeys k, fun hk => ?_⟩
    obtain ⟨e, he, rfl⟩ := List.mem_map.1 hk
    exact hentries e he
  · intro hsame
    exact ⟨fun e he => (hsame e.key).2 (List.mem_map_of_mem he), fun k hk => (hsame k).1 hk⟩

theorem compare_isDifference (candidatePath referencePath : Text) (candidate : Layout)
    {t : Text} {written : List Member} (h : ObjectText ScalarText t written)
    (hkeys : ∀ k ∈ keys, k ∈ written.map (·.name)) :
    IsDifference candidatePath referencePath candidate.entries keys written
      (compare candidatePath candidate.text referencePath t keys) := by
  rw [← candidate.scan_text_eq_entries]
  refine ⟨rfl, rfl, filter_error_candidate _, filter_warning_candidate _, ?_, ?_⟩
  · exact pairwise_candidate (Entry.pairwise_scan candidate.text)
  · have hmissing : ∀ k ∈ keys.filter (fun k => k ∉ (Entry.scan candidate.text).map Entry.key),
        k ∈ written.map (·.name) :=
      fun k hk => hkeys k (List.mem_filter.1 hk).1
    obtain ⟨firsts, hfirsts, hfind, hfindings⟩ :=
      exists_firstMembers referencePath (Path.ofText candidatePath).name h hmissing
    refine ⟨firsts, hfirsts, hfind, ?_⟩
    rw [← hfindings]
    simp only [compare, List.contains_eq_mem, decide_not]

/-- Every name of a mapping is the name of a member that is written. -/
theorem mem_name_of_collectMembers {written : List Member} {k : Text}
    (h : k ∈ (collectMembers (written.map Member.pair)).map (·.1)) : k ∈ written.map (·.name) := by
  rw [map_name_collectMembers, List.mem_eraseDups, List.map_map] at h
  exact h

/--
**A comparison is the set difference of the two files.** The candidate is any layout, and the
reference is the text of any flat object, which is written as members `written`. The errors and the
warnings about the candidate are its entries that the mapping does not name and its empty ones, and
the findings about the reference are the names that the candidate lacks; so there is no error
exactly when both have the same keys.
-/
theorem compare_layout_flatObject (candidate : Layout) {referenceText : Text}
    {members : List (Text × Json)} (h : parse referenceText = .ok (.object members))
    (hflat : IsFlat referenceText) (candidatePath referencePath : Text) :
    let keys := members.map (·.1)
    let c := compare candidatePath candidate.text referencePath referenceText keys
    ∃ written, ObjectText ScalarText referenceText written ∧
      members = collectMembers (written.map Member.pair) ∧
      IsDifference candidatePath referencePath candidate.entries keys written c ∧
      (c.hasErrors = false ↔ ∀ k, k ∈ keys ↔ k ∈ candidate.entries.map Entry.key) := by
  intro keys c
  obtain ⟨ws, hws, hmembers⟩ := exists_written_of_parse h
  obtain ⟨written, hwritten, rfl⟩ := exists_objectText_of_written hws (hflat ws hws)
  have hdiff : IsDifference candidatePath referencePath candidate.entries keys written c := by
    refine compare_isDifference candidatePath referencePath candidate hwritten fun k hk => ?_
    exact mem_name_of_collectMembers (hmembers ▸ hk)
  exact ⟨written, hwritten, hmembers, hdiff, hdiff.hasErrors_eq_false_iff⟩

/-- A reference that spells a key of `Layout.commented` in another way and has one key twice. -/
def repeated : Text := "\x7b\"b\\u000a\": \"B\", \"c\": 1, \"c\": 2\x7d"

theorem compare_commented_repeated :
    parse repeated = .ok (.object [("b\n", .string "B"), ("c", .number "2")]) ∧ IsFlat repeated ∧
      ∃ written, ObjectText ScalarText repeated written ∧
        IsDifference "de.json" "en_us.json" Layout.commented.entries ["b\n", "c"] written
          (compare "de.json" Layout.commented.text "en_us.json" repeated ["b\n", "c"]) := by
  have hparse : parse repeated = .ok (.object [("b\n", .string "B"), ("c", .number "2")]) := by rfl
  have hflat : IsFlat repeated := by decide
  obtain ⟨written, hwritten, -, hdiff, -⟩ :=
    compare_layout_flatObject Layout.commented hparse hflat "de.json" "en_us.json"
  exact ⟨hparse, hflat, written, hwritten, hdiff⟩

example : compare "de.json" "\x7b\"a\": 1, \"b\\n\": \"\"\x7d" "en_us.json"
    "\x7b\"b\\u000a\": \"B\", \"c\": 1, \"c\": 2\x7d" ["b\n", "c"] =
    { candidatePath := "de.json", referencePath := "en_us.json"
      candidate := [⟨"de.json", ⟨1, 4⟩, .error, "Key not present in en_us.json", "a"⟩,
        ⟨"de.json", ⟨9, 14⟩, .warning, "Translation is empty", "b\n"⟩]
      reference := [⟨"en_us.json", ⟨17, 20⟩, .error, "Missing translation in de.json", "c"⟩] } := by
  rfl

end LangFile.Comparison

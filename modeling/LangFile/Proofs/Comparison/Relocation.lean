import LangFile.Proofs.Comparison.Difference
import LangFile.Proofs.Entry.Detour
import LangFile.Proofs.Json.Nesting
import Mathlib.Data.List.Nodup

/-!
# Finding missing keys in the reference again

A key of the parsed reference that the candidate lacks is reported where the scanner meets it in the
reference's text. The scanner does not see nesting, and strings of an array may lead it on a detour,
so a key can be passed over; it is then not reported at all.

1. The findings with one key, at most one (`filter_key_reference`).
2. The keys that the scanner meets again (`IsRelocatable.exists_mem_scan`).
3. Both together (`compare_nested`), and a key that is passed over (`swallowed`).
-/

namespace LangFile.Comparison

open Text Json

/-! ## The findings with one key -/

/-- The finding about a missing key that an entry of the reference's text has. -/
def missingAt (path candidateName key : Text) (e : Entry) : Finding :=
  ⟨path, ⟨e.start, e.stop⟩, .error, "Missing translation in " ++ candidateName, key⟩

/-- Of different names, each with at most one result that carries it, one has its own result. -/
theorem filter_filterMap_of_mem {α β : Type} [DecidableEq α] {f : α → Option β} {name : β → α}
    (hname : ∀ a, ∀ b ∈ f a, name b = a) {l : List α} (hl : l.Nodup) {a : α} (ha : a ∈ l) :
    (l.filterMap f).filter (fun b => name b = a) = (f a).toList := by
  have hone : l.filter (fun b => decide (b = a)) = [a] := by
    rw [List.filter_eq, List.count_eq_one_of_mem hl ha]
    rfl
  have hresult (b : α) : (f b).filter (fun r => decide (name r = a))
      = if decide (b = a) = true then f b else none := by
    cases hb : f b with
    | none => simp
    | some r =>
      obtain rfl := hname b r hb
      by_cases hba : name r = a <;> simp [hba]
  rw [List.filter_filterMap, funext hresult, ← List.filterMap_filter, hone]
  cases hf : f a <;> simp [hf]

section

variable {keys : List Text} {key : Text} (candidatePath candidateText referencePath t : Text)

/-- **A missing key is reported where the scanner meets it first,** if it does. -/
theorem filter_key_reference (hkeys : keys.Nodup) (hkey : key ∈ keys)
    (hmissing : key ∉ (Entry.scan candidateText).map Entry.key) :
    (compare candidatePath candidateText referencePath t keys).reference.filter
        (fun f => f.key = key)
      = ((firstWithKey key (Entry.scan t)).map
          (missingAt referencePath (Path.ofText candidatePath).name key)).toList := by
  refine filter_filterMap_of_mem (fun k f hf => ?_) (hkeys.filter _) ?_
  · obtain ⟨e, -, rfl⟩ := Option.map_eq_some_iff.1 hf
    rfl
  · refine List.mem_filter.2 ⟨hkey, ?_⟩
    simpa using hmissing

end

theorem exists_firstWithKey {entries : List Entry} {key : Text}
    (h : key ∈ entries.map Entry.key) : ∃ e, firstWithKey key entries = some e := by
  obtain ⟨e, he, rfl⟩ := List.mem_map.1 h
  exact Option.isSome_iff_exists.1 (List.find?_isSome.2 ⟨e, he, by simp⟩)

theorem firstWithKey_eq_none {entries : List Entry} {key : Text}
    (h : key ∉ entries.map Entry.key) : firstWithKey key entries = none := by
  refine List.find?_eq_none.2 fun e he => ?_
  simp only [decide_eq_true_eq]
  rintro rfl
  exact h (List.mem_map_of_mem he)

/-! ## The keys that the scanner meets again -/

/-- The scanner gets to the name of a member of the text: on the detours before it the scanner is
led back, or there are none. -/
def IsRelocatable (t : Text) (m : Member) : Prop :=
  (¬ BeginsWithColon m.rawName ∧ ¬ Entry.FollowsColon (t.take m.start)) ∨
    ¬ Entry.HasDetour (t.take m.start ++ literal m.rawName)

/-- **The scanner meets every name that no detour hides,** whatever the values before it. -/
theorem IsRelocatable.exists_mem_scan {t : Text} {ms : List Member} {m : Member}
    (h : IsRelocatable t m) (hms : ObjectText ReadText t ms) (hm : m ∈ ms) :
    ∃ value, ⟨m.rawName, m.start, value⟩ ∈ Entry.scan t := by
  obtain ⟨before, w, u, ht, hlength, hbefore, hw⟩ := hms.standsIn m hm
  have hraw : IsBody m.rawName := (hms.spells hm).isBody
  have htake : t.take m.start = before := by
    rw [ht, ← hlength]
    exact List.take_left
  have hreaches : Entry.Reaches m.rawName (literal m.rawName ++ (w ++ .scalar ':' :: u)) []
      before := by
    rw [IsRelocatable, htake] at h
    rcases h with ⟨hcolon, hfollows⟩ | hdetour
    · exact Entry.reaches_of_not_followsColon hraw hw hbefore hcolon hfollows
    · exact Entry.reaches_of_no_detour hraw hw hbefore .nil hdetour
  obtain ⟨value, hmem⟩ := hreaches
  refine ⟨value, ?_⟩
  rw [List.nil_append, hlength] at hmem
  rw [Entry.scan_eq_scanFrom, ht]
  exact hmem

theorem IsRelocatable.name_mem {t : Text} {ms : List Member} {m : Member}
    (h : IsRelocatable t m) (hms : ObjectText ReadText t ms) (hm : m ∈ ms) :
    m.name ∈ (Entry.scan t).map Entry.key := by
  obtain ⟨value, hmem⟩ := h.exists_mem_scan hms hm
  exact List.mem_map.2 ⟨_, hmem, hms.key_entry hm⟩

/-! ## Both -/

/--
**No missing key of a reference is lost that its scanner meets.** The reference is any object, which
is written as members `written`. A key that the candidate lacks is reported once when the text of
the reference has an entry with it, at the first such entry, and not at all when the text has none.
The text has an entry at the name of every member, except where a detour leads up to the name and
the literal of the name begins with a colon or follows one that is nothing but a colon.
-/
theorem compare_nested {t : Text} {members : List (Text × Json)}
    (h : parse t = .ok (.object members)) (candidatePath candidateText referencePath : Text) :
    let keys := members.map (·.1)
    let found := (Entry.scan candidateText).map Entry.key
    let findings (key : Text) :=
      (compare candidatePath candidateText referencePath t keys).reference.filter
        fun f => f.key = key
    let report := missingAt referencePath (Path.ofText candidatePath).name
    ∃ written, ObjectText ReadText t written ∧ members = collectMembers (written.map Member.pair) ∧
      (∀ key ∈ keys, key ∉ found →
        (key ∈ (Entry.scan t).map Entry.key → ∃ e, firstWithKey key (Entry.scan t) = some e ∧
          findings key = [report key e]) ∧
        (key ∉ (Entry.scan t).map Entry.key → findings key = [])) ∧
      ∀ m ∈ written, IsRelocatable t m →
        (∃ value, ⟨m.rawName, m.start, value⟩ ∈ Entry.scan t) ∧
          (m.name ∉ found → ∃ e, findings m.name = [report m.name e]) := by
  intro keys found findings report
  obtain ⟨written, hwritten, rfl⟩ := exists_objectText_of_parse h
  have hnodup : keys.Nodup := nodup_name_collectMembers _
  have hreport {key : Text} (hkey : key ∈ keys) (hmissing : key ∉ found)
      (hmeets : key ∈ (Entry.scan t).map Entry.key) :
      ∃ e, firstWithKey key (Entry.scan t) = some e ∧ findings key = [report key e] := by
    obtain ⟨e, he⟩ := exists_firstWithKey hmeets
    refine ⟨e, he, ?_⟩
    have hfindings := filter_key_reference candidatePath candidateText referencePath t hnodup hkey
      hmissing
    rw [he] at hfindings
    exact hfindings
  refine ⟨written, hwritten, rfl, fun key hkey hmissing => ⟨hreport hkey hmissing, fun hnone => ?_⟩,
    fun m hm hrelocatable => ⟨hrelocatable.exists_mem_scan hwritten hm, fun hmissing => ?_⟩⟩
  · have hfindings := filter_key_reference candidatePath candidateText referencePath t hnodup hkey
      hmissing
    rw [firstWithKey_eq_none hnone] at hfindings
    exact hfindings
  · have hkey : m.name ∈ keys := by
      rw [show keys = _ from map_name_collectMembers _, List.mem_eraseDups, List.map_map]
      exact List.mem_map_of_mem hm
    obtain ⟨e, -, hfindings⟩ := hreport hkey hmissing (hrelocatable.name_mem hwritten hm)
    exact ⟨e, hfindings⟩

/-- A reference with an array whose strings lead the scanner on a detour, from which it is back
before the next key. -/
def detoured : Text := "\x7b\"a\": [\"x\", \":y\"], \"b\": \x7b\"c\": 1\x7d\x7d"

theorem compare_nested_detoured :
    parse detoured = .ok (.object [("a", .array [.string "x", .string ":y"]),
        ("b", .object [("c", .number "1")])]) ∧
      ∃ written m, ObjectText ReadText detoured written ∧ m ∈ written ∧ m.name = "b" ∧
        IsRelocatable detoured m ∧
        ∃ e, (compare "de.json" "\x7b\"a\": \"x\"\x7d" "en_us.json" detoured
            ["a", "b"]).reference.filter (fun f => f.key = ofString "b")
          = [missingAt "en_us.json" "de.json" "b" e] := by
  have hparse : parse detoured = .ok (.object [("a", .array [.string "x", .string ":y"]),
      ("b", .object [("c", .number "1")])]) := by
    rfl
  obtain ⟨written, hwritten, hmembers, -, hrelocated⟩ :=
    compare_nested hparse "de.json" "\x7b\"a\": \"x\"\x7d" "en_us.json"
  have hb : ofString "b" ∈ (collectMembers (written.map Member.pair)).map (·.1) := by
    rw [← hmembers]
    decide
  obtain ⟨m, hm, hname⟩ := List.mem_map.1 (mem_name_of_collectMembers hb)
  -- a literal before a colon that stands for this name is found at one place only
  have hplaces : ∀ n < detoured.length, ∀ r ∈ quoted (detoured.drop n), BeginsWithColon r.2 →
      unescape r.1 = ofString "b" → n = 19 ∧ r.1 = ofString "b" := by
    decide
  obtain ⟨rest, hread, hcolon⟩ := hwritten.quoted_drop hm
  have hstart : m.start < detoured.length := by
    by_contra hge
    rw [List.drop_eq_nil_of_le (Nat.le_of_not_lt hge)] at hread
    simp [quoted] at hread
  obtain ⟨hat, hraw⟩ := hplaces m.start hstart _ hread hcolon ((hwritten.key_entry hm).trans hname)
  have hrelocatable : IsRelocatable detoured m := by
    refine Or.inl ⟨?_, fun hfollows => ?_⟩
    · rw [show m.rawName = ofString "b" from hraw]
      decide
    · have hbefore : detoured.take m.start
          = "\x7b\"a\": [\"x\", \":" ++ CodePoint.scalar 'y' :: .scalar '"' :: "], " := by
        rw [hat]
        rfl
      rw [hbefore] at hfollows
      rcases hfollows.last (by decide) with hlast | hblank
      · exact absurd hlast (by decide)
      · exact absurd hblank (by decide)
  obtain ⟨e, he⟩ := (hrelocated m hm hrelocatable).2 (by rw [hname]; decide)
  rw [hname] at he
  exact ⟨hparse, written, m, hwritten, hm, hname, hrelocatable, e, he⟩

/-- A reference with an array whose strings lead the scanner past the key behind it. -/
def swallowed : Text := "\x7b\"a\": [\"x\", \":\"], \"b\": 1\x7d"

theorem missing_not_always_reported :
    ¬ ∀ (candidatePath candidateText referencePath t : Text) (members : List (Text × Json)),
      parse t = .ok (.object members) → ∀ key ∈ members.map (·.1),
        key ∉ (Entry.scan candidateText).map Entry.key →
          ∃ f, (compare candidatePath candidateText referencePath t
            (members.map (·.1))).reference.filter (fun f => f.key = key) = [f] := by
  intro hall
  have hparse : parse swallowed
      = .ok (.object [("a", .array [.string "x", .string ":"]), ("b", .number "1")]) := by
    rfl
  obtain ⟨f, hf⟩ := hall "de.json" "\x7b\"a\": \"x\"\x7d" "en_us.json" swallowed _ hparse "b"
    (by decide) (by decide)
  have hnone : (compare "de.json" "\x7b\"a\": \"x\"\x7d" "en_us.json" swallowed
      ["a", "b"]).reference = [] := by
    rfl
  simp only [List.map_cons, List.map_nil, hnone, List.filter_nil] at hf
  exact absurd hf (by simp)

end LangFile.Comparison

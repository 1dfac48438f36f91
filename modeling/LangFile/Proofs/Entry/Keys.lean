import LangFile.Proofs.Entry.Decomposition
import LangFile.Proofs.Entry.Distinct
import LangFile.Proofs.Json.Nesting

/-!
# Every key has its place

A text without entries is read as strict JSON, but that brings no keys: what the strict reader takes
for an object with members is, from its first member on, what the scanner takes for a pair. So the
keys of a text are those of its entries, each with its place; the strict reader only decides whether
a text without entries has no keys or an error.

1. Objects: the name of a member begins a pair (`Json.ObjectText.beginsPair`), so the scan is not
   empty (`scan_ne_nil_of_parse`).
2. The keys of entries, and those of a text (`ofText_eq`).
3. Both together (`keys_have_places`).
-/

namespace LangFile

open Text Json

/-! ## Objects -/

/-- A pair begins at the name of every member of an object, whatever the values before it. -/
theorem Json.ObjectText.beginsPair {t : Text} {ms : List Member} (h : ObjectText ReadText t ms)
    {m : Member} (hm : m ∈ ms) : ∃ u, u <:+ t ∧ Entry.BeginsPair u := by
  obtain ⟨before, w, u, rfl, -, -, hw⟩ := h.standsIn m hm
  have hname : IsBody m.rawName := (h.spells hm).isBody
  have hpair : Entry.IsPair m.rawName none (literal m.rawName ++ w ++ .scalar ':' :: []) :=
    .bare hname hw (List.forall_mem_nil _)
  exact ⟨_, List.suffix_append before _, m.rawName, none, _, hpair, u, by simp⟩

/-- **An object with members is scanned for at least one entry.** -/
theorem Entry.scan_ne_nil_of_parse {t : Text} {members : List (Text × Json)}
    (h : parse t = .ok (.object members)) (hne : members ≠ []) : Entry.scan t ≠ [] := by
  obtain ⟨ms, hms, rfl⟩ := exists_objectText_of_parse h
  cases ms with
  | nil => exact absurd rfl hne
  | cons m ms =>
    obtain ⟨u, hu, hbegins⟩ := hms.beginsPair List.mem_cons_self
    intro hscan
    -- A text that is scanned for nothing is one gap, and in a gap no pair begins.
    have hgap : Entry.Decomposition 0 t [] := hscan ▸ Entry.decomposition_scanFrom 0 t
    cases hgap with
    | gap hnone => exact hnone u hu hbegins

namespace Key

/-! ## Keys -/

theorem dedupFrom_sublist (seen : List Text) (ks : List Key) :
    (dedupFrom seen ks).Sublist ks := by
  induction ks generalizing seen with
  | nil => exact .slnil
  | cons k ks ih =>
    rw [dedupFrom]
    split
    · exact (ih seen).cons k
    · exact (ih _).cons_cons k

theorem ofEntries_eq_nil_iff (es : List Entry) : ofEntries es = [] ↔ es = [] := by
  cases es with
  | nil => exact iff_of_true rfl rfl
  | cons e es => exact iff_of_false (List.cons_ne_nil _ _) (List.cons_ne_nil _ _)

/-- A key of entries is that of one of them. -/
theorem exists_mem_of_mem_ofEntries {es : List Entry} {k : Key} (h : k ∈ ofEntries es) :
    ∃ e ∈ es, k = ofEntry e := by
  obtain ⟨e, he, hk⟩ := List.mem_map.1 ((dedupFrom_sublist [] _).subset h)
  exact ⟨e, he, hk.symm⟩

/-- The strict reader finds no key in a text without entries. -/
theorem ofJson_eq_nil {t : Text} {v : Json} (hscan : Entry.scan t = []) (h : parse t = .ok v) :
    ofJson v = [] := by
  cases v with
  | object members =>
    have hmembers : members = [] := by
      by_contra hne
      exact Entry.scan_ne_nil_of_parse h hne hscan
    rw [hmembers]
    rfl
  | _ => rfl

/-- **The keys of a text are those of its entries;** the strict reader has a say only about a text
without any, and none about the keys. -/
theorem ofText_eq (t : Text) :
    ofText t = if Entry.scan t = [] then (parse t).map fun _ => []
      else .ok (ofEntries (Entry.scan t)) := by
  unfold ofText
  split
  · next hnone =>
    -- Dropping repetitions leaves the first key, so no keys means no entries.
    have hscan := (ofEntries_eq_nil_iff _).1 hnone
    rw [if_pos hscan]
    cases hparse : parse t with
    | error e => rfl
    | ok v => exact congrArg Except.ok (ofJson_eq_nil hscan hparse)
  · next hsome =>
    rw [if_neg fun hscan => hsome ((ofEntries_eq_nil_iff _).2 hscan)]

theorem ofText_eq_error_iff {t : Text} {e : Json.Error} :
    ofText t = .error e ↔ Entry.scan t = [] ∧ parse t = .error e := by
  rw [ofText_eq]
  by_cases hscan : Entry.scan t = []
  · rw [if_pos hscan]
    cases parse t with
    | error e' => simp [Except.map, hscan]
    | ok v => simp [Except.map]
  · simp [hscan]

theorem eq_ofEntries_of_ofText {t : Text} {keys : List Key} (h : ofText t = .ok keys) :
    keys = ofEntries (Entry.scan t) := by
  rw [ofText_eq] at h
  split at h
  · next hscan =>
    rw [hscan]
    cases hparse : parse t with
    | error e => simp [hparse, Except.map] at h
    | ok v =>
      rw [hparse] at h
      exact (Except.ok.inj h).symm
  · exact (Except.ok.inj h).symm

/-- The names of the keys are those of the entries, each where it first occurs. -/
theorem map_name_of_ofText {t : Text} {keys : List Key} (h : ofText t = .ok keys) :
    keys.map (·.name) = ((Entry.scan t).map Entry.key).eraseDups := by
  rw [eq_ofEntries_of_ofText h, map_name_ofEntries]

/-! ## Both -/

/--
**Every key has its place.** A text that is read strictly as an object with members has an entry, so
finding the keys of a text fails exactly when it has no entry and is not JSON, with the error of the
strict reader; and all keys that are found are those of entries, each of which stands in the text at
the place that the key has.
-/
theorem keys_have_places (t : Text) :
    (∀ e, ofText t = .error e ↔ Entry.scan t = [] ∧ parse t = .error e) ∧
      (∀ keys, ofText t = .ok keys → keys = ofEntries (Entry.scan t) ∧
        ∀ k ∈ keys, ∃ e ∈ Entry.scan t, k = ofEntry e ∧ k.place = some (e.start, e.stop) ∧
          t.slice e.start e.stop = literal k.raw) ∧
      ∀ members, parse t = .ok (.object members) → members ≠ [] → Entry.scan t ≠ [] := by
  refine ⟨fun e => ofText_eq_error_iff, fun keys hkeys => ?_, fun members hparse hne =>
    Entry.scan_ne_nil_of_parse hparse hne⟩
  have heq := eq_ofEntries_of_ofText hkeys
  refine ⟨heq, fun k hk => ?_⟩
  rw [heq] at hk
  obtain ⟨e, he, rfl⟩ := exists_mem_of_mem_ofEntries hk
  exact ⟨e, he, rfl, rfl, Entry.slice_of_mem_scan he⟩

/-- An object whose first name is written with escapes, and whose value is nested. -/
def nested : Text := "\x7b \"\\u0061\\\"\" :\n[\x7b\"b\": \x7b\x7d\x7d] \x7d"

theorem keys_have_places_nested :
    parse nested = .ok (.object [("a\"", .array [.object [("b", .object [])]])]) ∧
      Entry.scan nested ≠ [] ∧
      ofText nested = .ok [⟨"a\"", "\\u0061\\\"", none, some (2, 12)⟩,
        ⟨"b", "b", none, some (17, 20)⟩] ∧
      ∃ e ∈ Entry.scan nested, ofEntry e = ⟨"b", "b", none, some (17, 20)⟩ := by
  have hparse : parse nested
      = .ok (.object [("a\"", .array [.object [("b", .object [])]])]) := by
    rfl
  have hkeys : ofText nested = .ok [⟨"a\"", "\\u0061\\\"", none, some (2, 12)⟩,
      ⟨"b", "b", none, some (17, 20)⟩] := by
    rfl
  obtain ⟨-, hplaces, hscan⟩ := keys_have_places nested
  obtain ⟨e, he, hkey, -⟩ := (hplaces _ hkeys).2 ⟨"b", "b", none, some (17, 20)⟩ (by simp)
  exact ⟨hparse, hscan _ hparse (List.cons_ne_nil _ _), hkeys, e, he, hkey.symm⟩

end Key

end LangFile

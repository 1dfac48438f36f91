import LangFile.Proofs.Entry.FlatObject
import LangFile.Proofs.Entry.Keys
import LangFile.Proofs.Json.Quoting
import LangFile.Skeleton

/-!
# A skeleton is a flat object

The skeleton of a language file is the JSON of an object that has an empty string for each key. So
it is read strictly as that object, it is scanned for the same keys, and its own skeleton is itself.

1. The text: the lines of a skeleton are members by the grammar (`exists_objectText_ofKeys`).
2. The keys: those that the text has (`parse_ofKeys`), and those of a text whose skeleton it is
   (`eq_ofKeys_of_build`).
3. Both together (`build_isSkeleton`).
-/

namespace LangFile

open Text Json

namespace Skeleton

/-! ## The text -/

instance (w : Text) : Decidable (AllSpace w) :=
  inferInstanceAs (Decidable (∀ c ∈ w, isSpace c = true))

theorem allSpace_nil : AllSpace [] := List.forall_mem_nil _

/-- What stands before the name of a member. -/
def indent : Text := "\n    "

theorem allSpace_indent : AllSpace indent := by decide

/-- The member of a key in a skeleton, at an offset. -/
def memberAt (pos : Nat) (key : Text) : Json.Member :=
  ⟨pos, key.flatMap escape, key, some [], .string []⟩

/-- The text of a member, without its indentation. -/
def memberText (key : Text) : Text := quote key ++ ": \"\""

/-- The end of the last member's line, and the brace. -/
def ending : Text := "\n\x7d"

theorem isMember_memberAt (pos : Nat) (key : Text) :
    IsMember StringText (memberAt pos key) (memberText key) := by
  have hvalue : StringText (literal []) (some []) (.string []) := .mk .nil
  have hmember : IsMember StringText (memberAt pos key)
      (literal (key.flatMap escape) ++ ([] ++ .scalar ':' :: ([.scalar ' '] ++ literal []))) :=
    .mk (spells_flatMap_escape key) allSpace_nil (by decide) hvalue
  exact hmember

/-- **The lines of a skeleton are its members,** which begin behind the first indentation. -/
theorem exists_membersText_lines (k : Text) (ks : List Text) :
    ∃ u, joinWith ",\n" ((k :: ks).map member) = "    " ++ u ∧
      ∀ pos, ∃ ms, MembersText StringText pos (u ++ ending) ms ∧
        ms.map Member.pair = (k :: ks).map (fun key => (key, Json.string [])) ∧
        ∀ m ∈ ms, literal m.rawName = quote m.name := by
  induction ks generalizing k with
  | nil =>
    refine ⟨memberText k, ?_, fun pos => ⟨[memberAt pos k], ?_, rfl, ?_⟩⟩
    · rw [List.map_singleton, joinWith, member, List.append_assoc, memberText]
    · have hnewline : AllSpace "\n" := by decide
      exact .last (isMember_memberAt pos k) hnewline allSpace_nil
    · exact List.forall_mem_singleton.2 (quote_eq_literal k).symm
  | cons k' ks ih =>
    obtain ⟨u, hu, hms⟩ := ih k'
    refine ⟨memberText k ++ ([] ++ .scalar ',' :: indent) ++ u, ?_, fun pos => ?_⟩
    · have hjoin : joinWith ",\n" ((k :: k' :: ks).map member)
          = member k ++ ",\n" ++ joinWith ",\n" ((k' :: ks).map member) := rfl
      rw [hjoin, hu, member, memberText]
      simp only [List.append_assoc]
      rfl
    · obtain ⟨ms, hms, hpairs, hquoted⟩ :=
        hms (pos + (memberText k ++ ([] ++ CodePoint.scalar ',' :: indent)).length)
      refine ⟨memberAt pos k :: ms, ?_, ?_, ?_⟩
      · rw [List.append_assoc]
        exact .more (isMember_memberAt pos k) allSpace_nil allSpace_indent hms
      · rw [List.map_cons, hpairs]
        rfl
      · exact List.forall_mem_cons.2 ⟨(quote_eq_literal k).symm, hquoted⟩

/-- **The skeleton with given keys is the text of an object of empty strings,** with the names as
they are written for strings. -/
theorem exists_objectText_ofKeys (keys : List Text) :
    ∃ ms, ObjectText StringText (ofKeys keys) ms ∧
      ms.map Member.pair = keys.map (fun key => (key, Json.string [])) ∧
      ∀ m ∈ ms, literal m.rawName = quote m.name := by
  cases keys with
  | nil => exact ⟨[], .empty allSpace_nil allSpace_nil allSpace_nil, rfl, List.forall_mem_nil _⟩
  | cons k ks =>
    obtain ⟨u, hu, hms⟩ := exists_membersText_lines k ks
    obtain ⟨ms, hms, hpairs, hquoted⟩ := hms ([] ++ CodePoint.scalar '\x7b' :: indent).length
    refine ⟨ms, ?_, hpairs, hquoted⟩
    have htext : ofKeys (k :: ks) = [] ++ .scalar '\x7b' :: indent ++ (u ++ ending) := by
      unfold ofKeys
      rw [List.isEmpty_cons, if_neg Bool.false_ne_true, hu]
      simp only [List.append_assoc]
      rfl
    rw [htext]
    exact .members allSpace_nil allSpace_indent hms

/-! ## The keys -/

theorem map_name_emptyMembers (keys : List Text) :
    (keys.map fun key => (key, Json.string [])).map (·.1) = keys := by
  rw [List.map_map]
  exact List.map_id keys

/-- The text of a skeleton with different keys is read strictly and scanned for these keys. -/
theorem parse_ofKeys {keys : List Text} (h : keys.Nodup) :
    parse (ofKeys keys) = .ok (.object (keys.map fun key => (key, .string []))) ∧
      ∃ ks, Key.ofText (ofKeys keys) = .ok ks ∧ ks.map (·.name) = keys := by
  obtain ⟨ms, hms, hpairs, -⟩ := exists_objectText_ofKeys keys
  have hnames := map_name_emptyMembers keys
  have hcollect : collectMembers (ms.map Member.pair) = keys.map fun key => (key, .string []) := by
    rw [hpairs]
    exact collectMembers_eq_self (by rwa [hnames])
  have hparse := hms.parse_eq_ok
  rw [hcollect] at hparse
  obtain ⟨ks, hks, hkeys⟩ :=
    (hms.mono StringText.scalarText).map_name_ofText hparse hcollect.symm
  exact ⟨hparse, ks, hks, by rw [hkeys, hnames]⟩

/-- A skeleton that is built is that of the keys of the text's entries. -/
theorem eq_ofKeys_of_build {t s : Text} (h : build t = .ok s) :
    s = ofKeys ((Entry.scan t).map Entry.key).eraseDups := by
  unfold build at h
  cases hkeys : Key.ofText t with
  | error e =>
    rw [hkeys] at h
    simp [Except.map] at h
  | ok keys =>
    rw [hkeys] at h
    obtain rfl := Except.ok.inj h
    exact congrArg ofKeys (Key.map_name_of_ofText hkeys)

/-- The skeleton of a flat object is that of its names. -/
theorem build_of_isFlat {t : Text} {members : List (Text × Json)}
    (h : parse t = .ok (.object members)) (hflat : IsFlat t) :
    build t = .ok (ofKeys (members.map (·.1))) := by
  obtain ⟨ws, hws, hmembers⟩ := exists_written_of_parse h
  obtain ⟨ms, hms, rfl⟩ := exists_objectText_of_written hws (hflat ws hws)
  obtain ⟨keys, hkeys, hnames⟩ := hms.map_name_ofText h hmembers
  rw [build, hkeys, ← hnames]
  rfl

/-! ## Both -/

/--
**A skeleton is a flat object with the keys of its source, and its own skeleton.** It is parsed as
the object that has an empty string for each key of the source's entries, where that key first
occurs and in that order; it is scanned for these keys; and its skeleton is built and is itself.
-/
theorem build_isSkeleton {t s : Text} (h : build t = .ok s) :
    let names := ((Entry.scan t).map Entry.key).eraseDups
    parse s = .ok (.object (names.map fun key => (key, .string []))) ∧
      (∃ keys, Key.ofText s = .ok keys ∧ keys.map (·.name) = names) ∧ build s = .ok s := by
  intro names
  obtain ⟨hparse, keys, hkeys, hnames⟩ :=
    parse_ofKeys (nodup_eraseDups ((Entry.scan t).map Entry.key))
  rw [← eq_ofKeys_of_build h] at hparse hkeys
  refine ⟨hparse, ⟨keys, hkeys, hnames⟩, ?_⟩
  rw [build, hkeys, eq_ofKeys_of_build h, ← hnames]
  rfl

/-- A file that is no JSON, with one key in two spellings and one whose escape is wrong. -/
def unfinished : Text := "\x7b\"a\\n\": 1, \"\\q\t\" : \"x\", \"a\\u000a\":"

theorem build_isSkeleton_unfinished :
    ∃ s, build unfinished = .ok s ∧
      parse s = .ok (.object [("a\n", .string []), ("\\q\t", .string [])]) ∧
      build s = .ok s := by
  have hbuild : build unfinished
      = .ok "\x7b\n    \"a\\n\": \"\",\n    \"\\\\q\\t\": \"\"\n\x7d" := by
    rfl
  have hnames : ((Entry.scan unfinished).map Entry.key).eraseDups
      = [ofString "a\n", ofString "\\q\t"] := by
    rfl
  obtain ⟨hparse, -, hagain⟩ := build_isSkeleton hbuild
  rw [hnames] at hparse
  exact ⟨_, hbuild, hparse, hagain⟩

end Skeleton

end LangFile

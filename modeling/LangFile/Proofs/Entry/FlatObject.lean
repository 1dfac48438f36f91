import LangFile.Proofs.Entry.Distinct
import LangFile.Proofs.Entry.Layout
import LangFile.Proofs.Json.Members

/-!
# Scanning a flat object

The JSON of an object whose values are scalars is a layout of its members: what is not a quoted
pair, that is its braces, its commas and the values without quotation marks, is filling. So the
scanner meets the members one after another, as the strict reader does.
-/

namespace LangFile.Json

open Text

/-- The entry that stands for a member. -/
def Member.entry (m : Member) : Entry := ⟨m.rawName, m.start, m.rawValue⟩

/-! ## Scalars as fillings -/

/-- The text has no quotation mark, and it begins with a character that is not white space. -/
def IsPlain (t : Text) : Prop :=
  .scalar '"' ∉ t ∧ (t.head?.any fun c => !c.isBlank) = true

/-- White space in front of a plain text ends before a character that is no quotation mark. -/
theorem IsPlain.head?_trimLeft {t : Text} (h : IsPlain t) (rest : Text) :
    (trimLeft (t ++ rest)).head? ≠ some (.scalar '"') := by
  obtain ⟨hq, hhead⟩ := h
  cases t with
  | nil => simp at hhead
  | cons c t =>
    have hc : c.isBlank = false := by simpa using hhead
    rw [List.cons_append, trimLeft_cons hc, List.head?_cons]
    rintro he
    exact List.ne_of_not_mem_cons hq (Option.some.inj he).symm

theorem isPlain_of_mem_names {name : String} {v : Json} (h : (name, v) ∈ names) :
    IsPlain (ofString name) := by
  have hall : ∀ nv ∈ names, .scalar '"' ∉ ofString nv.1 ∧
      ((ofString nv.1).head?.any fun c => !c.isBlank) = true := by
    decide
  exact hall _ h

theorem IsNumber.isPlain {lit : Text} (h : IsNumber lit) : IsPlain lit := by
  refine ⟨fun hq => (h.isNumberChar _ hq).ne_quotationMark rfl, ?_⟩
  obtain ⟨c, r, rfl⟩ := List.exists_cons_of_ne_nil h.ne_nil
  simp [(h.isNumberChar c List.mem_cons_self).not_isBlank]

/-- A scalar is a literal with a body or a plain text without one. -/
theorem ScalarText.literal_or_plain {lit : Text} {raw : Option Text} {v : Json}
    (h : ScalarText lit raw v) :
    (∃ body, raw = some body ∧ lit = literal body ∧ IsBody body) ∨ raw = none ∧ IsPlain lit := by
  cases h with
  | string hs => exact Or.inl ⟨_, rfl, rfl, hs.isBody⟩
  | named hname => exact Or.inr ⟨rfl, isPlain_of_mem_names hname⟩
  | number hnumber => exact Or.inr ⟨rfl, hnumber.isPlain⟩

/-- The body of a value's literal is there when, and only when, the value is a string. -/
theorem ScalarText.rawValue {lit : Text} {raw : Option Text} {v : Json} (h : ScalarText lit raw v) :
    (∀ s, v = .string s → ∃ body, raw = some body ∧ Spells body s) ∧
      ((∀ s, v ≠ .string s) → raw = none) := by
  cases h with
  | string hs =>
    refine ⟨?_, fun hne => absurd rfl (hne _)⟩
    rintro _ ⟨⟩
    exact ⟨_, rfl, hs⟩
  | named hname =>
    refine ⟨?_, fun _ => rfl⟩
    rintro s rfl
    simp [names] at hname
  | number _ => exact ⟨fun s he => Json.noConfusion he, fun _ => rfl⟩

/-! ## Members as items -/

/-- A member and the filling behind it are an item and a filling. -/
theorem IsMember.exists_item {m : Member} {t sep : Text} (h : IsMember ScalarText m t)
    (hsep : .scalar '"' ∉ sep) :
    ∃ (i : Layout.Item) (filling : Text), i.text ++ filling = t ++ sep ∧
      .scalar '"' ∉ filling ∧
      (i.value = none → ∀ rest, (trimLeft (filling ++ rest)).head? ≠ some (.scalar '"')) ∧
      i.key = m.rawName ∧ i.value = m.rawValue := by
  obtain @⟨w₁, w₂, lit, hname, hw₁, hw₂, hlit⟩ := h
  -- a string is the value of the item, any other scalar begins the filling
  rcases hlit.literal_or_plain with ⟨body, hraw, rfl, hbody⟩ | ⟨hraw, hplain⟩
  · refine ⟨⟨m.rawName, w₁, w₂, some body, hname.isBody, hw₁.allBlank, hw₂.allBlank, ?_⟩, sep, ?_,
      hsep, nofun, rfl, hraw.symm⟩
    · rintro _ ⟨⟩
      exact hbody
    · simp [Layout.Item.text]
  · refine ⟨⟨m.rawName, w₁, w₂, none, hname.isBody, hw₁.allBlank, hw₂.allBlank, ?_⟩, lit ++ sep, ?_,
      ?_, fun _ rest => ?_, rfl, hraw.symm⟩
    · rintro _ ⟨⟩
    · simp [Layout.Item.text]
    · exact List.not_mem_append hplain.1 hsep
    · rw [List.append_assoc]
      exact hplain.head?_trimLeft _

theorem AllSpace.quoteFree {w : Text} (h : AllSpace w) : .scalar '"' ∉ w :=
  fun hq => absurd (h _ hq) (by decide)

theorem quoteFree_cut {a b : Text} {c : CodePoint} (ha : .scalar '"' ∉ a) (hc : c ≠ .scalar '"')
    (hb : .scalar '"' ∉ b) : .scalar '"' ∉ a ++ c :: b :=
  List.not_mem_append ha (List.not_mem_cons_of_ne_of_not_mem hc.symm hb)

/-- **The members of an object are items with fillings,** whose entries are those of the members. -/
theorem MembersText.exists_items {pos : Nat} {t : Text} {ms : List Member}
    (h : MembersText ScalarText pos t ms) :
    ∃ items, Layout.body items = t ∧ Layout.IsSpaced items ∧
      Layout.entriesFrom pos items = ms.map Member.entry := by
  induction h with
  | last hm hw hw' =>
    obtain ⟨i, filling, htext, hfree, hhead, hkey, hvalue⟩ :=
      hm.exists_item (quoteFree_cut (c := .scalar '\x7d') hw.quoteFree (by decide) hw'.quoteFree)
    refine ⟨[(i, filling)], ?_, ⟨hfree, fun hv => hhead hv [], trivial⟩, ?_⟩
    · rw [Layout.body, Layout.body, List.append_nil, htext]
    · simp [Layout.entriesFrom, Member.entry, hkey, hvalue]
  | more hm hw hw' _ ih =>
    obtain ⟨i, filling, htext, hfree, hhead, hkey, hvalue⟩ :=
      hm.exists_item (quoteFree_cut (c := .scalar ',') hw.quoteFree (by decide) hw'.quoteFree)
    obtain ⟨items, hbody, hspaced, hentries⟩ := ih
    refine ⟨(i, filling) :: items, ?_, ⟨hfree, fun hv => hhead hv _, hspaced⟩, ?_⟩
    · rw [Layout.body, hbody, ← List.append_assoc, htext]
    · rw [Layout.entriesFrom, Nat.add_assoc, ← List.length_append, htext, hentries, hkey, hvalue]
      rfl

/-- **The JSON of a flat object is a layout of its members.** -/
theorem ObjectText.exists_layout {t : Text} {ms : List Member} (h : ObjectText ScalarText t ms) :
    ∃ l : Layout, l.text = t ∧ l.entries = ms.map Member.entry := by
  cases h with
  | empty hw hw' hw'' =>
    refine ⟨⟨_, [], quoteFree_cut hw.quoteFree (by decide) ?_, trivial⟩, List.append_nil _, rfl⟩
    exact quoteFree_cut hw'.quoteFree (by decide) hw''.quoteFree
  | members hw hw' hms =>
    obtain ⟨items, hbody, hspaced, hentries⟩ := hms.exists_items
    refine ⟨⟨_, items, quoteFree_cut hw.quoteFree (by decide) hw'.quoteFree, hspaced⟩, ?_, hentries⟩
    rw [Layout.text, hbody]

/-! ## The members of an object -/

theorem ObjectText.scan_eq {t : Text} {ms : List Member} (h : ObjectText ScalarText t ms) :
    Entry.scan t = ms.map Member.entry := by
  obtain ⟨l, rfl, hentries⟩ := h.exists_layout
  rw [Layout.scan_text_eq_entries, hentries]

theorem ObjectText.key_entry {V : ValueGrammar} {t : Text} {ms : List Member}
    (h : ObjectText V t ms) {m : Member} (hm : m ∈ ms) : m.entry.key = m.name :=
  unescape_of_spells (h.spells hm)

/-- The keys of the entries are the names of the members as they are written. -/
theorem ObjectText.map_key_scan {t : Text} {ms : List Member} (h : ObjectText ScalarText t ms) :
    (Entry.scan t).map Entry.key = (ms.map Member.pair).map (·.1) := by
  rw [h.scan_eq, List.map_map, List.map_map]
  exact List.map_congr_left fun m hm => h.key_entry hm

/-- **The keys of a flat object's text are the names of the parsed object.** -/
theorem ObjectText.map_name_ofText {t : Text} {ms : List Member} {members : List (Text × Json)}
    (h : ObjectText ScalarText t ms) (hparse : parse t = .ok (.object members))
    (hms : members = collectMembers (ms.map Member.pair)) :
    ∃ keys, Key.ofText t = .ok keys ∧ keys.map (·.name) = members.map (·.1) := by
  unfold Key.ofText
  split
  · refine ⟨_, by rw [hparse]; rfl, ?_⟩
    rw [Key.ofJson, List.map_map]
    rfl
  · refine ⟨_, rfl, ?_⟩
    rw [Key.map_name_ofEntries, h.map_key_scan, hms, map_name_collectMembers]

/--
**A flat object is scanned as it is parsed.** The object is written as members `ms`, of which the
parsed mapping keeps each name once. The scanner has one entry for each, in their order: with the
member's name as its key, with the body of the value's literal when the value is a string and
nothing when it is not, and at the literal of the name. So the keys of the text are the names of the
mapping.
-/
theorem scan_flatObject {t : Text} {members : List (Text × Json)}
    (h : parse t = .ok (.object members)) (hflat : IsFlat t) :
    ∃ ms, ObjectText ScalarText t ms ∧ members = collectMembers (ms.map Member.pair) ∧
      Entry.scan t = ms.map Member.entry ∧
      (∀ m ∈ ms, m.entry.key = m.name ∧
        (∀ s, m.value = .string s → ∃ body, m.entry.value = some body ∧ Spells body s) ∧
        ((∀ s, m.value ≠ .string s) → m.entry.value = none) ∧
        t.slice m.entry.start m.entry.stop = literal m.rawName) ∧
      ∃ keys, Key.ofText t = .ok keys ∧ keys.map (·.name) = members.map (·.1) := by
  obtain ⟨ws, hws, hcollect⟩ := exists_written_of_parse h
  obtain ⟨ms, hms, rfl⟩ := exists_objectText_of_written hws (hflat ws hws)
  refine ⟨ms, hms, hcollect, hms.scan_eq, fun m hm => ?_, hms.map_name_ofText h hcollect⟩
  obtain ⟨_, -, -, -, hlit⟩ := hms.isMember m hm
  have hscan : m.entry ∈ Entry.scan t := by
    rw [hms.scan_eq]
    exact List.mem_map_of_mem hm
  exact ⟨hms.key_entry hm, hlit.rawValue.1, hlit.rawValue.2, Entry.slice_of_mem_scan hscan⟩

/-- An object that has one name in two spellings, and white space around its tokens. -/
def respelled : Text := "\x7b\"a\": \"x\", \"\\u0061\" : null,\n \"b\": -1.5e3\x7d"

theorem scan_flatObject_respelled :
    parse respelled = .ok (.object [("a", .null), ("b", .number "-1.5e3")]) ∧ IsFlat respelled ∧
      ∃ ms, ObjectText ScalarText respelled ms ∧ Entry.scan respelled = ms.map Member.entry ∧
        ∃ keys, Key.ofText respelled = .ok keys ∧ keys.map (·.name) = (["a", "b"] : List Text) := by
  have hparse : parse respelled = .ok (.object [("a", .null), ("b", .number "-1.5e3")]) := by rfl
  have hflat : IsFlat respelled := by decide
  obtain ⟨ms, hms, -, hscan, -, hkeys⟩ := scan_flatObject hparse hflat
  exact ⟨hparse, hflat, ms, hms, hscan, hkeys⟩

-- An object in the place of a value is scanned too, also where a later value overwrites it.
example : parse "\x7b\"a\": \x7b\"b\": 1\x7d, \"a\": 2\x7d" = .ok (.object [("a", .number "2")]) ∧
    (Entry.scan "\x7b\"a\": \x7b\"b\": 1\x7d, \"a\": 2\x7d").length = 3 :=
  ⟨by rfl, by decide⟩

end LangFile.Json

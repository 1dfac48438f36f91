import LangFile.Proofs.Json.Number
import LangFile.Proofs.Json.Spelling

/-!
# The grammar of JSON objects

An object is written as its members between braces, parted by commas, with white space around every
token. The grammar keeps what the parsed mapping forgets: where each member stands, how its name
and its value are spelled, and the members that a later one of the same name overwrites.

1. One step of the reader: a member and what follows it (`membersRest_step`).
2. All members, for any grammar of values that the reader of values obeys (`exists_membersText`).
3. A whole text (`exists_objectText`), and one whose values are scalars.
-/

namespace LangFile.Json

open Text

/-! ## White space -/

/-- All characters are white space between tokens. -/
def AllSpace (w : Text) : Prop := ∀ c ∈ w, isSpace c = true

theorem exists_eq_append_skipSpace (t : Text) : ∃ w, AllSpace w ∧ t = w ++ skipSpace t := by
  refine ⟨t.takeWhile isSpace, ?_, List.takeWhile_append_dropWhile.symm⟩
  exact List.all_eq_true.1 List.all_takeWhile

theorem exists_of_skipSpace_eq {t u : Text} (h : skipSpace t = u) :
    ∃ w, AllSpace w ∧ t = w ++ u := by
  obtain ⟨w, hw, ht⟩ := exists_eq_append_skipSpace t
  exact ⟨w, hw, h ▸ ht⟩

theorem allSpace_of_skipSpace_eq_nil {t : Text} (h : skipSpace t = []) : AllSpace t := by
  obtain ⟨w, hw, ht⟩ := exists_of_skipSpace_eq h
  rw [List.append_nil] at ht
  exact ht ▸ hw

/-- What holds of the four characters of white space holds of all characters of such a text. -/
theorem AllSpace.forall {P : CodePoint → Prop} {w : Text} (h : AllSpace w)
    (hP : ∀ c ∈ [' ', '\t', '\n', '\r'].map CodePoint.scalar, P c) : ∀ c ∈ w, P c := by
  intro c hc
  have hs := h c hc
  simp only [isSpace, Bool.or_eq_true, decide_eq_true_eq] at hs
  refine hP c ?_
  rcases hs with ((rfl | rfl) | rfl) | rfl <;> decide

/-- White space between tokens is white space for the scanner. -/
theorem AllSpace.allBlank {w : Text} (h : AllSpace w) : AllBlank w :=
  h.forall (by decide)

/-! ## The grammar -/

/-- A grammar of values: the texts of a value, with the body of the literal of a string. -/
abbrev ValueGrammar := Text → Option Text → Json → Prop

/-- The value is neither an array nor an object. -/
def isScalar : Json → Bool
  | array _ => false
  | object _ => false
  | _ => true

/-- The texts of a scalar. -/
inductive ScalarText : ValueGrammar
  | string {raw s : Text} : Spells raw s → ScalarText (literal raw) (some raw) (.string s)
  | named {name : String} {v : Json} : (name, v) ∈ names → ScalarText (ofString name) none v
  | number {lit : Text} : IsNumber lit → ScalarText lit none (.number lit)

/-- A member of an object as it is written: the offset of its name's literal, the body of that
literal and the name, and the value with the body of its literal when it is a string. -/
structure Member where
  start : Nat
  rawName : Text
  name : Text
  rawValue : Option Text
  value : Json

/-- The name and the value. -/
def Member.pair (m : Member) : Text × Json := (m.name, m.value)

/-- The texts of a member. -/
inductive IsMember (V : ValueGrammar) (m : Member) : Text → Prop
  | mk {w₁ w₂ lit : Text} :
      Spells m.rawName m.name → AllSpace w₁ → AllSpace w₂ → V lit m.rawValue m.value →
      IsMember V m (literal m.rawName ++ (w₁ ++ .scalar ':' :: (w₂ ++ lit)))

/-- The members that a text, which stands at an offset, begins with, up to their brace, behind which
comes white space only. -/
inductive MembersText (V : ValueGrammar) : Nat → Text → List Member → Prop
  | last {m : Member} {t w w' : Text} :
      IsMember V m t → AllSpace w → AllSpace w' →
      MembersText V m.start (t ++ (w ++ .scalar '\x7d' :: w')) [m]
  | more {m : Member} {t w w' rest : Text} {ms : List Member} :
      IsMember V m t → AllSpace w → AllSpace w' →
      MembersText V (m.start + (t ++ (w ++ .scalar ',' :: w')).length) rest ms →
      MembersText V m.start (t ++ (w ++ .scalar ',' :: w') ++ rest) (m :: ms)

/-- The members that a whole text is the JSON object of. -/
inductive ObjectText (V : ValueGrammar) : Text → List Member → Prop
  | empty {w w' w'' : Text} :
      AllSpace w → AllSpace w' → AllSpace w'' →
      ObjectText V (w ++ .scalar '\x7b' :: (w' ++ .scalar '\x7d' :: w'')) []
  | members {w w' t : Text} {ms : List Member} :
      AllSpace w → AllSpace w' →
      MembersText V (w ++ .scalar '\x7b' :: w').length t ms →
      ObjectText V (w ++ .scalar '\x7b' :: w' ++ t) ms

theorem MembersText.isMember {V : ValueGrammar} {pos : Nat} {t : Text} {ms : List Member}
    (h : MembersText V pos t ms) : ∀ m ∈ ms, ∃ u, IsMember V m u := by
  induction h with
  | last hm _ _ => exact List.forall_mem_singleton.2 ⟨_, hm⟩
  | more hm _ _ _ ih => exact List.forall_mem_cons.2 ⟨⟨_, hm⟩, ih⟩

theorem ObjectText.isMember {V : ValueGrammar} {t : Text} {ms : List Member}
    (h : ObjectText V t ms) : ∀ m ∈ ms, ∃ u, IsMember V m u := by
  cases h with
  | empty => exact List.forall_mem_nil _
  | members _ _ hms => exact hms.isMember

theorem ObjectText.spells {V : ValueGrammar} {t : Text} {ms : List Member}
    (h : ObjectText V t ms) {m : Member} (hm : m ∈ ms) : Spells m.rawName m.name := by
  obtain ⟨_, hname, -, -, -⟩ := h.isMember m hm
  exact hname

/-! ## Reading members -/

variable {value : Reader Json} {V : ValueGrammar}

/-- **One step:** a name, a colon and a value, and then a brace or a comma and the other members. -/
theorem membersRest_step {fuel : Nat} {done ws : List (Text × Json)} {t rest : Text}
    (h : membersRest value (fuel + 1) done t = .ok (ws, rest)) :
    ∃ raw name w₁ w₂ t' v after, t = literal raw ++ (w₁ ++ .scalar ':' :: (w₂ ++ t')) ∧
      Spells raw name ∧ AllSpace w₁ ∧ AllSpace w₂ ∧ value t' = .ok (v, after) ∧
      ((skipSpace after = .scalar '\x7d' :: rest ∧ ws = ((name, v) :: done).reverse) ∨
        ∃ more, skipSpace after = .scalar ',' :: more ∧
          membersRest value fuel ((name, v) :: done) (skipSpace more) = .ok (ws, rest)) := by
  unfold membersRest at h
  split at h
  · split at h
    · simp at h
    · next name afterName hname =>
      obtain ⟨raw, ht, hraw⟩ := exists_spells_of_readString hname
      split at h
      · next afterColon hcolon =>
        obtain ⟨w₁, hw₁, rfl⟩ := exists_of_skipSpace_eq hcolon
        obtain ⟨w₂, hw₂, hafter⟩ := exists_eq_append_skipSpace afterColon
        split at h
        · simp at h
        · next v after hv =>
          refine ⟨raw, name, w₁, w₂, skipSpace afterColon, v, after, ?_, hraw, hw₁, hw₂, hv, ?_⟩
          · rw [ht, ← hafter]
          · split at h
            · next rest' hbrace =>
              obtain ⟨rfl, rfl⟩ := Prod.mk.inj (Except.ok.inj h)
              exact Or.inl ⟨hbrace, rfl⟩
            · next more hcomma => exact Or.inr ⟨more, hcomma, h⟩
            · simp at h
      · simp at h
  · simp at h

/-- What is read comes behind what was read before. -/
theorem append_of_membersRest {fuel : Nat} {done ws : List (Text × Json)} {t rest : Text}
    (h : membersRest value fuel done t = .ok (ws, rest)) : ∃ new, ws = done.reverse ++ new := by
  induction fuel generalizing done t with
  | zero => simp [membersRest] at h
  | succ fuel ih =>
    obtain ⟨_, name, _, _, _, v, _, -, -, -, -, -, ⟨-, rfl⟩ | ⟨_, -, hmore⟩⟩ := membersRest_step h
    · exact ⟨[(name, v)], List.reverse_cons⟩
    · obtain ⟨new, rfl⟩ := ih hmore
      exact ⟨(name, v) :: new, by simp⟩

/-- **What is read as members is written by the grammar,** when that holds of their values. -/
theorem exists_membersText
    {P : Json → Prop}
    (hV : ∀ t v rest, value t = .ok (v, rest) → P v → ∃ lit raw, t = lit ++ rest ∧ V lit raw v)
    {fuel : Nat} {done ws : List (Text × Json)} {t rest : Text}
    (h : membersRest value fuel done t = .ok (ws, rest)) (hws : ∀ w ∈ ws, P w.2)
    (hrest : skipSpace rest = []) (pos : Nat) :
    ∃ ms, MembersText V pos t ms ∧ ws = done.reverse ++ ms.map Member.pair := by
  induction fuel generalizing done t pos with
  | zero => simp [membersRest] at h
  | succ fuel ih =>
    obtain ⟨raw, name, w₁, w₂, t', v, after, rfl, hraw, hw₁, hw₂, hv, hnext⟩ := membersRest_step h
    -- the grammar has a value for what was read here, since it is among the members
    have hmem : (name, v) ∈ ws := by
      rcases hnext with ⟨-, rfl⟩ | ⟨_, -, hmore⟩
      · simp
      · obtain ⟨new, rfl⟩ := append_of_membersRest hmore
        simp
    obtain ⟨lit, rawValue, rfl, hlit⟩ := hV _ _ _ hv (hws _ hmem)
    have hm : IsMember V ⟨pos, raw, name, rawValue, v⟩ _ := .mk hraw hw₁ hw₂ hlit
    rcases hnext with ⟨hbrace, rfl⟩ | ⟨more, hcomma, hmore⟩
    · obtain ⟨w, hw, rfl⟩ := exists_of_skipSpace_eq hbrace
      refine ⟨[⟨pos, raw, name, rawValue, v⟩], ?_, ?_⟩
      · simpa using MembersText.last hm hw (allSpace_of_skipSpace_eq_nil hrest)
      · simp [Member.pair]
    · obtain ⟨w, hw, rfl⟩ := exists_of_skipSpace_eq hcomma
      obtain ⟨w', hw', hmore'⟩ := exists_eq_append_skipSpace more
      obtain ⟨ms, hms, rfl⟩ := ih hmore _
      refine ⟨⟨pos, raw, name, rawValue, v⟩ :: ms, ?_, ?_⟩
      · have hcut : w ++ .scalar ',' :: more = w ++ .scalar ',' :: w' ++ skipSpace more := by
          rw [List.append_assoc, List.cons_append, ← hmore']
        rw [hcut]
        simpa using MembersText.more hm hw hw' hms
      · simp [Member.pair]

/-! ## Reading scalars -/

theorem exists_of_named? {t rest : Text} {v : Json} (h : named? t = some (v, rest)) :
    ∃ name, (name, v) ∈ names ∧ t = ofString name ++ rest := by
  obtain ⟨⟨name, v'⟩, hmem, hname⟩ := List.exists_of_findSome?_eq_some h
  dsimp only at hname
  split at hname
  · next hprefix =>
    obtain ⟨rest', rfl⟩ := List.isPrefixOf_iff_prefix.1 hprefix
    rw [List.drop_left] at hname
    obtain ⟨rfl, rfl⟩ : v' = v ∧ rest' = rest := by simpa using hname
    exact ⟨name, hmem, rfl⟩
  · simp at hname

/-- **A scalar that is read is written by the grammar of scalars.** -/
theorem exists_scalarText {depth : Nat} (t : Text) (v : Json) (rest : Text)
    (h : readValue depth t = .ok (v, rest)) (hv : v.isScalar = true) :
    ∃ lit raw, t = lit ++ rest ∧ ScalarText lit raw v := by
  unfold readValue at h
  split at h
  · split at h
    · simp at h
    · next s rest' hs =>
      obtain ⟨rfl, rfl⟩ := Prod.mk.inj (Except.ok.inj h)
      obtain ⟨raw, ht, hraw⟩ := exists_spells_of_readString hs
      exact ⟨literal raw, some raw, ht, .string hraw⟩
  · split at h
    · simp at h
    · split at h
      · simp at h
      · obtain ⟨rfl, rfl⟩ := Prod.mk.inj (Except.ok.inj h)
        exact absurd hv (by simp [isScalar])
  · split at h
    · simp at h
    · split at h
      · simp at h
      · obtain ⟨rfl, rfl⟩ := Prod.mk.inj (Except.ok.inj h)
        exact absurd hv (by simp [isScalar])
  · split at h
    · next r hnamed =>
      obtain rfl := Except.ok.inj h
      obtain ⟨name, hname, rfl⟩ := exists_of_named? hnamed
      exact ⟨ofString name, none, rfl, .named hname⟩
    · obtain ⟨lit, rfl, rfl, hlit⟩ := isNumber_of_readNumber h
      exact ⟨lit, none, rfl, .number hlit⟩

/-! ## Reading a whole object -/

/-- The members, as they are written, of the object that a whole text is the JSON of. -/
def written? (t : Text) : Option (List (Text × Json)) :=
  match skipSpace t with
  | .scalar '\x7b' :: inside =>
    match readMembers (readValue (nestingLimit - 1)) inside with
    | .ok (ws, rest) => if (skipSpace rest).isEmpty then some ws else none
    | .error _ => none
  | _ => none

/-- No member of the object is written with an array or an object as its value. -/
def IsFlat (t : Text) : Prop := ∀ ws ∈ written? t, ∀ w ∈ ws, w.2.isScalar = true

instance (t : Text) : Decidable (IsFlat t) :=
  inferInstanceAs (Decidable (∀ ws ∈ written? t, ∀ w ∈ ws, w.2.isScalar = true))

/-- Only a text that begins with a brace is read as an object. -/
theorem exists_brace_of_readValue {depth : Nat} {t rest : Text} {members : List (Text × Json)}
    (h : readValue (depth + 1) t = .ok (.object members, rest)) :
    ∃ inside ws, t = .scalar '\x7b' :: inside ∧
      readMembers (readValue depth) inside = .ok (ws, rest) ∧ members = collectMembers ws := by
  unfold readValue at h
  split at h
  · split at h <;> simp at h
  · dsimp only at h
    split at h <;> simp at h
  · next inside =>
    dsimp only at h
    split at h
    · simp at h
    · next ws rest' hws =>
      obtain ⟨hm, rfl⟩ := Prod.mk.inj (Except.ok.inj h)
      exact ⟨inside, ws, rfl, hws, (Json.object.inj hm).symm⟩
  · split at h
    · next r hnamed =>
      obtain rfl := Except.ok.inj h
      obtain ⟨name, hname, -⟩ := exists_of_named? hnamed
      simp [names] at hname
    · obtain ⟨lit, -, hv, -⟩ := isNumber_of_readNumber h
      exact Json.noConfusion hv

/-- **An object that is parsed collects the members that are written.** -/
theorem exists_written_of_parse {t : Text} {members : List (Text × Json)}
    (h : parse t = .ok (.object members)) :
    ∃ ws, written? t = some ws ∧ members = collectMembers ws := by
  unfold parse at h
  split at h
  · simp at h
  · split at h
    · simp at h
    · next v rest hv =>
      split at h
      · next hrest =>
        obtain rfl := Except.ok.inj h
        obtain ⟨inside, ws, ht, hws, hm⟩ := exists_brace_of_readValue hv
        refine ⟨ws, ?_, hm⟩
        simp [written?, ht, hws, hrest, nestingLimit]
      · simp at h

/-- **An object is written by the grammar of objects,** with values by any grammar that the reader
of values obeys. -/
theorem exists_objectText {V : ValueGrammar} {P : Json → Prop}
    (hV : ∀ t v rest, readValue (nestingLimit - 1) t = .ok (v, rest) → P v →
      ∃ lit raw, t = lit ++ rest ∧ V lit raw v)
    {t : Text} {ws : List (Text × Json)} (h : written? t = some ws) (hws : ∀ w ∈ ws, P w.2) :
    ∃ ms, ObjectText V t ms ∧ ws = ms.map Member.pair := by
  unfold written? at h
  split at h
  · next inside hinside =>
    obtain ⟨w, hw, rfl⟩ := exists_of_skipSpace_eq hinside
    split at h
    · next ws' rest hread =>
      split at h
      · next hrest =>
        obtain rfl := Option.some.inj h
        rw [List.isEmpty_iff] at hrest
        unfold readMembers at hread
        split at hread
        · next hbrace =>
          obtain ⟨rfl, rfl⟩ := Prod.mk.inj (Except.ok.inj hread)
          obtain ⟨w', hw', rfl⟩ := exists_of_skipSpace_eq hbrace
          exact ⟨[], .empty hw hw' (allSpace_of_skipSpace_eq_nil hrest), rfl⟩
        · obtain ⟨w', hw', hinside'⟩ := exists_eq_append_skipSpace inside
          obtain ⟨ms, hms, rfl⟩ := exists_membersText hV hread hws hrest
            (w ++ .scalar '\x7b' :: w').length
          refine ⟨ms, ?_, rfl⟩
          have htext := ObjectText.members hw hw' hms
          rw [List.append_assoc, List.cons_append, ← hinside'] at htext
          exact htext
      · simp at h
    · simp at h
  · simp at h

theorem exists_objectText_of_written {t : Text} {ws : List (Text × Json)}
    (h : written? t = some ws) (hflat : ∀ w ∈ ws, w.2.isScalar = true) :
    ∃ ms, ObjectText ScalarText t ms ∧ ws = ms.map Member.pair :=
  exists_objectText exists_scalarText h hflat

end LangFile.Json

import LangFile.Proofs.Json.Members

/-!
# The grammar of JSON texts

The texts of values of any kind, nested to any depth, each with the literals in it, in order: where
the opening quotation mark of a literal stands, and its body. A literal is the name of a member, or
a string that is a value.

1. The grammar of the parts of a text (`PartText`), and of a whole text (`JsonText`).
2. Each reader reads such a part (`readsPart_readValue`).
3. A text that is parsed is written by the grammar (`exists_jsonText_of_parse`).
-/

namespace LangFile.Json

open Text

/-! ## The grammar -/

/-- A literal of a text: the offset of its opening quotation mark, and its body. -/
structure Literal where
  start : Nat
  body : Text
deriving DecidableEq

/-- The brackets of arrays, and those of objects. -/
inductive Bracket
  | square
  | curly

/-- The parts of a text. -/
inductive Part
  | value
  | member
  /-- What brackets hold, from the first element to the closing bracket. -/
  | inside (b : Bracket)

namespace Bracket

def opening : Bracket → CodePoint
  | square => .scalar '['
  | curly => .scalar '\x7b'

def closing : Bracket → CodePoint
  | square => .scalar ']'
  | curly => .scalar '\x7d'

/-- What commas part between the brackets. -/
def element : Bracket → Part
  | square => .value
  | curly => .member

end Bracket

/-- The texts of a part that stands at an offset, with the literals in it. -/
inductive PartText : Part → Nat → Text → List Literal → Prop
  | scalar {pos : Nat} {lit : Text} {raw : Option Text} {v : Json} :
      ScalarText lit raw v → PartText .value pos lit (raw.toList.map fun body => ⟨pos, body⟩)
  | empty {b : Bracket} {pos : Nat} {w : Text} :
      AllSpace w → PartText .value pos (b.opening :: (w ++ [b.closing])) []
  | bracketed {b : Bracket} {pos : Nat} {w t : Text} {ls : List Literal} :
      AllSpace w → PartText (.inside b) (pos + (b.opening :: w).length) t ls →
      PartText .value pos (b.opening :: w ++ t) ls
  | member {pos : Nat} {raw name w w' t : Text} {ls : List Literal} :
      Spells raw name → AllSpace w → AllSpace w' →
      PartText .value (pos + (literal raw ++ (w ++ .scalar ':' :: w')).length) t ls →
      PartText .member pos (literal raw ++ (w ++ .scalar ':' :: w') ++ t) (⟨pos, raw⟩ :: ls)
  | last {b : Bracket} {pos : Nat} {t w : Text} {ls : List Literal} :
      PartText b.element pos t ls → AllSpace w →
      PartText (.inside b) pos (t ++ (w ++ [b.closing])) ls
  | more {b : Bracket} {pos : Nat} {t w w' rest : Text} {ls ls' : List Literal} :
      PartText b.element pos t ls → AllSpace w → AllSpace w' →
      PartText (.inside b) (pos + (t ++ (w ++ .scalar ',' :: w')).length) rest ls' →
      PartText (.inside b) pos (t ++ (w ++ .scalar ',' :: w') ++ rest) (ls ++ ls')

/-- The texts of a value with white space around it, with the literals in them. -/
inductive JsonText : Text → List Literal → Prop
  | mk {w t w' : Text} {ls : List Literal} :
      AllSpace w → PartText .value w.length t ls → AllSpace w' → JsonText (w ++ (t ++ w')) ls

/-! ## Reading parts -/

/-- The text is such a part, wherever it stands. -/
def IsPart (part : Part) (t : Text) : Prop := ∀ pos, ∃ ls, PartText part pos t ls

/-- What is read is such a part. -/
def ReadsPart {α : Type} (part : Part) (read : Reader α) : Prop :=
  ∀ {t a rest}, read t = .ok (a, rest) → ∃ u, t = u ++ rest ∧ IsPart part u

variable {b : Bracket} {value : Reader Json}

/-- The last element is followed by the closing bracket. -/
theorem IsPart.last {t after rest : Text} (ht : IsPart b.element t)
    (h : skipSpace after = b.closing :: rest) :
    ∃ u, t ++ after = u ++ rest ∧ IsPart (.inside b) u := by
  obtain ⟨w, hw, rfl⟩ := exists_of_skipSpace_eq h
  refine ⟨t ++ (w ++ [b.closing]), by simp, fun pos => ?_⟩
  obtain ⟨ls, hls⟩ := ht pos
  exact ⟨ls, .last hls hw⟩

/-- Any other element is followed by a comma and the elements behind it. -/
theorem IsPart.more {t after more rest : Text} (ht : IsPart b.element t)
    (h : skipSpace after = .scalar ',' :: more)
    (hmore : ∃ u, skipSpace more = u ++ rest ∧ IsPart (.inside b) u) :
    ∃ u, t ++ after = u ++ rest ∧ IsPart (.inside b) u := by
  obtain ⟨w, hw, rfl⟩ := exists_of_skipSpace_eq h
  obtain ⟨u, hu, hinside⟩ := hmore
  obtain ⟨w', hw', rfl⟩ := exists_of_skipSpace_eq hu
  refine ⟨t ++ (w ++ .scalar ',' :: w') ++ u, by simp, fun pos => ?_⟩
  obtain ⟨ls, hls⟩ := ht pos
  obtain ⟨ls', hls'⟩ := hinside (pos + (t ++ (w ++ .scalar ',' :: w')).length)
  exact ⟨ls ++ ls', .more hls hw hw' hls'⟩

/-- Behind an opening bracket stands the closing one, or the first element. -/
theorem isPart_value_of_inside {inside rest : Text}
    (h : skipSpace inside = b.closing :: rest ∨
      ∃ u, skipSpace inside = u ++ rest ∧ IsPart (.inside b) u) :
    ∃ u, b.opening :: inside = u ++ rest ∧ IsPart .value u := by
  rcases h with hclosing | ⟨u, hu, hinside⟩
  · obtain ⟨w, hw, rfl⟩ := exists_of_skipSpace_eq hclosing
    exact ⟨b.opening :: (w ++ [b.closing]), by simp, fun pos => ⟨[], .empty hw⟩⟩
  · obtain ⟨w, hw, rfl⟩ := exists_of_skipSpace_eq hu
    refine ⟨b.opening :: w ++ u, by simp, fun pos => ?_⟩
    obtain ⟨ls, hls⟩ := hinside (pos + (b.opening :: w).length)
    exact ⟨ls, .bracketed hw hls⟩

/-- **One step of an array:** an item, and then the bracket or a comma and the other items. -/
theorem readsPart_itemsRest (hvalue : ReadsPart .value value) (fuel : Nat) (done : List Json) :
    ReadsPart (.inside .square) (itemsRest value fuel done) := by
  induction fuel generalizing done with
  | zero =>
    intro t vs rest h
    simp [itemsRest] at h
  | succ fuel ih =>
    intro t vs rest h
    rw [itemsRest] at h
    split at h
    · simp at h
    · next v after hv =>
      obtain ⟨lit, rfl, hlit⟩ := hvalue hv
      split at h
      · next hbracket =>
        obtain ⟨-, rfl⟩ := Prod.mk.inj (Except.ok.inj h)
        exact IsPart.last hlit hbracket
      · next more hcomma => exact IsPart.more hlit hcomma (ih (v :: done) h)
      · simp at h

/-- **One step of an object:** a member, and then the brace or a comma and the other members. -/
theorem readsPart_membersRest (hvalue : ReadsPart .value value) (fuel : Nat)
    (done : List (Text × Json)) : ReadsPart (.inside .curly) (membersRest value fuel done) := by
  induction fuel generalizing done with
  | zero =>
    intro t ms rest h
    simp [membersRest] at h
  | succ fuel ih =>
    intro t ms rest h
    obtain ⟨raw, name, w, w', t', v, after, rfl, hname, hw, hw', hv, hnext⟩ := membersRest_step h
    obtain ⟨lit, rfl, hlit⟩ := hvalue hv
    have hmember : IsPart .member (literal raw ++ (w ++ .scalar ':' :: w') ++ lit) := by
      intro pos
      obtain ⟨ls, hls⟩ := hlit (pos + (literal raw ++ (w ++ .scalar ':' :: w')).length)
      exact ⟨_, .member hname hw hw' hls⟩
    have hcut : literal raw ++ (w ++ .scalar ':' :: (w' ++ (lit ++ after)))
        = literal raw ++ (w ++ .scalar ':' :: w') ++ lit ++ after := by
      simp
    rw [hcut]
    rcases hnext with ⟨hbrace, -⟩ | ⟨more, hcomma, hmore⟩
    · exact IsPart.last (b := .curly) hmember hbrace
    · exact IsPart.more (b := .curly) hmember hcomma (ih _ hmore)

theorem inside_of_readItems (hvalue : ReadsPart .value value) {t rest : Text} {vs : List Json}
    (h : readItems value t = .ok (vs, rest)) :
    skipSpace t = .scalar ']' :: rest ∨
      ∃ u, skipSpace t = u ++ rest ∧ IsPart (.inside .square) u := by
  rw [readItems] at h
  split at h
  · next hbracket =>
    obtain ⟨-, rfl⟩ := Prod.mk.inj (Except.ok.inj h)
    exact Or.inl hbracket
  · exact Or.inr (readsPart_itemsRest hvalue _ _ h)

theorem inside_of_readMembers (hvalue : ReadsPart .value value) {t rest : Text}
    {ms : List (Text × Json)} (h : readMembers value t = .ok (ms, rest)) :
    skipSpace t = .scalar '\x7d' :: rest ∨
      ∃ u, skipSpace t = u ++ rest ∧ IsPart (.inside .curly) u := by
  rw [readMembers] at h
  split at h
  · next hbrace =>
    obtain ⟨-, rfl⟩ := Prod.mk.inj (Except.ok.inj h)
    exact Or.inl hbrace
  · exact Or.inr (readsPart_membersRest hvalue _ _ h)

/-- What is read as an array or an object stands behind its bracket or its brace, and was read with
one level less. -/
theorem exists_inside_of_readValue {depth : Nat} {t rest : Text} {v : Json}
    (h : readValue depth t = .ok (v, rest)) (hv : v.isScalar = false) :
    ∃ inside d, depth = d + 1 ∧
      ((t = .scalar '[' :: inside ∧ ∃ vs, readItems (readValue d) inside = .ok (vs, rest)) ∨
        t = .scalar '\x7b' :: inside ∧
          ∃ ms, readMembers (readValue d) inside = .ok (ms, rest)) := by
  unfold readValue at h
  split at h
  · split at h
    · simp at h
    · obtain ⟨rfl, -⟩ := Prod.mk.inj (Except.ok.inj h)
      simp [isScalar] at hv
  · next inside =>
    split at h
    · simp at h
    · next d =>
      split at h
      · simp at h
      · next vs _ hitems =>
        obtain ⟨-, rfl⟩ := Prod.mk.inj (Except.ok.inj h)
        exact ⟨inside, d, rfl, Or.inl ⟨rfl, vs, hitems⟩⟩
  · next inside =>
    split at h
    · simp at h
    · next d =>
      split at h
      · simp at h
      · next ms _ hmembers =>
        obtain ⟨-, rfl⟩ := Prod.mk.inj (Except.ok.inj h)
        exact ⟨inside, d, rfl, Or.inr ⟨rfl, ms, hmembers⟩⟩
  · split at h
    · next r hnamed =>
      obtain rfl := Except.ok.inj h
      obtain ⟨name, hname, -⟩ := exists_of_named? hnamed
      have hall : ∀ nv ∈ names, nv.2.isScalar = true := by decide
      rw [hall _ hname] at hv
      exact Bool.noConfusion hv
    · obtain ⟨lit, -, rfl, -⟩ := isNumber_of_readNumber h
      simp [isScalar] at hv

/-- **Every value that is read is written by the grammar,** however deep it nests. -/
theorem readsPart_readValue (depth : Nat) : ReadsPart .value (readValue depth) := by
  induction depth using Nat.strongRecOn with
  | _ depth ih =>
    intro t v rest h
    cases hv : v.isScalar with
    | true =>
      obtain ⟨lit, raw, rfl, hlit⟩ := exists_scalarText t v rest h hv
      exact ⟨lit, rfl, fun pos => ⟨_, .scalar hlit⟩⟩
    | false =>
      obtain ⟨inside, d, rfl, ⟨rfl, vs, hitems⟩ | ⟨rfl, ms, hmembers⟩⟩ :=
        exists_inside_of_readValue h hv
      · have hinside := inside_of_readItems (ih d (Nat.lt_succ_self d)) hitems
        exact isPart_value_of_inside (b := .square) hinside
      · have hinside := inside_of_readMembers (ih d (Nat.lt_succ_self d)) hmembers
        exact isPart_value_of_inside (b := .curly) hinside

/-! ## Whole texts -/

/-- **A text that is parsed is written by the grammar.** -/
theorem exists_jsonText_of_parse {t : Text} {v : Json} (h : parse t = .ok v) :
    ∃ ls, JsonText t ls := by
  unfold parse at h
  split at h
  · simp at h
  · split at h
    · simp at h
    · next v' rest hv =>
      obtain ⟨u, hu, hpart⟩ := readsPart_readValue _ hv
      obtain ⟨w, hw, rfl⟩ := exists_of_skipSpace_eq hu
      obtain ⟨ls, hls⟩ := hpart w.length
      split at h
      · next hrest => exact ⟨ls, .mk hw hls (allSpace_of_skipSpace_eq_nil hrest)⟩
      · simp at h

end LangFile.Json

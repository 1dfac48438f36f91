import LangFile.Json.Quote
import LangFile.Proofs.Json.Members

/-!
# What is written is read

A string that is written as JSON is read back as itself, and so is an object whose members are
written with strings for values.

1. Strings: what `escape` writes for a character spells that character (`spells_flatMap_escape`).
2. Objects: the grammar against the reader, in the direction from the grammar
   (`ObjectText.parse_eq_ok`).
-/

namespace LangFile.Json

open Text

/-! ## Strings -/

theorem ofUnit_toNat {c : CodePoint} (h : c.toNat < 0x20) : ofUnit c.toNat = c := by
  cases c with
  | surrogate n =>
    have hlow : 0xD800 ≤ (CodePoint.surrogate n).toNat := Nat.le_add_right _ _
    omega
  | scalar c =>
    have hlt : c.toNat < 0xD800 := Nat.lt_trans h (by decide)
    rw [CodePoint.toNat_scalar, ofUnit, CodePoint.ofNat?, dif_pos (Or.inl hlt)]
    rfl

/-- The four digits of a control character. -/
theorem unitValue?_twoHex {n : Nat} (h : n < 0x20) :
    unitValue? ([.scalar '0', .scalar '0'] ++ twoHex n) = some n := by
  have hall : ∀ k : Fin 0x20,
      unitValue? ([.scalar '0', .scalar '0'] ++ twoHex k.val) = some k.val := by
    decide
  exact hall ⟨n, h⟩

/-- **A character is spelled by what is written for it.** -/
theorem Spells.escape_append {raw s : Text} (h : Spells raw s) (c : CodePoint) :
    Spells (escape c ++ raw) (c :: s) := by
  unfold escape
  split
  · exact .simple rfl h
  · exact .simple rfl h
  · exact .simple rfl h
  · exact .simple rfl h
  · exact .simple rfl h
  · exact .simple rfl h
  · exact .simple rfl h
  · next hquote hbackslash _ _ _ _ _ =>
    split
    · next hcontrol =>
      have hunit := unitValue?_twoHex hcontrol
      -- a control character is no surrogate, so what follows does not matter
      have hlow : isHigh c.toNat = true → ¬ BeginsLow raw := by
        intro hhigh
        simp only [isHigh, Bool.and_eq_true, decide_eq_true_eq] at hhigh
        omega
      have hspells := Spells.unit hunit hlow h
      rw [ofUnit_toNat hcontrol] at hspells
      exact hspells
    · next hcontrol => exact .plain hquote hbackslash (Nat.le_of_not_lt hcontrol) h

/-- **A string is spelled by what is written for it.** -/
theorem spells_flatMap_escape (s : Text) : Spells (s.flatMap escape) s := by
  induction s with
  | nil => exact .nil
  | cons c s ih =>
    rw [List.flatMap_cons]
    exact ih.escape_append c

theorem Spells.eq_nil {raw : Text} (h : Spells raw []) : raw = [] := by
  cases h
  rfl

theorem quote_eq_literal (s : Text) : quote s = literal (s.flatMap escape) := rfl

/-! ## Objects of strings -/

/-- The texts of a string. -/
inductive StringText : ValueGrammar
  | mk {raw s : Text} : Spells raw s → StringText (literal raw) (some raw) (.string s)

theorem StringText.scalarText {lit : Text} {raw : Option Text} {v : Json}
    (h : StringText lit raw v) : ScalarText lit raw v := by
  cases h with
  | mk hs => exact .string hs

section

variable {V V' : ValueGrammar} (hV : ∀ {lit raw v}, V lit raw v → V' lit raw v)
include hV

theorem IsMember.mono {m : Member} {t : Text} (h : IsMember V m t) : IsMember V' m t := by
  cases h with
  | mk hname hw₁ hw₂ hlit => exact .mk hname hw₁ hw₂ (hV hlit)

theorem MembersText.mono {pos : Nat} {t : Text} {ms : List Member} (h : MembersText V pos t ms) :
    MembersText V' pos t ms := by
  induction h with
  | last hm hw hw' => exact .last (hm.mono hV) hw hw'
  | more hm hw hw' _ ih => exact .more (hm.mono hV) hw hw' ih

theorem ObjectText.mono {t : Text} {ms : List Member} (h : ObjectText V t ms) :
    ObjectText V' t ms := by
  cases h with
  | empty hw hw' hw'' => exact .empty hw hw' hw''
  | members hw hw' hms => exact .members hw hw' (hms.mono hV)

end

theorem skipSpace_append {w : Text} (h : AllSpace w) (t : Text) :
    skipSpace (w ++ t) = skipSpace t := by
  rw [skipSpace, List.dropWhile_append_of_pos h, skipSpace]

theorem skipSpace_cons {c : CodePoint} (h : isSpace c = false) (t : Text) :
    skipSpace (c :: t) = c :: t := by
  rw [skipSpace, List.dropWhile_cons_of_neg (by simp [h])]

theorem skipSpace_eq_nil {w : Text} (h : AllSpace w) : skipSpace w = [] := by
  have happend := skipSpace_append h []
  rwa [List.append_nil] at happend

/-- The literal of a spelled body is read as a string, whatever follows. -/
theorem Spells.readValue_literal {raw s : Text} (h : Spells raw s) (depth : Nat) (rest : Text) :
    readValue depth (literal raw ++ rest) = .ok (.string s, rest) := by
  have hread := h.readString_literal rest
  rw [literal_append] at hread ⊢
  rw [readValue, hread]

/-- **One step of the reader,** at a member that the grammar has. -/
theorem IsMember.membersRest_append {m : Member} {t : Text} (h : IsMember StringText m t)
    (depth fuel : Nat) (done : List (Text × Json)) (u : Text) :
    membersRest (readValue depth) (fuel + 1) done (t ++ u) =
      match skipSpace u with
      | .scalar '\x7d' :: after => .ok ((m.pair :: done).reverse, after)
      | .scalar ',' :: more => membersRest (readValue depth) fuel (m.pair :: done) (skipSpace more)
      | other => .error (.malformed .comma other) := by
  obtain ⟨start, rawName, name, rawValue, value⟩ := m
  obtain @⟨w₁, w₂, _, hname, hw₁, hw₂, hvalue⟩ := h
  obtain @⟨raw, s, hs⟩ := hvalue
  have hread := hname.readString_literal (w₁ ++ .scalar ':' :: (w₂ ++ (literal raw ++ u)))
  have hcolon : skipSpace (w₁ ++ .scalar ':' :: (w₂ ++ (literal raw ++ u)))
      = .scalar ':' :: (w₂ ++ (literal raw ++ u)) := by
    rw [skipSpace_append hw₁, skipSpace_cons (by decide)]
  have hquote : skipSpace (w₂ ++ (literal raw ++ u)) = literal raw ++ u := by
    rw [skipSpace_append hw₂, literal_append, skipSpace_cons (by decide)]
  simp only [List.append_assoc, List.cons_append]
  rw [literal_append] at hread ⊢
  simp only [membersRest, hread, hcolon, hquote, hs.readValue_literal]
  rfl

/-- Members begin with a quotation mark, that of the first name. -/
theorem MembersText.exists_quotationMark {V : ValueGrammar} {pos : Nat} {t : Text}
    {ms : List Member} (h : MembersText V pos t ms) : ∃ u, t = .scalar '"' :: u := by
  cases h with
  | last hm _ _ =>
    cases hm with
    | mk _ _ _ _ => exact ⟨_, rfl⟩
  | more hm _ _ _ =>
    cases hm with
    | mk _ _ _ _ => exact ⟨_, rfl⟩

theorem MembersText.skipSpace_eq {V : ValueGrammar} {pos : Nat} {t : Text} {ms : List Member}
    (h : MembersText V pos t ms) : skipSpace t = t := by
  obtain ⟨u, rfl⟩ := h.exists_quotationMark
  exact skipSpace_cons (by decide) u

/-- **The members of the grammar are read,** when the fuel lasts for all of them. -/
theorem MembersText.exists_membersRest {pos : Nat} {t : Text} {ms : List Member}
    (h : MembersText StringText pos t ms) (depth : Nat) {fuel : Nat} (hfuel : t.length ≤ fuel)
    (done : List (Text × Json)) :
    ∃ rest, membersRest (readValue depth) fuel done t
        = .ok (done.reverse ++ ms.map Member.pair, rest) ∧ skipSpace rest = [] := by
  induction h generalizing fuel done with
  | @last m t w w' hm hw hw' =>
    obtain ⟨fuel, rfl⟩ : ∃ k, fuel = k + 1 :=
      Nat.exists_eq_succ_of_ne_zero (by simp at hfuel; omega)
    refine ⟨w', ?_, skipSpace_eq_nil hw'⟩
    rw [hm.membersRest_append, skipSpace_append hw, skipSpace_cons (by decide)]
    simp
  | @more m t w w' rest ms hm hw hw' hms ih =>
    obtain ⟨fuel, rfl⟩ : ∃ k, fuel = k + 1 :=
      Nat.exists_eq_succ_of_ne_zero (by simp at hfuel; omega)
    have hrest : rest.length ≤ fuel := by
      simp at hfuel
      omega
    obtain ⟨last, hread, hlast⟩ := ih hrest (m.pair :: done)
    refine ⟨last, ?_, hlast⟩
    have hmore : skipSpace (w' ++ rest) = rest := by
      rw [skipSpace_append hw', hms.skipSpace_eq]
    have hcomma : skipSpace (w ++ .scalar ',' :: (w' ++ rest)) = .scalar ',' :: (w' ++ rest) := by
      rw [skipSpace_append hw, skipSpace_cons (by decide)]
    rw [List.append_assoc, hm.membersRest_append, List.append_assoc, List.cons_append, hcomma]
    simp only [hmore, hread, List.reverse_cons, List.map_cons, List.append_assoc,
      List.singleton_append]

/-- A text is parsed as an object when its members are read and only white space is left. -/
theorem parse_brace {w inside rest : Text} {ws : List (Text × Json)} (hw : AllSpace w)
    (hread : readMembers (readValue (nestingLimit - 1)) inside = .ok (ws, rest))
    (hrest : skipSpace rest = []) :
    parse (w ++ .scalar '\x7b' :: inside) = .ok (.object (collectMembers ws)) := by
  have hskip : skipSpace (w ++ .scalar '\x7b' :: inside) = .scalar '\x7b' :: inside := by
    rw [skipSpace_append hw, skipSpace_cons (by decide)]
  have hvalue : readValue nestingLimit (.scalar '\x7b' :: inside)
      = .ok (.object (collectMembers ws), rest) := by
    rw [nestingLimit, readValue]
    rw [show readValue 989 = readValue (nestingLimit - 1) from rfl, hread]
  unfold parse
  split
  · next u hmark =>
    -- neither white space nor a brace is a byte order mark
    cases w with
    | nil => exact absurd (List.cons.inj hmark).1 (by decide)
    | cons c w =>
      have hc := hw c List.mem_cons_self
      rw [(List.cons.inj hmark).1] at hc
      exact absurd hc (by decide)
  · rw [hskip, hvalue]
    dsimp only
    rw [hrest]

/-- **An object of strings is parsed as its members say,** with each name once. -/
theorem ObjectText.parse_eq_ok {t : Text} {ms : List Member} (h : ObjectText StringText t ms) :
    parse t = .ok (.object (collectMembers (ms.map Member.pair))) := by
  cases h with
  | @empty w w' w'' hw hw' hw'' =>
    refine parse_brace hw ?_ (skipSpace_eq_nil hw'')
    rw [readMembers, skipSpace_append hw', skipSpace_cons (by decide)]
    rfl
  | @members w w' t ms hw hw' hms =>
    obtain ⟨rest, hread, hrest⟩ :=
      hms.exists_membersRest (nestingLimit - 1) (Nat.le_refl t.length) []
    obtain ⟨u, rfl⟩ := hms.exists_quotationMark
    rw [List.append_assoc, List.cons_append]
    refine parse_brace hw ?_ hrest
    rw [readMembers, skipSpace_append hw', skipSpace_cons (by decide)]
    exact hread

end LangFile.Json

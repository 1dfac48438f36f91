import LangFile.Proofs.Format.Segmentation

/-!
# The state that codes lead to

A colour or a reset clears whatever was set before it. So the state behind a sequence of codes is
made of the codes that last to its end: the last colour, when no reset follows it, and the modifiers
behind the last colour or reset.

1. One code: what it brings into effect and what it leaves there (`IsEffect`).
2. A sequence of codes, by induction on it (`IsEffect.foldl_iff`), and when two sequences lead to the
   same state (`foldl_eq_of_same_modifiers`).
3. Both together (`stateAfter_lasts`).
-/

namespace LangFile

open FormattingCode (lookup)
open Place (stateAfter)

/-! ## One code -/

namespace FormattingCode

/-- The code clears what was set before it: it is a colour or the reset. The other codes are the
modifiers. -/
def clears (code : FormattingCode) : Bool := code.isColor || code = .reset

theorem lookup_toUpper (code : FormattingCode) : lookup (.scalar code.char.toUpper) = some code := by
  cases code <;> decide

theorem color_of_not_clears {code : FormattingCode} (h : code.clears = false) :
    code.color = none := by
  cases code <;> first | rfl | exact absurd h (by decide)

end FormattingCode

namespace FormattingState

/-- The flag of a modifier. -/
def has (s : FormattingState) : FormattingCode → Bool
  | .bold => s.bold
  | .italic => s.italic
  | .strikethrough => s.strikethrough
  | .underline => s.underline
  | .obfuscated => s.obfuscated
  | _ => false

theorem has_of_color (color : Option HexColor) (modifier : FormattingCode) :
    ({ color } : FormattingState).has modifier = false := by
  cases modifier <;> rfl

theorem apply_of_clears {code : FormattingCode} (h : code.clears = true) (s : FormattingState) :
    s.apply code = { color := code.color.map .ofRgb } := by
  rcases Bool.or_eq_true_iff.1 h with hcolor | hreset
  · exact apply_of_isColor hcolor s
  · rw [of_decide_eq_true hreset]
    rfl

theorem color_apply_modifier {code : FormattingCode} (h : code.clears = false)
    (s : FormattingState) : (s.apply code).color = s.color := by
  cases code <;> first | rfl | exact absurd h (by decide)

theorem has_apply_modifier {code : FormattingCode} (h : code.clears = false)
    (s : FormattingState) (modifier : FormattingCode) :
    (s.apply code).has modifier = (decide (code = modifier) || s.has modifier) := by
  cases code <;> first | exact absurd h (by decide) | cases modifier <;> rfl

/-- A property of states that some codes bring about, and that colours and the reset end unless they
bring it about themselves. -/
structure IsEffect (InEffect : FormattingState → Prop) (Brings : FormattingCode → Prop) : Prop where
  default : ¬ InEffect .default
  apply : ∀ s code, InEffect (s.apply code) ↔ Brings code ∨ (InEffect s ∧ code.clears = false)

/-- A colour is in effect behind a code that sets it. -/
theorem isEffect_color (color : HexColor) :
    IsEffect (fun s => s.color = some color) fun code => code.color.map .ofRgb = some color where
  default := nofun
  apply s code := by
    cases hclears : code.clears with
    | true => simp [apply_of_clears hclears]
    | false => simp [color_apply_modifier hclears, FormattingCode.color_of_not_clears hclears]

/-- A modifier is in effect behind its own code. -/
theorem isEffect_has {modifier : FormattingCode} (h : modifier.clears = false) :
    IsEffect (fun s => s.has modifier = true) fun code => code = modifier where
  default := by simp [default, has_of_color]
  apply s code := by
    cases hclears : code.clears with
    | true =>
      -- What clears every flag is no modifier, so it is not the one that sets this flag.
      have hne : code ≠ modifier := by
        rintro rfl
        rw [h] at hclears
        exact Bool.noConfusion hclears
      simp [apply_of_clears hclears, has_of_color, hne]
    | false => simp [has_apply_modifier hclears]

/-- States in which the same is in effect are the same. -/
theorem eq_of_same_effects {s s' : FormattingState}
    (h : ∀ InEffect Brings, IsEffect InEffect Brings → (InEffect s ↔ InEffect s')) : s = s' := by
  have hcolor : s.color = s'.color :=
    Option.ext fun color => h _ _ (isEffect_color color)
  have hflag (modifier : FormattingCode) (hm : modifier.clears = false) :
      s.has modifier = s'.has modifier :=
    Bool.eq_iff_iff.2 (h _ _ (isEffect_has hm))
  have hbold : s.bold = s'.bold := hflag .bold rfl
  have hitalic : s.italic = s'.italic := hflag .italic rfl
  have hstrikethrough : s.strikethrough = s'.strikethrough := hflag .strikethrough rfl
  have hunderline : s.underline = s'.underline := hflag .underline rfl
  have hobfuscated : s.obfuscated = s'.obfuscated := hflag .obfuscated rfl
  cases s
  cases s'
  simp_all

end FormattingState

/-! ## A sequence of codes -/

/-- None of the characters stands for a colour or the reset. -/
def ClearsNothing (cs : List CodePoint) : Prop :=
  ∀ c ∈ cs, ∀ code ∈ lookup c, code.clears = false

instance (cs : List CodePoint) : Decidable (ClearsNothing cs) :=
  inferInstanceAs (Decidable (∀ c ∈ cs, ∀ code ∈ lookup c, code.clears = false))

/-- The code stands in the sequence, and no colour or reset stands behind it. -/
def Lasts (code : FormattingCode) (cs : List CodePoint) : Prop :=
  ∃ before c after, cs = before ++ c :: after ∧ lookup c = some code ∧ ClearsNothing after

theorem clearsNothing_cons {c : CodePoint} {cs : List CodePoint} :
    ClearsNothing (c :: cs) ↔ (∀ code ∈ lookup c, code.clears = false) ∧ ClearsNothing cs :=
  List.forall_mem_cons

theorem not_lasts_nil (code : FormattingCode) : ¬ Lasts code [] := by
  rintro ⟨before, c, after, h, -⟩
  simp at h

theorem lasts_cons {code : FormattingCode} {c : CodePoint} {cs : List CodePoint} :
    Lasts code (c :: cs) ↔ (lookup c = some code ∧ ClearsNothing cs) ∨ Lasts code cs := by
  constructor
  · rintro ⟨before, d, after, h, hd, hafter⟩
    cases before with
    | nil =>
      obtain ⟨rfl, rfl⟩ := List.cons.inj h
      exact Or.inl ⟨hd, hafter⟩
    | cons e before =>
      obtain ⟨rfl, rfl⟩ := List.cons.inj h
      exact Or.inr ⟨before, d, after, rfl, hd, hafter⟩
  · rintro (⟨hc, hcs⟩ | ⟨before, d, after, rfl, hd, hafter⟩)
    · exact ⟨[], c, cs, rfl, hc, hcs⟩
    · exact ⟨c :: before, d, after, rfl, hd, hafter⟩

/-- Where nothing is cleared, every code lasts. -/
theorem ClearsNothing.lasts_iff {cs : List CodePoint} (h : ClearsNothing cs)
    (code : FormattingCode) : Lasts code cs ↔ code ∈ cs.filterMap lookup := by
  rw [List.mem_filterMap]
  constructor
  · rintro ⟨before, c, after, rfl, hc, -⟩
    exact ⟨c, List.mem_append_right before List.mem_cons_self, hc⟩
  · rintro ⟨c, hmem, hc⟩
    obtain ⟨before, after, rfl⟩ := List.append_of_mem hmem
    exact ⟨before, c, after, rfl, hc, fun d hd =>
      h d (List.mem_append_right before (List.mem_cons_of_mem c hd))⟩

namespace FormattingState

variable {InEffect : FormattingState → Prop} {Brings : FormattingCode → Prop}

/-- **One character** brings about what its code does, if it stands for one. -/
theorem IsEffect.applyChar_iff (h : IsEffect InEffect Brings) (s : FormattingState)
    (c : CodePoint) :
    InEffect (s.applyChar c) ↔
      (∃ code ∈ lookup c, Brings code) ∨ (InEffect s ∧ ∀ code ∈ lookup c, code.clears = false) := by
  unfold applyChar
  cases lookup c with
  | none => simp
  | some code => simp [h.apply]

/-- **A sequence** brings about what the codes do that last to its end, and what was in effect
before it stays so when it clears nothing. -/
theorem IsEffect.foldl_iff (h : IsEffect InEffect Brings) (cs : List CodePoint)
    (s : FormattingState) :
    InEffect (cs.foldl applyChar s) ↔
      (∃ code, Brings code ∧ Lasts code cs) ∨ (InEffect s ∧ ClearsNothing cs) := by
  induction cs generalizing s with
  | nil => simp [not_lasts_nil, ClearsNothing]
  | cons c cs ih =>
    rw [List.foldl_cons, ih, h.applyChar_iff, clearsNothing_cons]
    constructor
    · rintro (⟨code, hbrings, hlasts⟩ | ⟨⟨code, hc, hbrings⟩ | ⟨hs, hc⟩, hcs⟩)
      · exact Or.inl ⟨code, hbrings, lasts_cons.2 (Or.inr hlasts)⟩
      · exact Or.inl ⟨code, hbrings, lasts_cons.2 (Or.inl ⟨hc, hcs⟩)⟩
      · exact Or.inr ⟨hs, hc, hcs⟩
    · rintro (⟨code, hbrings, hlasts⟩ | ⟨hs, hc, hcs⟩)
      · rcases lasts_cons.1 hlasts with ⟨hc, hcs⟩ | hlasts
        · exact Or.inr ⟨Or.inl ⟨code, hc, hbrings⟩, hcs⟩
        · exact Or.inl ⟨code, hbrings, hlasts⟩
      · exact Or.inr ⟨Or.inr ⟨hs, hc⟩, hcs⟩

/-- **What is in effect behind a sequence of codes** is what the codes bring about that last to its
end. -/
theorem IsEffect.stateAfter_iff (h : IsEffect InEffect Brings) (cs : List CodePoint) :
    InEffect (stateAfter cs) ↔ ∃ code, Brings code ∧ Lasts code cs := by
  rw [stateAfter, h.foldl_iff]
  simp [h.default]

/-- Modifiers lead to the same state in any order and number. -/
theorem foldl_eq_of_same_modifiers {cs cs' : List CodePoint} (h : ClearsNothing cs)
    (h' : ClearsNothing cs')
    (hsame : ∀ code, code ∈ cs.filterMap lookup ↔ code ∈ cs'.filterMap lookup)
    (s : FormattingState) : cs.foldl applyChar s = cs'.foldl applyChar s := by
  refine eq_of_same_effects fun InEffect Brings heffect => ?_
  simp only [heffect.foldl_iff, h.lasts_iff, h'.lasts_iff, hsame, h, h']

theorem applyChar_of_unknown {c : CodePoint} (h : lookup c = none) (s : FormattingState) :
    s.applyChar c = s := by
  rw [applyChar, h]

theorem applyChar_of_reset {c : CodePoint} (h : lookup c = some .reset) (s : FormattingState) :
    s.applyChar c = default := by
  rw [applyChar, h]
  rfl

end FormattingState

/-! ## Both -/

/--
**The state behind a sequence of codes.** Each code is written in either letter case. The colour is
that of the code with a colour behind which no other colour and no reset stands, and it is unset when
there is none; a modifier is set exactly when its code stands in the sequence and no colour or reset
behind it. So the state stays the same when a character that stands for no code is put in, when the
modifiers of a stretch without colours and resets are put in another order or are repeated, and when
everything before a reset is dropped.
-/
theorem stateAfter_lasts (cs : List CodePoint) :
    (∀ code, lookup (.scalar code.char) = some code ∧
        lookup (.scalar code.char.toUpper) = some code) ∧
      (∀ color, (stateAfter cs).color = some color ↔
        ∃ code, code.color.map .ofRgb = some color ∧ Lasts code cs) ∧
      (∀ code, code.clears = false → ((stateAfter cs).has code = true ↔ Lasts code cs)) ∧
      (∀ before after, cs = before ++ after → ∀ c, lookup c = none →
        stateAfter (before ++ c :: after) = stateAfter cs) ∧
      (∀ before stretch after, cs = before ++ (stretch ++ after) → ClearsNothing stretch →
        ∀ stretch', ClearsNothing stretch' →
          (∀ code, code ∈ stretch.filterMap lookup ↔ code ∈ stretch'.filterMap lookup) →
          stateAfter (before ++ (stretch' ++ after)) = stateAfter cs) ∧
      ∀ before c after, cs = before ++ c :: after → lookup c = some .reset →
        stateAfter (c :: after) = stateAfter cs := by
  refine ⟨fun code => ⟨FormattingCode.lookup_char code, FormattingCode.lookup_toUpper code⟩,
    fun color => (FormattingState.isEffect_color color).stateAfter_iff cs, ?_, ?_, ?_, ?_⟩
  · intro code hcode
    rw [(FormattingState.isEffect_has hcode).stateAfter_iff]
    exact exists_eq_left
  · rintro before after rfl c hc
    simp only [stateAfter, List.foldl_append, List.foldl_cons]
    rw [FormattingState.applyChar_of_unknown hc]
  · rintro before stretch after rfl hstretch stretch' hstretch' hsame
    simp only [stateAfter, List.foldl_append]
    rw [FormattingState.foldl_eq_of_same_modifiers hstretch hstretch' hsame]
  · rintro before c after rfl hc
    simp only [stateAfter, List.foldl_append, List.foldl_cons]
    rw [FormattingState.applyChar_of_reset hc, FormattingState.applyChar_of_reset hc]

/-- Two colours with a reset between them, and a stretch of modifiers with a repetition. -/
def assorted : Text := "aLRcOlOk"

theorem stateAfter_lasts_assorted :
    FormattingCode.bold.clears = false ∧ Lasts .bold assorted ∧
      lookup (.scalar 'z') = none ∧ stateAfter "aLRzcOlOk" = stateAfter assorted ∧
      ClearsNothing "OlO" ∧ ClearsNothing "lo" ∧ stateAfter "aLRclok" = stateAfter assorted ∧
      lookup (.scalar 'R') = some .reset ∧ stateAfter "RcOlOk" = stateAfter assorted := by
  have hstretch : ClearsNothing "OlO" := by decide
  have hstretch' : ClearsNothing "lo" := by decide
  have hsame (code : FormattingCode) : code ∈ (Text.ofString "OlO").filterMap lookup ↔
      code ∈ (Text.ofString "lo").filterMap lookup := by
    cases code <;> decide
  obtain ⟨-, -, hflags, hunknown, hmodifiers, hreset⟩ := stateAfter_lasts assorted
  refine ⟨rfl, (hflags .bold rfl).1 (by decide), by decide, ?_, hstretch, hstretch', ?_, by decide, ?_⟩
  · exact hunknown "aLR" "cOlOk" rfl (.scalar 'z') (by decide)
  · exact hmodifiers "aLRc" "OlO" "k" rfl hstretch "lo" hstretch' hsame
  · exact hreset "aL" (.scalar 'R') "cOlOk" rfl (by decide)

end LangFile

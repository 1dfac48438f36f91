import LangFile.Entry.Scan
import LangFile.Proofs.Text.Literal

/-!
# The grammar of JSON strings

`Spells raw s` says that the body `raw` of a JSON string stands for `s`. The strict reader reads
exactly the spelled bodies, whatever follows the closing mark, and the lenient scanner takes the
same body for the same text.

## Surrogates

An escaped high surrogate followed by an escaped low one is one character; the rule for a lone
escape therefore looks at what comes next. The reader decides the same by looking ahead, and its
look-ahead never reaches beyond the closing mark, which is no hexadecimal digit.

## Main statements

* `exists_spells_of_readString`, `readString_literal`: the reader against the grammar.
* `Spells.isBody`, `unescape_of_spells`: the scanner against the grammar.
-/

namespace LangFile.Json

open Text

/-! ## The grammar -/

/-- The number that four hexadecimal digits write. -/
def unitValue? : Text → Option Nat
  | [a, b, c, d] => do
    let a ← a.hexValue?
    let b ← b.hexValue?
    let c ← c.hexValue?
    let d ← d.hexValue?
    return ((a * 16 + b) * 16 + c) * 16 + d
  | _ => none

/-- An escaped low surrogate begins the text. -/
def BeginsLow (t : Text) : Prop :=
  ∃ ds m rest, t = .scalar '\\' :: .scalar 'u' :: (ds ++ rest) ∧ unitValue? ds = some m ∧
    isLow m = true

/-- An escaped low surrogate begins the text and something follows it. -/
def BeginsLowInside (t : Text) : Prop :=
  ∃ ds m rest, rest ≠ [] ∧ t = .scalar '\\' :: .scalar 'u' :: (ds ++ rest) ∧
    unitValue? ds = some m ∧ isLow m = true

/-- The body `raw` of a string stands for the text `s`. -/
inductive Spells : Text → Text → Prop
  | nil : Spells [] []
  | plain {c : CodePoint} {raw s : Text} :
      c ≠ .scalar '"' → c ≠ .scalar '\\' → 0x20 ≤ c.toNat → Spells raw s →
      Spells (c :: raw) (c :: s)
  | simple {c d : CodePoint} {raw s : Text} :
      simpleEscape? c = some d → Spells raw s → Spells (.scalar '\\' :: c :: raw) (d :: s)
  | unit {ds : Text} {n : Nat} {raw s : Text} :
      unitValue? ds = some n → (isHigh n = true → ¬ BeginsLow raw) → Spells raw s →
      Spells (.scalar '\\' :: .scalar 'u' :: (ds ++ raw)) (ofUnit n :: s)
  | surrogates {ds ds' : Text} {n m : Nat} {raw s : Text} :
      unitValue? ds = some n → isHigh n = true → unitValue? ds' = some m → isLow m = true →
      Spells raw s →
      Spells (.scalar '\\' :: .scalar 'u' :: (ds ++ .scalar '\\' :: .scalar 'u' :: (ds' ++ raw)))
        (joinSurrogates n m :: s)

/-! ## Four hexadecimal digits -/

theorem unitValue?_eq_some {ds : Text} {n : Nat} (h : unitValue? ds = some n) :
    ∃ a b c d, ds = [a, b, c, d] ∧ ∀ x ∈ ds, x.hexValue? ≠ none := by
  unfold unitValue? at h
  split at h
  · next a b c d =>
    refine ⟨a, b, c, d, rfl, ?_⟩
    intro x hx hnone
    simp only [List.mem_cons, List.not_mem_nil, or_false] at hx
    rcases hx with rfl | rfl | rfl | rfl <;> simp [hnone] at h
  · simp at h

theorem length_of_unitValue? {ds : Text} {n : Nat} (h : unitValue? ds = some n) :
    ds.length = 4 := by
  obtain ⟨a, b, c, d, rfl, -⟩ := unitValue?_eq_some h
  rfl

/-- A hexadecimal digit has no meaning of its own in a body. -/
theorem isBody_of_unitValue? {ds : Text} {n : Nat} (h : unitValue? ds = some n) {b : Text}
    (hb : IsBody b) : IsBody (ds ++ b) := by
  obtain ⟨-, -, -, -, -, hds⟩ := unitValue?_eq_some h
  clear h
  induction ds with
  | nil => exact hb
  | cons c ds ih =>
    have hc : c.hexValue? ≠ none := hds c List.mem_cons_self
    refine .plain ?_ ?_ (ih fun x hx => hds x (List.mem_cons_of_mem _ hx))
    · rintro rfl
      exact hc (by decide)
    · rintro rfl
      exact hc (by decide)

/-- **Four digits are read when something follows them.** -/
theorem fourHex?_eq_some_iff {t rest : Text} {n : Nat} :
    fourHex? t = some (n, rest) ↔ rest ≠ [] ∧ ∃ ds, unitValue? ds = some n ∧ t = ds ++ rest := by
  constructor
  · intro h
    unfold fourHex? at h
    split at h
    · next a b c d e r =>
      simp only [Option.bind_eq_bind, Option.bind_eq_some_iff, Option.pure_def,
        Option.some.injEq, Prod.mk.injEq] at h
      obtain ⟨va, ha, vb, hb, vc, hc, vd, hd, rfl, rfl⟩ := h
      refine ⟨List.cons_ne_nil _ _, [a, b, c, d], ?_, rfl⟩
      simp [unitValue?, ha, hb, hc, hd]
    · simp at h
  · rintro ⟨hne, ds, hds, rfl⟩
    obtain ⟨a, b, c, d, rfl, -⟩ := unitValue?_eq_some hds
    obtain ⟨e, r, rfl⟩ := List.exists_cons_of_ne_nil hne
    unfold unitValue? at hds
    simp only [Option.bind_eq_bind, Option.bind_eq_some_iff, Option.pure_def,
      Option.some.injEq] at hds
    obtain ⟨va, ha, vb, hb, vc, hc, vd, hd, rfl⟩ := hds
    simp [fourHex?, ha, hb, hc, hd]

theorem fourHex?_append {ds rest : Text} {n : Nat} (h : unitValue? ds = some n) (hne : rest ≠ []) :
    fourHex? (ds ++ rest) = some (n, rest) :=
  fourHex?_eq_some_iff.2 ⟨hne, ds, h, rfl⟩

/-! ## Escapes -/

/-- **What an escape behind `\u` is read as:** one unit, or two that are surrogates of each
other. -/
theorem unicodeEscape_cases {t after : Text} {c : CodePoint}
    (h : unicodeEscape (.scalar 'u' :: t) = .ok (c, after)) :
    (∃ ds n, t = ds ++ after ∧ unitValue? ds = some n ∧ c = ofUnit n ∧
        (isHigh n = true → ¬ BeginsLowInside after)) ∨
      ∃ ds n ds' m, t = ds ++ .scalar '\\' :: .scalar 'u' :: (ds' ++ after) ∧
        unitValue? ds = some n ∧ isHigh n = true ∧ unitValue? ds' = some m ∧ isLow m = true ∧
        c = joinSurrogates n m := by
  unfold unicodeEscape at h
  rw [List.drop_succ_cons, List.drop_zero] at h
  split at h
  · simp at h
  · next n rest hn =>
    obtain ⟨-, ds, hds, rfl⟩ := fourHex?_eq_some_iff.1 hn
    split at h
    · next more =>
      split at h
      · next hcond =>
        rw [Bool.and_eq_true] at hcond
        split at h
        · simp at h
        · next m after' hm =>
          obtain ⟨-, ds', hds', rfl⟩ := fourHex?_eq_some_iff.1 hm
          split at h
          · next hlow =>
            obtain ⟨rfl, rfl⟩ : joinSurrogates n m = c ∧ after' = after := by simpa using h
            exact Or.inr ⟨ds, n, ds', m, rfl, hds, hcond.1, hds', hlow, rfl⟩
          · next hlow =>
            obtain ⟨rfl, rfl⟩ : ofUnit n = c ∧ _ = after := by simpa using h
            refine Or.inl ⟨ds, n, rfl, hds, rfl, ?_⟩
            rintro - ⟨ds₂, m₂, rest₂, hne, heq, hds₂, hlow₂⟩
            -- the units that follow are the same, read once and derived once
            have hsame := fourHex?_append hds₂ hne
            rw [← (List.cons.inj (List.cons.inj heq).2).2, hm] at hsame
            obtain ⟨rfl, -⟩ : m = m₂ ∧ _ = rest₂ := by simpa using hsame
            exact hlow hlow₂
      · next hcond =>
        obtain ⟨rfl, rfl⟩ : ofUnit n = c ∧ _ = after := by simpa using h
        refine Or.inl ⟨ds, n, rfl, hds, rfl, ?_⟩
        rintro hhigh ⟨ds₂, m₂, rest₂, hne, heq, hds₂, -⟩
        refine hcond ?_
        have hpos := List.length_pos_iff.2 hne
        rw [(List.cons.inj (List.cons.inj heq).2).2, hhigh]
        simp [length_of_unitValue? hds₂]
        omega
    · next hno =>
      obtain ⟨rfl, rfl⟩ : ofUnit n = c ∧ _ = after := by simpa using h
      refine Or.inl ⟨ds, n, rfl, hds, rfl, ?_⟩
      rintro - ⟨ds₂, m₂, rest₂, -, heq, -, -⟩
      exact hno _ heq

/-- Two surrogates of each other are read together. -/
theorem unicodeEscape_surrogates {ds ds' after : Text} {n m : Nat} (hn : unitValue? ds = some n)
    (hhigh : isHigh n = true) (hm : unitValue? ds' = some m) (hlow : isLow m = true)
    (hafter : after ≠ []) :
    unicodeEscape (.scalar 'u' :: (ds ++ .scalar '\\' :: .scalar 'u' :: (ds' ++ after)))
      = .ok (joinSurrogates n m, after) := by
  have hlen : 4 < (ds' ++ after).length := by
    have := List.length_pos_iff.2 hafter
    rw [List.length_append, length_of_unitValue? hm]
    omega
  unfold unicodeEscape
  rw [List.drop_succ_cons, List.drop_zero, fourHex?_append hn (List.cons_ne_nil _ _)]
  simp only [fourHex?_append hm hafter, hhigh, hlen, hlow, decide_true, Bool.and_self, if_true]

/-- A unit is read alone when what follows is no low surrogate to a high one; `hnext` says that an
escape that follows is not cut short. -/
theorem unicodeEscape_unit {ds after : Text} {n : Nat} (hn : unitValue? ds = some n)
    (hafter : after ≠ []) (hlow : isHigh n = true → ¬ BeginsLowInside after)
    (hnext : ∀ more, after = .scalar '\\' :: .scalar 'u' :: more → fourHex? more ≠ none) :
    unicodeEscape (.scalar 'u' :: (ds ++ after)) = .ok (ofUnit n, after) := by
  unfold unicodeEscape
  rw [List.drop_succ_cons, List.drop_zero, fourHex?_append hn hafter]
  dsimp only
  split
  · next more =>
    split
    · next hcond =>
      rw [Bool.and_eq_true] at hcond
      obtain ⟨⟨m, rest⟩, hm⟩ := Option.ne_none_iff_exists'.1 (hnext more rfl)
      obtain ⟨hne, ds', hds', rfl⟩ := fourHex?_eq_some_iff.1 hm
      have hnot : ¬ isLow m = true := fun hl =>
        hlow hcond.1 ⟨ds', m, rest, hne, rfl, hds', hl⟩
      rw [hm]
      dsimp only
      rw [if_neg hnot]
    · rfl
  · rfl

/-! ## Reading a string -/

theorem simpleEscape?_ne {c d : CodePoint} (h : simpleEscape? c = some d) :
    c ≠ .scalar 'u' ∧ c ≠ .scalar '\n' := by
  constructor
  · rintro rfl
    simp [simpleEscape?] at h
  · rintro rfl
    simp [simpleEscape?] at h

/-- **What is read up to a closing mark is spelled by the body before it.** -/
theorem exists_spells_of_stringRest {whole : Text} {fuel : Nat} {done t s rest : Text}
    (h : stringRest whole fuel done t = .ok (s, rest)) :
    ∃ raw s', t = raw ++ .scalar '"' :: rest ∧ s = done.reverse ++ s' ∧ Spells raw s' := by
  induction fuel generalizing done t with
  | zero => simp [stringRest] at h
  | succ fuel ih =>
    unfold stringRest at h
    split at h
    · simp at h
    · obtain ⟨rfl, rfl⟩ : done.reverse = s ∧ _ = rest := by simpa using h
      exact ⟨[], [], rfl, (List.append_nil _).symm, .nil⟩
    · next t' =>
      split at h
      · simp at h
      · next t'' =>
        split at h
        · simp at h
        · next c after he =>
          obtain ⟨raw, s', rfl, rfl, hs⟩ := ih h
          rcases unicodeEscape_cases he with
            ⟨ds, n, rfl, hds, rfl, hlow⟩ | ⟨ds, n, ds', m, rfl, hds, hhigh, hds', hl, hc⟩
          · refine ⟨_, ofUnit n :: s', ?_, by simp, .unit hds ?_ hs⟩
            · simp
            · rintro hh ⟨ds₂, m₂, rest₂, rfl, hm₂, hl₂⟩
              exact hlow hh ⟨ds₂, m₂, rest₂ ++ .scalar '"' :: rest, by simp, by simp, hm₂, hl₂⟩
          · refine ⟨_, joinSurrogates n m :: s', ?_, ?_, .surrogates hds hhigh hds' hl hs⟩
            · simp
            · simp [hc]
      · next c after hu =>
        split at h
        · simp at h
        · next d hd =>
          obtain ⟨raw, s', rfl, rfl, hs⟩ := ih h
          exact ⟨.scalar '\\' :: c :: raw, d :: s', rfl, by simp, .simple hd hs⟩
    · next c t' hq hb =>
      split at h
      · simp at h
      · next hc =>
        obtain ⟨raw, s', rfl, rfl, hs⟩ := ih h
        refine ⟨c :: raw, c :: s', rfl, by simp, .plain ?_ ?_ (Nat.le_of_not_lt hc) hs⟩
        · exact hq
        · exact hb

/-- A body that begins with an escaped unit has all four digits of it. -/
theorem Spells.exists_unit {raw s more rest : Text} (h : Spells raw s)
    (heq : raw ++ .scalar '"' :: rest = .scalar '\\' :: .scalar 'u' :: more) :
    ∃ ds n tail, unitValue? ds = some n ∧ raw = .scalar '\\' :: .scalar 'u' :: (ds ++ tail) ∧
      more = ds ++ (tail ++ .scalar '"' :: rest) := by
  cases h with
  | nil => simp at heq
  | plain _ hb _ _ => exact absurd (List.cons.inj heq).1 hb
  | simple hd _ =>
    exact absurd (List.cons.inj (List.cons.inj heq).2).1 (simpleEscape?_ne hd).1
  | @unit ds n tail _ hds _ _ => exact ⟨ds, n, tail, hds, rfl, by simpa using heq.symm⟩
  | @surrogates ds ds' n _ tail _ hds _ _ _ _ =>
    exact ⟨ds, n, .scalar '\\' :: .scalar 'u' :: (ds' ++ tail), hds, rfl, by simpa using heq.symm⟩

theorem Spells.fourHex?_ne_none {raw s more rest : Text} (h : Spells raw s)
    (heq : raw ++ .scalar '"' :: rest = .scalar '\\' :: .scalar 'u' :: more) :
    fourHex? more ≠ none := by
  obtain ⟨ds, n, tail, hds, -, rfl⟩ := h.exists_unit heq
  rw [fourHex?_append hds (by simp)]
  exact Option.some_ne_none _

/-- Adding a closing mark and more brings no low surrogate to the front. -/
theorem Spells.not_beginsLowInside {raw s : Text} (h : Spells raw s) (hlow : ¬ BeginsLow raw)
    (rest : Text) : ¬ BeginsLowInside (raw ++ .scalar '"' :: rest) := by
  rintro ⟨ds', m, rest', hne, heq, hm, hl⟩
  obtain ⟨ds, n, tail, hds, rfl, hmore⟩ := h.exists_unit heq
  have hread := fourHex?_append hm hne
  rw [hmore, fourHex?_append hds (by simp)] at hread
  obtain ⟨rfl, -⟩ : n = m ∧ _ = rest' := by simpa using hread
  exact hlow ⟨ds, n, tail, rfl, hds, hl⟩

section

variable {whole done t : Text} {fuel : Nat} {c d : CodePoint}

theorem stringRest_plain (hq : c ≠ .scalar '"') (hb : c ≠ .scalar '\\') (hc : 0x20 ≤ c.toNat) :
    stringRest whole (fuel + 1) done (c :: t) = stringRest whole fuel (c :: done) t := by
  rw [stringRest, if_neg (Nat.not_lt.2 hc)]
  · exact hq
  · exact hb

theorem stringRest_simple (hd : simpleEscape? c = some d) :
    stringRest whole (fuel + 1) done (.scalar '\\' :: c :: t)
      = stringRest whole fuel (d :: done) t := by
  rw [stringRest, hd]
  exact (simpleEscape?_ne hd).1

theorem stringRest_unicode {after : Text}
    (h : unicodeEscape (.scalar 'u' :: t) = .ok (c, after)) :
    stringRest whole (fuel + 1) done (.scalar '\\' :: .scalar 'u' :: t)
      = stringRest whole fuel (c :: done) after := by
  rw [stringRest, h]

end

/-- **A spelled body is read up to the closing mark, whatever follows.** -/
theorem Spells.stringRest_append {raw s : Text} (h : Spells raw s) (whole : Text) {fuel : Nat}
    (done rest : Text) (hfuel : raw.length < fuel) :
    stringRest whole fuel done (raw ++ .scalar '"' :: rest) = .ok (done.reverse ++ s, rest) := by
  -- each constructor is one round of the reader, which the fuel outlasts
  induction h generalizing fuel done with
  | nil =>
    obtain ⟨fuel, rfl⟩ := Nat.exists_eq_succ_of_ne_zero (Nat.ne_of_gt hfuel)
    rw [List.nil_append, List.append_nil]
    rfl
  | @plain c raw s hq hb hc _ ih =>
    obtain ⟨fuel, rfl⟩ := Nat.exists_eq_succ_of_ne_zero (Nat.ne_of_gt (Nat.zero_lt_of_lt hfuel))
    rw [List.cons_append, stringRest_plain hq hb hc, ih _ (Nat.lt_of_succ_lt_succ hfuel)]
    simp
  | @simple c d raw s hd _ ih =>
    obtain ⟨fuel, rfl⟩ := Nat.exists_eq_succ_of_ne_zero (Nat.ne_of_gt (Nat.zero_lt_of_lt hfuel))
    rw [List.cons_append, List.cons_append, stringRest_simple hd,
      ih _ (by simp only [List.length_cons] at hfuel; omega)]
    simp
  | @unit ds n raw s hds hlow hs ih =>
    obtain ⟨fuel, rfl⟩ := Nat.exists_eq_succ_of_ne_zero (Nat.ne_of_gt (Nat.zero_lt_of_lt hfuel))
    have hread : unicodeEscape (.scalar 'u' :: (ds ++ (raw ++ .scalar '"' :: rest)))
        = .ok (ofUnit n, raw ++ .scalar '"' :: rest) :=
      unicodeEscape_unit hds (by simp) (fun hh => hs.not_beginsLowInside (hlow hh) rest)
        fun more heq => hs.fourHex?_ne_none heq
    rw [List.cons_append, List.cons_append, List.append_assoc, stringRest_unicode hread,
      ih _ (by simp at hfuel; omega)]
    simp
  | @surrogates ds ds' n m raw s hds hhigh hds' hlow _ ih =>
    obtain ⟨fuel, rfl⟩ := Nat.exists_eq_succ_of_ne_zero (Nat.ne_of_gt (Nat.zero_lt_of_lt hfuel))
    have hread := unicodeEscape_surrogates hds hhigh hds' hlow
      (List.append_ne_nil_of_right_ne_nil raw (List.cons_ne_nil (.scalar '"') rest))
    simp only [List.cons_append, List.append_assoc]
    rw [stringRest_unicode hread, ih _ (by simp at hfuel; omega)]
    simp

theorem exists_spells_of_readString {t s rest : Text}
    (h : readString (.scalar '"' :: t) = .ok (s, rest)) :
    ∃ raw, .scalar '"' :: t = literal raw ++ rest ∧ Spells raw s := by
  unfold readString at h
  rw [List.drop_succ_cons, List.drop_zero] at h
  obtain ⟨raw, s', rfl, rfl, hs⟩ := exists_spells_of_stringRest h
  exact ⟨raw, (literal_append raw rest).symm, hs⟩

theorem Spells.readString_literal {raw s : Text} (h : Spells raw s) (rest : Text) :
    readString (literal raw ++ rest) = .ok (s, rest) := by
  rw [literal_append, readString, List.drop_succ_cons, List.drop_zero,
    h.stringRest_append _ _ _ (by rw [List.length_cons, List.length_append]; omega)]
  rfl

/-! ## Scanned bodies -/

/-- **A spelled body is a body of the scanner.** -/
theorem Spells.isBody {raw s : Text} (h : Spells raw s) : IsBody raw := by
  induction h with
  | nil => exact .nil
  | plain hq hb _ _ ih => exact .plain hq hb ih
  | simple hd _ ih => exact .escaped (simpleEscape?_ne hd).2 ih
  | unit hds _ _ ih => exact .escaped (by decide) (isBody_of_unitValue? hds ih)
  | surrogates hds _ hds' _ _ ih =>
    refine .escaped (by decide) (isBody_of_unitValue? hds ?_)
    exact .escaped (by decide) (isBody_of_unitValue? hds' ih)

theorem Spells.eq_of_not_mem {raw s : Text} (h : Spells raw s) (hb : .scalar '\\' ∉ raw) :
    s = raw := by
  induction h with
  | nil => rfl
  | plain _ _ _ _ ih => rw [ih (List.not_mem_of_not_mem_cons hb)]
  | simple => exact absurd List.mem_cons_self hb
  | unit => exact absurd List.mem_cons_self hb
  | surrogates => exact absurd List.mem_cons_self hb

/-- The literal of a spelled body is the JSON of a string. -/
theorem Spells.parse_literal {raw s : Text} (h : Spells raw s) :
    parse (literal raw) = .ok (.string s) := by
  have hread : readString (literal raw) = .ok (s, []) := by
    simpa using h.readString_literal []
  have hquote : isSpace (.scalar '"') = false := by decide
  rw [literal, List.cons_append] at hread ⊢
  rw [parse, skipSpace, List.dropWhile_cons_of_neg (by simp [hquote]), readValue, hread]
  · rfl
  · simp

/-- **A spelled body unescapes to what it stands for.** -/
theorem unescape_of_spells {raw s : Text} (h : Spells raw s) : unescape raw = s := by
  unfold unescape
  split
  · have hp := h.parse_literal
    rw [literal] at hp
    rw [hp]
  · next hb => exact (h.eq_of_not_mem (by simpa using hb)).symm

end LangFile.Json

import LangFile.Proofs.Editor.Screen
import LangFile.Proofs.Json.Literals
import Mathlib.Algebra.Group.Nat.Even

/-!
# What the colouring takes for strings

The colouring of a line looks back one character before it takes a quotation mark for the end of a
string; reading a literal skips each backslash with the character that it escapes. Both agree up to
a literal whose body ends in a backslash that is itself escaped: its closing quotation mark follows
a backslash. The colouring misses it and, up to the next such literal, takes what is inside of
literals for outside and what is outside for inside.

1. Which characters the colouring takes for parts of strings, literal by literal
   (`stringFlagsFrom_literal`).
2. The same, column by column (`isString_iff`).
3. The styles of a line against its literals (`colored_iff_quoted`).
-/

namespace LangFile

open Text

theorem Editor.Ink.style_inj {a b : Editor.Ink} : a.style = b.style ↔ a = b := by
  cases a <;> cases b <;> decide

/-! ## Backslashes at the end -/

/-- The last character of a text is a backslash. -/
def Text.endsInBackslash (t : Text) : Bool := t.getLast? = some (.scalar '\\')

@[simp] theorem Text.endsInBackslash_concat (t : Text) (c : CodePoint) :
    endsInBackslash (t ++ [c]) = decide (c = .scalar '\\') := by
  simp [endsInBackslash]

theorem Text.endsInBackslash_append {t : Text} (ht : t.endsInBackslash = false) (u : Text) :
    endsInBackslash (t ++ u) = endsInBackslash u := by
  rcases List.eq_nil_or_concat u with rfl | ⟨u, c, rfl⟩
  · simpa [endsInBackslash] using ht
  · rw [List.concat_eq_append, ← List.append_assoc, endsInBackslash_concat, endsInBackslash_concat]

theorem Text.endsInBackslash_literal (b : Text) : endsInBackslash (literal b) = false := by
  rw [literal, endsInBackslash_concat]
  rfl

theorem Text.endsInBackslash_singleton {c : CodePoint} (hc : c ≠ .scalar '\\') :
    endsInBackslash [c] = false := by
  simpa [endsInBackslash] using hc

/-- Up to a quotation mark in a body a text ends in a backslash. -/
theorem Text.IsBody.endsInBackslash_take {b : Text} (h : IsBody b) (before : Text) {i : Nat}
    (hi : b[i]? = some (.scalar '"')) : endsInBackslash (before ++ b.take i) = true := by
  induction h generalizing before i with
  | nil => simp at hi
  | @plain c b hquote _ _ ih =>
    cases i with
    | zero => exact absurd (by simpa using hi) hquote
    | succ i =>
      have hbehind := ih (before ++ [c]) (by simpa using hi : b[i]? = _)
      rwa [List.append_assoc] at hbehind
  | @escaped c b _ _ ih =>
    match i with
    | 0 => simp at hi
    | 1 => simp
    | i + 2 =>
      have hbehind := ih (before ++ [.scalar '\\', c]) (by simpa using hi : b[i]? = _)
      rwa [List.append_assoc] at hbehind

/-- The offset behind a literal. -/
def Json.Literal.stop (l : Json.Literal) : Nat := l.start + (literal l.body).length

/-- A literal, quotation marks included, holds a column. -/
def Json.Literal.Covers (l : Json.Literal) (i : Nat) : Prop := l.start ≤ i ∧ i < l.stop

namespace Editor.Coloring

variable {t : Text} {s : Bool} {pos i : Nat} {c : CodePoint} {ls : List Json.Literal}

/-! ## Literals -/

/-- Any character but a quotation mark that follows no backslash leaves the colouring where it is,
inside a string or outside. -/
theorem stringFlagsFrom_stay (before : Text)
    (h : c = .scalar '"' → before.endsInBackslash = true) (s : Bool) (t : Text) :
    stringFlagsFrom s before.endsInBackslash (c :: t)
      = s :: stringFlagsFrom s (endsInBackslash (before ++ [c])) t := by
  rw [stringFlagsFrom, if_neg (by simpa using h), endsInBackslash_concat]

theorem stringFlagsFrom_between (hquote : c ≠ .scalar '"') (hbackslash : c ≠ .scalar '\\')
    (s : Bool) (t : Text) :
    stringFlagsFrom s false (c :: t) = s :: stringFlagsFrom s false t := by
  have hstay := stringFlagsFrom_stay [] (fun hc => absurd hc hquote) s t
  rwa [List.nil_append, endsInBackslash_singleton hbackslash] at hstay

theorem stringFlagsFrom_body {b : Text} (h : IsBody b) (s : Bool) (before t : Text) :
    stringFlagsFrom s before.endsInBackslash (b ++ t)
      = List.replicate b.length s ++ stringFlagsFrom s (endsInBackslash (before ++ b)) t := by
  induction h generalizing before with
  | nil => simp
  | @plain c b hquote _ _ ih =>
    rw [List.cons_append, stringFlagsFrom_stay _ (fun hc => absurd hc hquote), ih, List.append_assoc]
    rfl
  | @escaped c b _ _ ih =>
    -- the second character of the pair follows the first, so it may be a quotation mark
    have hpair : endsInBackslash (before ++ [.scalar '\\']) = true := by simp
    rw [List.cons_append, List.cons_append, stringFlagsFrom_stay _ (by simp),
      stringFlagsFrom_stay _ (fun _ => hpair), ih, List.append_assoc, List.append_assoc]
    rfl

/-- What the colouring takes the characters of a literal for, when it comes to it inside a string
or not. -/
def literalFlags (inString : Bool) (body : Text) : List Bool :=
  true :: (List.replicate body.length (!inString) ++ [!inString || !body.endsInBackslash])

theorem length_literalFlags (s : Bool) (b : Text) :
    (literalFlags s b).length = (literal b).length := by
  simp [literalFlags, length_literal]

/-- **The colouring comes out of a literal as it came to it, unless the body ends in a
backslash.** -/
theorem stringFlagsFrom_literal {b : Text} (h : IsBody b) (s : Bool) (t : Text) :
    stringFlagsFrom s false (literal b ++ t)
      = literalFlags s b ++ stringFlagsFrom (s ^^ b.endsInBackslash) false t := by
  have hbody := stringFlagsFrom_body h (!s) [] (.scalar '"' :: t)
  rw [literal_append, stringFlagsFrom, if_pos (by simp)]
  rw [show endsInBackslash [] = false from rfl, List.nil_append] at hbody
  rw [hbody]
  cases hb : b.endsInBackslash <;> simp [stringFlagsFrom, literalFlags, hb]

/-! ## Columns -/

/-- How many of the literals that end before a column have a body that ends in a backslash. -/
def missedBefore (ls : List Json.Literal) (i : Nat) : Nat :=
  ls.countP fun l => l.stop ≤ i && l.body.endsInBackslash

/-- A quotation mark that follows no backslash. -/
def IsDelimiter (t : Text) (i : Nat) : Prop :=
  t[i]? = some (.scalar '"') ∧ endsInBackslash (t.take i) = false

theorem missedBefore_eq_zero (h : ∀ l ∈ ls, i ≤ l.start) : missedBefore ls i = 0 := by
  refine List.countP_eq_zero.2 fun l hl => ?_
  have hstart := h l hl
  have hstop : l.stop = l.start + (l.body.length + 2) := by rw [Json.Literal.stop, length_literal]
  have hlt : ¬ l.stop ≤ i := by omega
  simp [hlt]

theorem missedBefore_cons_of_lt {l : Json.Literal} (h : i < l.stop) :
    missedBefore (l :: ls) i = missedBefore ls i :=
  List.countP_cons_of_neg (by simp [Nat.not_le.2 h])

theorem missedBefore_cons_of_le {l : Json.Literal} (h : l.stop ≤ i) :
    missedBefore (l :: ls) i = missedBefore ls i + l.body.endsInBackslash.toNat := by
  rw [missedBefore, List.countP_cons, missedBefore]
  cases l.body.endsInBackslash <;> simp [h]

theorem not_covers_of_le (h : ∀ l ∈ ls, i < l.start) : ¬ ∃ l ∈ ls, l.Covers i :=
  fun ⟨l, hl, hstart, _⟩ => Nat.not_le.2 (h l hl) hstart

theorem isDelimiter_append {u : Text} (hu : u.endsInBackslash = false) (t : Text) (i : Nat) :
    IsDelimiter (u ++ t) (u.length + i) ↔ IsDelimiter t i := by
  rw [IsDelimiter, List.getElem?_append_right (Nat.le_add_right _ _), Nat.add_sub_cancel_left,
    List.take_length_add_append, endsInBackslash_append hu, IsDelimiter]

theorem isDelimiter_append_left {u : Text} (hi : i < u.length) (t : Text) :
    IsDelimiter (u ++ t) i ↔ IsDelimiter u i := by
  rw [IsDelimiter, List.getElem?_append_left hi, List.take_append_of_le_length (Nat.le_of_lt hi),
    IsDelimiter]

theorem isDelimiter_opening (b : Text) : IsDelimiter (literal b) 0 := ⟨rfl, rfl⟩

/-- Each quotation mark in a body follows a backslash. -/
theorem not_isDelimiter_body {b : Text} (h : IsBody b) (hi : i < b.length) :
    ¬ IsDelimiter (literal b) (i + 1) := by
  rw [literal, List.cons_append, IsDelimiter, List.getElem?_cons_succ, List.take_succ_cons,
    List.getElem?_append_left hi, List.take_append_of_le_length (Nat.le_of_lt hi)]
  rintro ⟨hquote, hfree⟩
  have hescaped := h.endsInBackslash_take [.scalar '"'] hquote
  rw [List.singleton_append, hfree] at hescaped
  simp at hescaped

/-- The closing quotation mark follows what the body ends in. -/
theorem isDelimiter_closing (b : Text) :
    IsDelimiter (literal b) (b.length + 1) ↔ b.endsInBackslash = false := by
  have hopening : endsInBackslash [.scalar '"'] = false := rfl
  have hends := endsInBackslash_append hopening b
  rw [List.singleton_append] at hends
  rw [literal, List.cons_append, IsDelimiter, List.getElem?_cons_succ, List.take_succ_cons,
    List.getElem?_append_right (Nat.le_refl _), List.take_left, hends]
  simp

/-- **In a literal the colouring is right where it came to the literal outside a string, and at
each quotation mark that follows no backslash.** -/
theorem literalFlags_iff {b : Text} (h : IsBody b) {f : Bool}
    (hf : (literalFlags s b)[i]? = some f) :
    f = true ↔ s = false ∨ IsDelimiter (literal b) i := by
  have hlt := (List.getElem?_eq_some_iff.1 hf).1
  rw [length_literalFlags, length_literal] at hlt
  cases i with
  | zero =>
    obtain rfl : true = f := by simpa [literalFlags] using hf
    exact iff_of_true rfl (.inr (isDelimiter_opening b))
  | succ i =>
    rw [literalFlags, List.getElem?_cons_succ] at hf
    rcases Nat.lt_or_eq_of_le (Nat.le_of_lt_succ (Nat.lt_of_succ_lt_succ hlt)) with hi | rfl
    · rw [List.getElem?_append_left (by simpa using hi), List.getElem?_replicate_of_lt hi] at hf
      obtain rfl := Option.some.inj hf
      simp [not_isDelimiter_body h hi]
    · rw [List.getElem?_append_right (by simp)] at hf
      obtain rfl : (!s || !b.endsInBackslash) = f := by simpa using hf
      simp [isDelimiter_closing]

/-- **Where the colouring is right about strings:** behind an even number of literals that it has
missed the end of, and at each quotation mark that follows no backslash. -/
theorem isString_iff (h : Json.Alternates pos t ls) {f : Bool}
    (hf : (stringFlagsFrom s false t)[i]? = some f) :
    (f = true ↔ ∃ l ∈ ls, l.Covers (pos + i)) ↔
      (s = false ↔ Even (missedBefore ls (pos + i))) ∨ IsDelimiter t i := by
  induction h generalizing s i with
  | nil => simp [stringFlagsFrom] at hf
  | @between pos c t ls hquote hbackslash hrest ih =>
    have hends := endsInBackslash_singleton hbackslash
    rw [stringFlagsFrom_between hquote hbackslash] at hf
    cases i with
    | zero =>
      obtain rfl : s = f := by simpa using hf
      have hnone := not_covers_of_le fun l hl => hrest.pairwise.1 l hl
      have hzero : missedBefore ls pos = 0 :=
        missedBefore_eq_zero fun l hl => Nat.le_of_succ_le (hrest.pairwise.1 l hl)
      have hdelimiter : ¬ IsDelimiter (c :: t) 0 := fun hc => hquote (by simpa using hc.1)
      rw [Nat.add_zero, hzero]
      simp [hnone, hdelimiter]
    | succ i =>
      have hshift := isDelimiter_append hends t i
      rw [List.length_singleton, Nat.add_comm 1] at hshift
      rw [show pos + (i + 1) = pos + 1 + i by omega, ← List.singleton_append, hshift]
      exact ih (by simpa using hf)
  | @item pos b t ls hb hrest ih =>
    rw [stringFlagsFrom_literal hb] at hf
    rcases Nat.lt_or_ge i (literal b).length with hi | hi
    · have hlt : pos + i < (⟨pos, b⟩ : Json.Literal).stop := Nat.add_lt_add_left hi pos
      have hcovers : ∃ l ∈ (⟨pos, b⟩ : Json.Literal) :: ls, l.Covers (pos + i) :=
        ⟨_, List.mem_cons_self, Nat.le_add_right _ _, hlt⟩
      have hzero : missedBefore ls (pos + i) = 0 :=
        missedBefore_eq_zero fun l hl => Nat.le_trans (Nat.le_of_lt hlt) (hrest.pairwise.1 l hl)
      rw [List.getElem?_append_left (by rwa [length_literalFlags])] at hf
      rw [iff_true_right hcovers, missedBefore_cons_of_lt hlt, hzero, isDelimiter_append_left hi,
        literalFlags_iff hb hf]
      simp
    · obtain ⟨j, rfl⟩ := Nat.exists_eq_add_of_le hi
      have hle : (⟨pos, b⟩ : Json.Literal).stop ≤ pos + (literal b).length + j := Nat.le_add_right _ _
      have hpast : ¬ (⟨pos, b⟩ : Json.Literal).Covers (pos + (literal b).length + j) :=
        fun h => Nat.not_lt.2 hle h.2
      rw [← length_literalFlags s, List.getElem?_append_right (Nat.le_add_right _ _),
        Nat.add_sub_cancel_left] at hf
      rw [isDelimiter_append (endsInBackslash_literal b), ← Nat.add_assoc,
        missedBefore_cons_of_le hle, Nat.even_add, List.exists_mem_cons_iff, or_iff_right hpast,
        ih hf]
      cases s <;> cases b.endsInBackslash <;> simp

/-! ## Styles -/

/-- Outside a string the colouring stays there up to the next quotation mark. -/
theorem stringFlagsFrom_outside {p : Bool} (h : (stringFlagsFrom s p t)[i]? = some false)
    (hc : t[i + 1]? = some c) (hquote : c ≠ .scalar '"') :
    (stringFlagsFrom s p t)[i + 1]? = some false := by
  induction t generalizing s p i with
  | nil => simp at hc
  | cons d t ih =>
    rw [List.getElem?_cons_succ] at hc
    unfold stringFlagsFrom at h ⊢
    split at h <;> rename_i hd
    · rw [if_pos hd]
      cases i with
      | zero => simp at h
      | succ i => exact ih h hc
    · rw [if_neg hd]
      cases i with
      | zero =>
        obtain rfl : s = false := by simpa using h
        obtain ⟨u, rfl⟩ := List.head?_eq_some_iff.1 (List.head?_eq_getElem? ▸ hc)
        rw [List.getElem?_cons_succ, stringFlagsFrom, if_neg (by simp [hquote])]
        rfl
      | succ i => exact ih h hc

theorem keyword_spares_quotationMarks {n k : Nat} (h : keyword t = some ((), n)) (hk : k < n) :
    ∃ c, t[k]? = some c ∧ c ≠ .scalar '"' := by
  obtain ⟨w, hfind, hn⟩ := Option.map_eq_some_iff.1 h
  obtain rfl : w.length = n := (Prod.mk.inj hn).2
  have hall : ∀ w ∈ ["true", "false", "null"],
      w.length = (w : Text).length ∧ ∀ c ∈ (w : Text), c ≠ .scalar '"' := by decide
  obtain ⟨hlength, hfree⟩ := hall w (List.mem_of_find?_eq_some hfind)
  have hprefix := List.find?_some hfind
  obtain ⟨u, rfl⟩ := List.isPrefixOf_iff_prefix.1 hprefix
  rw [hlength] at hk
  rw [List.getElem?_append_left hk]
  exact ⟨_, List.getElem?_eq_getElem hk, hfree _ (List.getElem_mem hk)⟩

/-- A keyword lies outside strings as a whole. -/
theorem outside_of_keyword {w : Nat × Nat} (hw : w ∈ keywords t) (hi : w.1 ≤ i)
    (hlt : i < w.1 + w.2) : (stringFlags t)[i]? = some false := by
  obtain ⟨start, n⟩ := w
  obtain ⟨hfound, houtside⟩ := List.mem_filter.1 hw
  obtain ⟨j, m, hj, hmatch⟩ := match_of_mem_matchesFrom hfound
  obtain rfl : start = j := hj.trans (Nat.zero_add j)
  obtain ⟨⟨⟨⟩, m'⟩, hkeyword, hm⟩ := Option.map_eq_some_iff.1 hmatch
  obtain rfl : m' = n := (Prod.mk.inj hm).1
  dsimp only at hi hlt
  induction i, hi using Nat.le_induction with
  | base => simpa using houtside
  | succ i hi ih =>
    obtain ⟨c, hc, hquote⟩ :=
      keyword_spares_quotationMarks hkeyword (show i + 1 - start < m' by omega)
    rw [List.getElem?_drop, Nat.add_sub_cancel' (by omega)] at hc
    exact stringFlagsFrom_outside (ih (by omega)) hc hquote

/-- **The colours of strings are those of the characters that are taken for parts of strings.** -/
theorem exists_flag_of_styles {style : Style} (hc : t[i]? = some c)
    (hstyle : (styles t)[i]? = some style) (hbracket : isBracket c = false) :
    ∃ f, (stringFlags t)[i]? = some f ∧
      ((style = Ink.key.style ∨ style = Ink.string.style) ↔ f = true) := by
  rw [styles, List.getElem?_map] at hstyle
  obtain ⟨ink, hink, rfl⟩ := Option.map_eq_some_iff.1 hstyle
  rw [inks, List.getElem?_mapIdx] at hink
  obtain ⟨⟨c', f⟩, hzip, rfl⟩ := Option.map_eq_some_iff.1 hink
  obtain ⟨hc', hf⟩ := List.getElem?_zip_eq_some.1 hzip
  obtain rfl : c = c' := Option.some.inj (hc.symm.trans hc')
  refine ⟨f, hf, ?_⟩
  rw [Ink.style_inj, Ink.style_inj]
  split
  · next hword =>
    obtain ⟨w, hw, hcolumns⟩ := List.any_eq_true.1 hword
    obtain ⟨hi, hlt⟩ : w.1 ≤ i ∧ i < w.1 + w.2 := by simpa using hcolumns
    obtain rfl : f = false := Option.some.inj (hf.symm.trans (outside_of_keyword hw hi hlt))
    simp
  · simp only [baseInk, hbracket, Bool.false_eq_true, if_false]
    cases f with
    | false =>
      simp only [Bool.false_eq_true, if_false]
      split <;> simp
    | true =>
      simp only [if_true]
      split
      · split <;> simp
      · simp

/--
**Where the colours and the literals agree about strings.** In a line in which literals alternate
with what holds neither a quotation mark nor a backslash, take any character that is no bracket. It
has the colour of keys or that of strings exactly if it lies in a literal, provided that an even
number of the literals before it have a body that ends in a backslash, or that it is a quotation
mark that follows no backslash. Otherwise it is the other way round.
-/
theorem colored_iff_quoted (h : Json.Alternates 0 t ls) :
    ls = Json.literalsFrom 0 t ∧
      ∀ i c style, t[i]? = some c → isBracket c = false → (styles t)[i]? = some style →
        (((style = Ink.key.style ∨ style = Ink.string.style) ↔ ∃ l ∈ ls, l.Covers i) ↔
          Even (missedBefore ls i) ∨ IsDelimiter t i) := by
  refine ⟨h.eq_literalsFrom, fun i c style hc hbracket hstyle => ?_⟩
  obtain ⟨f, hf, hcolors⟩ := exists_flag_of_styles hc hstyle hbracket
  have hiff := isString_iff h hf
  rw [Nat.zero_add, eq_self, true_iff] at hiff
  rw [hcolors]
  exact hiff

/-- A member whose name is one backslash, which is written with two. -/
def backslashMember : Text := literal "\\\\" ++ (": " ++ literal "x")

theorem alternates_backslashMember :
    Json.Alternates 0 backslashMember [⟨0, "\\\\"⟩, ⟨6, "x"⟩] :=
  have hvalue : Json.Alternates 6 (literal "x" ++ []) [⟨6, "x"⟩] := .item (by decide) .nil
  .item (by decide) (.between (by decide) (by decide) (.between (by decide) (by decide) hvalue))

theorem colored_iff_quoted_backslash :
    Json.Alternates 0 backslashMember [⟨0, "\\\\"⟩, ⟨6, "x"⟩] ∧
      backslashMember[7]? = some (.scalar 'x') ∧ isBracket (.scalar 'x') = false ∧
      (styles backslashMember)[7]? = some Ink.plain.style ∧
      (((Ink.plain.style = Ink.key.style ∨ Ink.plain.style = Ink.string.style) ↔
          ∃ l ∈ ([⟨0, "\\\\"⟩, ⟨6, "x"⟩] : List Json.Literal), l.Covers 7) ↔
        Even (missedBefore [⟨0, "\\\\"⟩, ⟨6, "x"⟩] 7) ∨ IsDelimiter backslashMember 7) :=
  have hc : backslashMember[7]? = some (.scalar 'x') := by decide
  have hbracket : isBracket (.scalar 'x') = false := by decide
  have hstyle : (styles backslashMember)[7]? = some Ink.plain.style := by decide +kernel
  ⟨alternates_backslashMember, hc, hbracket, hstyle,
    (colored_iff_quoted alternates_backslashMember).2 7 _ _ hc hbracket hstyle⟩

/-- The letter in the second literal is drawn like what is outside of literals. -/
theorem backslashMember_miscolored :
    Json.Alternates 0 backslashMember [⟨0, "\\\\"⟩, ⟨6, "x"⟩] ∧
      backslashMember[7]? = some (.scalar 'x') ∧ isBracket (.scalar 'x') = false ∧
      (∃ l ∈ ([⟨0, "\\\\"⟩, ⟨6, "x"⟩] : List Json.Literal), l.Covers 7) ∧
      ∃ style, (styles backslashMember)[7]? = some style ∧
        ¬ (style = Ink.key.style ∨ style = Ink.string.style) := by
  have hcovers : Json.Literal.Covers ⟨6, "x"⟩ 7 := ⟨by decide, by decide⟩
  exact ⟨alternates_backslashMember, by decide, by decide, ⟨_, by simp, hcovers⟩,
    Ink.plain.style, by decide +kernel, by decide⟩

end Editor.Coloring

end LangFile

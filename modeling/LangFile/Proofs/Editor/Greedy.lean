import LangFile.Proofs.Editor.Wrap

/-!
# Greedy wrapping

A wrapped row is as long as it can be: it fits, unless it is a single wide character, and the first
character of the next row does not fit any more. These rules leave no choice, so every way of
wrapping that keeps to them gives the same rows. Measuring the characters one by one keeps to them,
and so does cutting an ASCII line into rows of equal length.

1. The rules (`IsGreedy`), and that they determine the rows (`IsGreedy.unique`).
2. Rows that are measured (`isGreedy_greedy`), and rows of equal length (`isGreedy_stepped`).
3. All together (`wrap_greedy`).
-/

namespace LangFile

/-- The columns that a text takes. -/
def Text.width : Text → Nat
  | [] => 0
  | c :: t => c.width + Text.width t

@[simp] theorem Text.width_nil : Text.width [] = 0 := rfl

@[simp] theorem Text.width_cons (c : CodePoint) (t : Text) :
    Text.width (c :: t) = c.width + Text.width t := rfl

@[simp] theorem Text.width_append (t u : Text) :
    Text.width (t ++ u) = Text.width t + Text.width u := by
  induction t with
  | nil => simp
  | cons c t ih => simp [ih, Nat.add_assoc]

/-- ASCII text takes a column for each character. -/
theorem Text.width_of_ascii {t : Text} (h : ∀ c ∈ t, c.isAscii = true) :
    Text.width t = t.length := by
  induction t with
  | nil => rfl
  | cons c t ih =>
    have hc := CodePoint.width_of_isAscii (h c List.mem_cons_self)
    have hrest := ih fun d hd => h d (List.mem_cons_of_mem _ hd)
    rw [width_cons, hc, hrest, List.length_cons, Nat.add_comm]

namespace Editor.Segment

variable {avail : Int} {l : Text} {start stop stop' : Nat} {segments segments' : List Segment}
  {c : CodePoint}

/-! ## The rules -/

/-- The columns that a row takes. -/
def width (s : Segment) (l : Text) : Nat := Text.width (s.slice l)

/-- The row is as long as it can be. -/
structure IsLongest (avail : Int) (l : Text) (s : Segment) : Prop where
  /-- It is not too wide, unless it is a single wide character. -/
  fits : s.width l ≤ avail ∨ ∃ c, s.slice l = [c] ∧ c.width = 2
  /-- The character behind it, if there is one, does not fit any more. -/
  full : ∀ c, l[s.stop]? = some c → avail < s.width l + c.width

/-- The rows lead from a column to the end of the line, and each is as long as it can be. -/
structure IsGreedy (avail : Int) (l : Text) (start : Nat) (segments : List Segment) : Prop where
  consecutive : Consecutive start segments l.length
  longest : ∀ s ∈ segments, IsLongest avail l s

theorem slice_succ (hle : start ≤ stop) (hc : l[stop]? = some c) :
    slice ⟨start, stop + 1⟩ l = slice ⟨start, stop⟩ l ++ [c] := by
  have hnext : slice ⟨stop, stop + 1⟩ l = [c] := by
    obtain ⟨hlt, rfl⟩ := List.getElem?_eq_some_iff.1 hc
    unfold slice
    rw [List.drop_take, Nat.add_sub_cancel_left, List.drop_eq_getElem_cons hlt]
    rfl
  rw [slice_append hle (Nat.le_succ stop), hnext]

theorem width_succ (hle : start ≤ stop) (hc : l[stop]? = some c) :
    width ⟨start, stop + 1⟩ l = width ⟨start, stop⟩ l + c.width := by
  unfold width
  rw [slice_succ hle hc, Text.width_append, Text.width_cons, Text.width_nil, Nat.add_zero]

theorem width_append (hle : start ≤ stop) (hle' : stop ≤ stop') :
    width ⟨start, stop'⟩ l = width ⟨start, stop⟩ l + width ⟨stop, stop'⟩ l := by
  unfold width
  rw [slice_append hle hle', Text.width_append]

@[simp] theorem width_self (n : Nat) (l : Text) : width ⟨n, n⟩ l = 0 := by simp [width]

/-- A row that fits does not begin with a full one. -/
theorem IsLongest.stop_le (h : IsLongest avail l ⟨start, stop⟩)
    (h' : IsLongest avail l ⟨start, stop'⟩) (hlt : start < stop) (hend : stop' ≤ l.length) :
    stop' ≤ stop := by
  refine Nat.le_of_not_lt fun hlonger => ?_
  have hc := List.getElem?_eq_getElem (Nat.lt_of_lt_of_le hlonger hend)
  have hfull := h.full _ hc
  rcases h'.fits with hfits | ⟨d, hslice, -⟩
  · have hnext := width_succ (Nat.le_of_lt hlt) hc
    have hmore : width ⟨start, stop'⟩ l
        = width ⟨start, stop + 1⟩ l + width ⟨stop + 1, stop'⟩ l :=
      width_append (Nat.le_succ_of_le (Nat.le_of_lt hlt)) hlonger
    omega
  · -- the longer row has two characters at least
    have hlength := congrArg List.length hslice
    simp only [slice, List.length_drop, List.length_take, List.length_singleton] at hlength
    omega

/-- **The rules leave no choice.** -/
theorem IsGreedy.unique (h : IsGreedy avail l start segments)
    (h' : IsGreedy avail l start segments') : segments = segments' := by
  obtain ⟨hrows, hlongest⟩ := h
  obtain ⟨hrows', hlongest'⟩ := h'
  generalize hend : l.length = stop at hrows hrows'
  induction hrows generalizing segments' with
  | nil => exact hrows'.eq_nil.symm
  | @cons start stop last segments hlt hrest ih =>
    cases hrows' with
    | nil => exact absurd hlt (Nat.not_lt_of_le hrest.le)
    | @cons _ stop' _ segments' hlt' hrest' =>
      obtain ⟨hfirst, hothers⟩ := List.forall_mem_cons.1 hlongest
      obtain ⟨hfirst', hothers'⟩ := List.forall_mem_cons.1 hlongest'
      obtain rfl : stop = stop' :=
        Nat.le_antisymm (hfirst'.stop_le hfirst hlt' (hend ▸ hrest.le))
          (hfirst.stop_le hfirst' hlt (hend ▸ hrest'.le))
      rw [ih hothers hothers' hend hrest']

/-! ## Measured rows -/

/-- A row of one character always fits. -/
theorem fits_singleton (havail : 1 ≤ avail) (hc : l[start]? = some c) :
    width ⟨start, start + 1⟩ l ≤ avail ∨
      ∃ c, slice ⟨start, start + 1⟩ l = [c] ∧ c.width = 2 := by
  have hwidth := width_succ (Nat.le_refl start) hc
  have hslice := slice_succ (Nat.le_refl start) hc
  rw [width_self, Nat.zero_add] at hwidth
  rw [slice_self, List.nil_append] at hslice
  have hle := c.width_le
  by_cases hwide : c.width = 2
  · exact Or.inr ⟨c, hslice, hwide⟩
  · exact Or.inl (by omega)

/-- Each row that is measured is as long as it can be, when the present one fits so far. -/
theorem isLongest_of_mem_greedyFrom (havail : 1 ≤ avail) {cs : Text} {i : Nat} {used : Int}
    (hcs : l.drop i = cs) (hle : start ≤ i) (hused : used = width ⟨start, i⟩ l)
    (hfits : width ⟨start, i⟩ l ≤ avail ∨ ∃ c, slice ⟨start, i⟩ l = [c] ∧ c.width = 2) :
    ∀ s ∈ greedyFrom avail start i used cs, IsLongest avail l s := by
  induction cs generalizing start i used with
  | nil =>
    have hnone : l[i]? = none := List.getElem?_eq_none (List.drop_eq_nil_iff.1 hcs)
    intro s hs
    obtain rfl := List.mem_singleton.1 hs
    exact ⟨hfits, fun c hc => absurd (hnone.symm.trans hc) (by simp)⟩
  | cons c cs ih =>
    have hc : l[i]? = some c := by rw [← List.head?_drop, hcs]; rfl
    have hrest : l.drop (i + 1) = cs := by rw [← List.tail_drop, hcs]; rfl
    have hwidth := width_succ hle hc
    unfold greedyFrom
    split
    · next hfull =>
      simp only [Bool.and_eq_true, decide_eq_true_eq] at hfull
      have hnext := width_succ (Nat.le_refl i) hc
      rw [width_self, Nat.zero_add] at hnext
      refine List.forall_mem_cons.2 ⟨⟨hfits, fun d hd => ?_⟩, ?_⟩
      · obtain rfl := Option.some.inj (hc.symm.trans hd)
        rw [← hused]
        exact hfull.1
      · exact ih hrest (Nat.le_succ i) (by rw [hnext]) (fits_singleton havail hc)
    · next hroom =>
      simp only [Bool.and_eq_true, decide_eq_true_eq, not_and] at hroom
      refine ih hrest (Nat.le_succ_of_le hle) (by omega) ?_
      by_cases hwide : avail < used + c.width
      · -- a character that alone is too wide begins the row
        obtain rfl : start = i := by
          have hnot := hroom hwide
          omega
        exact fits_singleton havail hc
      · exact Or.inl (by omega)

theorem isGreedy_greedy (havail : 1 ≤ avail) (hne : l ≠ []) :
    IsGreedy avail l 0 (greedy avail l) := by
  have hrows := consecutive_greedyFrom avail l 0 0 0 (Nat.le_refl 0) (Or.inr hne)
  rw [Nat.zero_add] at hrows
  refine ⟨hrows, isLongest_of_mem_greedyFrom havail rfl (Nat.le_refl 0) ?_ (Or.inl ?_)⟩
  · simp
  · rw [width_self]
    omega

/-! ## Rows of equal length -/

/-- An ASCII row takes a column for each character. -/
theorem width_of_ascii (hascii : l.all CodePoint.isAscii = true) (hstop : stop ≤ l.length) :
    width ⟨start, stop⟩ l = stop - start := by
  have hchars : ∀ c ∈ slice ⟨start, stop⟩ l, c.isAscii = true := fun c hc =>
    List.all_eq_true.1 hascii c (List.mem_of_mem_take (List.mem_of_mem_drop hc))
  unfold width
  rw [Text.width_of_ascii hchars]
  simp [slice, Nat.min_eq_left hstop]

/-- On an ASCII line rows of equal length are as long as they can be. -/
theorem isGreedy_stepped {n : Nat} (hn : 0 < n) (hascii : l.all CodePoint.isAscii = true) :
    IsGreedy n l 0 (stepped n l.length) := by
  have hrows := consecutive_stepped hn l.length
  refine ⟨hrows, fun s hs => ?_⟩
  have hend := hrows.stop_le hs
  have hwidth : s.width l = s.stop - s.start := width_of_ascii hascii hend
  obtain ⟨k, -, rfl⟩ := List.mem_map.1 hs
  dsimp only at hwidth hend
  refine ⟨Or.inl (by omega), fun c hc => ?_⟩
  have hlt := (List.getElem?_eq_some_iff.1 hc).1
  have hc := CodePoint.width_pos c
  dsimp only at hlt
  omega

/-! ## The rows of a line -/

/--
**Wrapping is greedy.** On a screen of at least one column an empty line has one empty row. The rows
of any other line are the only ones that follow one another from its first column to its end, none
of them empty, so that each is as long as it can be. For an ASCII line rows of equal length are
those that measuring gives.
-/
theorem wrap_greedy (havail : 1 ≤ avail) :
    wrap? avail [] = some [⟨0, 0⟩] ∧
    (∀ l ≠ [], ∃ segments, wrap? avail l = some segments ∧ IsGreedy avail l 0 segments ∧
      ∀ others, IsGreedy avail l 0 others → others = segments) ∧
    ∀ l ≠ [], l.all CodePoint.isAscii = true →
      stepped avail.toNat l.length = greedy avail l := by
  obtain ⟨n, rfl⟩ := Int.eq_ofNat_of_zero_le (Int.le_trans Int.one_nonneg havail)
  have hsame : ∀ l ≠ [], l.all CodePoint.isAscii = true →
      stepped n l.length = greedy n l := fun l hne hascii =>
    (isGreedy_stepped (by omega) hascii).unique (isGreedy_greedy havail hne)
  have hwrap : ∀ l ≠ [], wrap? n l = some (greedy n l) := by
    intro l hne
    unfold wrap?
    rw [if_neg (by simpa using hne)]
    split
    · next hascii =>
      rw [if_neg (by omega), if_neg (by omega), Int.toNat_natCast, hsame l hne hascii]
    · rfl
  refine ⟨rfl, fun l hne => ?_, hsame⟩
  have hgreedy := isGreedy_greedy havail hne
  exact ⟨_, hwrap l hne, hgreedy, fun others hothers => hothers.unique hgreedy⟩

/-- Wide characters that do not fill the rows of three columns, and one that is wider than a row. -/
theorem wrap_greedy_wide :
    wrap? 3 "가a나bc" = some [⟨0, 2⟩, ⟨2, 4⟩, ⟨4, 5⟩] ∧
    IsGreedy 3 "가a나bc" 0 [⟨0, 2⟩, ⟨2, 4⟩, ⟨4, 5⟩] ∧
    wrap? 1 "a가b" = some [⟨0, 1⟩, ⟨1, 2⟩, ⟨2, 3⟩] ∧
    stepped 3 7 = greedy 3 "abcdefg" := by
  have hrows : wrap? 3 "가a나bc" = some [⟨0, 2⟩, ⟨2, 4⟩, ⟨4, 5⟩] := by decide +kernel
  obtain ⟨-, hgreedy, hascii⟩ := wrap_greedy (show (1 : Int) ≤ 3 by decide)
  obtain ⟨segments, hwrap, hlongest, -⟩ := hgreedy "가a나bc" (by decide)
  obtain rfl := Option.some.inj (hrows.symm.trans hwrap)
  exact ⟨hrows, hlongest, by decide +kernel, hascii "abcdefg" (by decide) (by decide)⟩

end Editor.Segment

end LangFile

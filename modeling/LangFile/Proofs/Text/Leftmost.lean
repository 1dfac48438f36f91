import LangFile.Text.Search

/-!
# Gaps and matches of a search

A search passes over a gap in which no match begins, reads a match, and goes on behind it. Every
text is a gap up to its end, or a gap up to its leftmost match.

## Main statements

* `matchesFrom_gap`, `matchesFrom_match`: the two steps of a search.
* `noMatchIn_or_exists_leftmost`: where the first match of a text lies.
-/

namespace LangFile.Text

variable {α : Type} {p : Pattern α}

/-- No match of the pattern begins in `gap`, when `u` follows it. -/
def NoMatchIn (p : Pattern α) (gap u : Text) : Prop :=
  ∀ g, g <:+ gap → g ≠ [] → p (g ++ u) = none

theorem noMatchIn_nil {u : Text} : NoMatchIn p [] u :=
  fun _ hg hne => absurd (List.suffix_nil.1 hg) hne

theorem NoMatchIn.tail {c : CodePoint} {gap u : Text} (h : NoMatchIn p (c :: gap) u) :
    NoMatchIn p gap u :=
  fun g hg hne => h g (hg.trans (List.suffix_cons c gap)) hne

theorem noMatchIn_cons {c : CodePoint} {gap u : Text} (hc : p (c :: (gap ++ u)) = none)
    (h : NoMatchIn p gap u) : NoMatchIn p (c :: gap) u := by
  intro g hg hne
  rcases List.suffix_cons_iff.1 hg with rfl | hg
  · exact hc
  · exact h g hg hne

theorem NoMatchIn.append {gap gap' u : Text} (h : NoMatchIn p gap (gap' ++ u))
    (h' : NoMatchIn p gap' u) : NoMatchIn p (gap ++ gap') u := by
  induction gap with
  | nil => exact h'
  | cons c gap ih =>
    have hc := h (c :: gap) (List.suffix_refl _) (List.cons_ne_nil _ _)
    rw [List.cons_append]
    refine noMatchIn_cons ?_ (ih h.tail)
    rw [List.append_assoc]
    exact hc

/-! ## The steps of a search -/

/-- **A search passes over a gap.** -/
theorem matchesFrom_gap {gap u : Text} (h : NoMatchIn p gap u) (pos : Nat) :
    matchesFrom p pos 0 (gap ++ u) = matchesFrom p (pos + gap.length) 0 u := by
  induction gap generalizing pos with
  | nil => rfl
  | cons c gap ih =>
    have hc : p (c :: (gap ++ u)) = none := h (c :: gap) (List.suffix_refl _) (List.cons_ne_nil _ _)
    rw [List.cons_append, matchesFrom, hc, ih h.tail]
    simp only [List.length_cons]
    rw [Nat.add_assoc, Nat.add_comm 1]

/-- **A match is reported, and the search goes on behind it.** -/
theorem matchesFrom_match {u : Text} {a : α} {n : Nat} (h : p u = some (a, n)) (hn : 0 < n)
    (hu : u ≠ []) (pos : Nat) :
    matchesFrom p pos 0 u = (pos, a) :: matchesFrom p (pos + n) 0 (u.drop n) := by
  obtain ⟨c, cs, rfl⟩ := List.exists_cons_of_ne_nil hu
  obtain ⟨k, rfl⟩ := Nat.exists_eq_succ_of_ne_zero (Nat.pos_iff_ne_zero.1 hn)
  rw [matchesFrom, h]
  simp only [Nat.succ_eq_add_one, Nat.add_sub_cancel, List.drop_succ_cons]
  rw [matchesFrom_skip, Nat.add_assoc, Nat.add_comm 1]

theorem matchesFrom_eq_nil {t : Text} (h : NoMatchIn p t []) (pos : Nat) :
    matchesFrom p pos 0 t = [] := by
  have := matchesFrom_gap h pos
  rwa [List.append_nil, matchesFrom] at this

/-- What is reported matches where it is reported. -/
theorem match_of_mem_matchesFrom {t : Text} {pos skip k : Nat} {a : α}
    (h : (k, a) ∈ matchesFrom p pos skip t) :
    ∃ j n, k = pos + j ∧ p (t.drop j) = some (a, n) := by
  -- in each case but one the match is reported behind the first character
  have hbehind {c : CodePoint} {t : Text} {pos k : Nat} {a : α}
      (ih : ∃ j n, k = pos + 1 + j ∧ p (t.drop j) = some (a, n)) :
      ∃ j n, k = pos + j ∧ p ((c :: t).drop j) = some (a, n) := by
    obtain ⟨j, n, rfl, hj⟩ := ih
    exact ⟨j + 1, n, by omega, hj⟩
  fun_induction matchesFrom p pos skip t with
  | case1 => simp at h
  | case2 _ _ _ _ ih => exact hbehind (ih h)
  | case3 pos c cs a' n hc ih =>
    rcases List.mem_cons.1 h with heq | h
    · obtain ⟨rfl, rfl⟩ := Prod.mk.inj heq
      exact ⟨0, n, rfl, hc⟩
    · exact hbehind (ih h)
  | case4 _ _ _ _ ih => exact hbehind (ih h)

/-! ## The leftmost match -/

/-- **A text without a match is one gap; any other is a gap before its leftmost match.** -/
theorem noMatchIn_or_exists_leftmost (p : Pattern α) (t : Text) :
    NoMatchIn p t [] ∨
      ∃ gap u a n, t = gap ++ u ∧ NoMatchIn p gap u ∧ u ≠ [] ∧ p u = some (a, n) := by
  induction t with
  | nil => exact Or.inl noMatchIn_nil
  | cons c t ih =>
    cases hc : p (c :: t) with
    | some r =>
      right
      exact ⟨[], c :: t, r.1, r.2, rfl, noMatchIn_nil, List.cons_ne_nil _ _, hc⟩
    | none =>
      rcases ih with h | ⟨gap, u, a, n, rfl, h, hu, ha⟩
      · exact Or.inl (noMatchIn_cons (by simpa using hc) h)
      · exact Or.inr ⟨c :: gap, u, a, n, rfl, noMatchIn_cons hc h, hu, ha⟩

end LangFile.Text

import LangFile.Format.Run

/-!
# Runs are the visible text between codes

Reading a text from the left, a section sign with a character behind it is a code, known or not, and
takes two positions; every other position is visible. The runs of a text are its visible positions,
cut at the codes: each position is in the one run whose state the codes before it lead to, or it
belongs to a code and is in no run.

1. What the positions of a text are (`places`).
2. What runs are to these positions (`IsSegmentation`): the visible positions up to a code
   (`isSegmentation_close`), and what a code parts (`IsSegmentation.append`).
3. The reader of runs, from any position on (`isSegmentation_runsFrom`).
-/

namespace LangFile

/-! ## Places -/

/-- What a position of a text is, when the text is read from the left. -/
inductive Place
  /-- The section sign of a code. -/
  | sign
  /-- The character of a code. -/
  | letter
  /-- A visible character, behind the codes with the given characters. -/
  | visible (codes : List CodePoint)
deriving DecidableEq

namespace Place

/-- The state that codes with the given characters lead to. -/
def stateAfter (codes : List CodePoint) : FormattingState :=
  codes.foldl FormattingState.applyChar .default

theorem stateAfter_concat (codes : List CodePoint) (c : CodePoint) :
    stateAfter (codes ++ [c]) = (stateAfter codes).applyChar c := by
  rw [stateAfter, List.foldl_append]
  rfl

/-- The state that a visible position is drawn in. -/
def state? : Place → Option FormattingState
  | visible codes => some (stateAfter codes)
  | _ => none

end Place

/-- What the positions of a text are, which comes behind codes with the given characters. -/
def placesBehind (codes : List CodePoint) : Text → List Place
  | [] => []
  | [_] => [.visible codes]
  | c :: d :: rest =>
    if c = marker then .sign :: .letter :: placesBehind (codes ++ [d]) rest
    else .visible codes :: placesBehind codes (d :: rest)

/-- What the positions of a text are. -/
def places (t : Text) : List Place := placesBehind [] t

theorem length_placesBehind (codes : List CodePoint) (t : Text) :
    (placesBehind codes t).length = t.length := by
  fun_induction placesBehind codes t with
  | case1 => rfl
  | case2 => rfl
  | case3 _ _ _ ih => simp [ih]
  | case4 _ _ _ _ _ ih => simp [ih]

/-- The places of two parts of a text with a code between them. -/
theorem place_between {ps qs : List Place} {i : Nat} {p : Place}
    (h : (ps ++ .sign :: .letter :: qs)[i]? = some p) :
    (i < ps.length ∧ ps[i]? = some p) ∨ (i = ps.length ∧ p = .sign) ∨
      (i = ps.length + 1 ∧ p = .letter) ∨ ∃ j, i = ps.length + 2 + j ∧ qs[j]? = some p := by
  by_cases hi : i < ps.length
  · rw [List.getElem?_append_left hi] at h
    exact Or.inl ⟨hi, h⟩
  · obtain ⟨j, rfl⟩ := Nat.exists_eq_add_of_le (Nat.le_of_not_lt hi)
    rw [List.getElem?_append_right (Nat.le_add_right _ _), Nat.add_sub_cancel_left] at h
    match j, h with
    | 0, h => exact Or.inr (Or.inl ⟨rfl, (Option.some.inj h).symm⟩)
    | 1, h => exact Or.inr (Or.inr (Or.inl ⟨rfl, (Option.some.inj h).symm⟩))
    | j + 2, h => exact Or.inr (Or.inr (Or.inr ⟨j, by omega, h⟩))

/-! ## Segmentations -/

namespace Run

/-- The run holds a position. -/
def Covers (r : Run) (p : Int) : Prop := r.start ≤ p ∧ p < r.stop

instance (r : Run) (p : Int) : Decidable (r.Covers p) :=
  inferInstanceAs (Decidable (r.start ≤ p ∧ p < r.stop))

/-- A code of a text that begins at offset `base` stands between two runs. -/
def CodeBetween (base : Int) (places : List Place) (r s : Run) : Prop :=
  ∃ i : Nat, r.stop ≤ base + i ∧ base + i + 2 ≤ s.start ∧
    places[i]? = some .sign ∧ places[i + 1]? = some .letter

/-- The runs are the visible positions of a text that begins at offset `base`, cut at the codes. -/
structure IsSegmentation (base : Int) (places : List Place) (runs : List Run) : Prop where
  /-- No run is empty, and all are within the text. -/
  bounds : ∀ r ∈ runs, base ≤ r.start ∧ r.start < r.stop ∧ r.stop ≤ base + places.length
  /-- The runs are in order, with a code between any two. -/
  separated : runs.Pairwise (CodeBetween base places)
  /-- A visible position is in one run, which has its state, and a position of a code is in none. -/
  covers : ∀ (i : Nat) (p : Place), places[i]? = some p →
    (runs.filter fun r => r.Covers (base + i)).map Run.state = p.state?.toList

variable {base : Int} {ps qs : List Place} {rs ss : List Run}

theorem CodeBetween.append_right {r s : Run} (h : CodeBetween base ps r s) (qs : List Place) :
    CodeBetween base (ps ++ qs) r s := by
  obtain ⟨i, hr, hs, hsign, hletter⟩ := h
  obtain ⟨hi, -⟩ := List.getElem?_eq_some_iff.1 hsign
  obtain ⟨hi', -⟩ := List.getElem?_eq_some_iff.1 hletter
  refine ⟨i, hr, hs, ?_, ?_⟩
  · rwa [List.getElem?_append_left hi]
  · rwa [List.getElem?_append_left hi']

theorem CodeBetween.append_left {r s : Run} (h : CodeBetween (base + ps.length) qs r s) :
    CodeBetween base (ps ++ qs) r s := by
  obtain ⟨i, hr, hs, hsign, hletter⟩ := h
  refine ⟨ps.length + i, by omega, by omega, ?_, ?_⟩
  · rwa [List.getElem?_append_right (Nat.le_add_right _ _), Nat.add_sub_cancel_left]
  · rwa [Nat.add_assoc, List.getElem?_append_right (Nat.le_add_right _ _), Nat.add_sub_cancel_left]

/-- The visible positions before a code, or at the end of a text, are one run when there are any. -/
theorem isSegmentation_close (base : Int) (codes : List CodePoint) (n : Nat) :
    IsSegmentation base (List.replicate n (.visible codes))
      (close (Place.stateAfter codes) (some base) (base + n)) := by
  by_cases hn : n = 0
  · subst hn
    have hclose : close (Place.stateAfter codes) (some base) (base + (0 : Nat)) = [] := by
      simp [close]
    rw [hclose]
    exact ⟨List.forall_mem_nil _, .nil, fun i p hp => by simp at hp⟩
  · have hclose : close (Place.stateAfter codes) (some base) (base + n)
        = [⟨base, base + n, Place.stateAfter codes⟩] := by
      have hlt : base < base + n := by omega
      simp [close, hlt]
    rw [hclose]
    refine ⟨?_, List.pairwise_singleton _ _, fun i p hp => ?_⟩
    · simp only [List.mem_singleton, forall_eq, List.length_replicate]
      omega
    · obtain ⟨hi, rfl⟩ : i < n ∧ .visible codes = p := by
        simpa [List.getElem?_replicate] using hp
      have hcovers : Covers ⟨base, base + n, Place.stateAfter codes⟩ (base + i) := by
        constructor
        · exact Int.le_add_of_nonneg_right (Int.natCast_nonneg i)
        · dsimp only
          omega
      simp [hcovers, Place.state?]

/-- No run holds a position before the text or behind it. -/
theorem IsSegmentation.filter_eq_nil (h : IsSegmentation base ps rs) {p : Int}
    (hp : p < base ∨ base + ps.length ≤ p) : (rs.filter fun r => r.Covers p) = [] := by
  refine List.filter_eq_nil_iff.2 fun r hr hcovers => ?_
  obtain ⟨hstart, hstop⟩ := of_decide_eq_true hcovers
  have hbounds := h.bounds r hr
  omega

/-- **A code parts two segmentations.** -/
theorem IsSegmentation.append (hrs : IsSegmentation base ps rs)
    (hss : IsSegmentation (base + ps.length + 2) qs ss) :
    IsSegmentation base (ps ++ .sign :: .letter :: qs) (rs ++ ss) := by
  have hlength : (ps ++ Place.sign :: .letter :: qs).length = ps.length + 2 + qs.length := by
    simp only [List.length_append, List.length_cons]
    omega
  refine ⟨?_, List.pairwise_append.2 ⟨?_, ?_, fun r hr s hs => ?_⟩, fun i p hp => ?_⟩
  · rw [hlength]
    refine List.forall_mem_append.2 ⟨fun r hr => ?_, fun s hs => ?_⟩
    · have hbounds := hrs.bounds r hr
      omega
    · have hbounds := hss.bounds s hs
      omega
  · exact hrs.separated.imp fun h => h.append_right _
  · have hcut : ps ++ Place.sign :: .letter :: qs = ps ++ [.sign, .letter] ++ qs := by simp
    rw [hcut]
    refine hss.separated.imp fun h => .append_left ?_
    rw [List.length_append, Int.natCast_add, ← Int.add_assoc]
    exact h
  · exact ⟨ps.length, (hrs.bounds r hr).2.2, (hss.bounds s hs).1, by simp, by simp⟩
  · rw [List.filter_append, List.map_append]
    rcases place_between hp with ⟨hi, hplace⟩ | ⟨rfl, rfl⟩ | ⟨rfl, rfl⟩ | ⟨j, rfl, hplace⟩
    · rw [hss.filter_eq_nil (Or.inl (by omega)), List.map_nil, List.append_nil,
        hrs.covers i p hplace]
    · rw [hrs.filter_eq_nil (Or.inr (by omega)), hss.filter_eq_nil (Or.inl (by omega))]
      rfl
    · rw [hrs.filter_eq_nil (Or.inr (by omega)), hss.filter_eq_nil (Or.inl (by omega))]
      rfl
    · have hshift : base + ((ps.length + 2 + j : Nat) : Int) = base + ps.length + 2 + j := by
        omega
      rw [hrs.filter_eq_nil (Or.inr (by omega)), hshift, hss.covers j p hplace]
      rfl

/-! ## The runs of a text -/

/-- **One step at a code, one at a visible character:** the present run has `n` visible positions
behind it, which begin at `start`. -/
theorem isSegmentation_runsFrom (codes : List CodePoint) (rest : Text) (start : Int) (n : Nat) :
    IsSegmentation start (List.replicate n (.visible codes) ++ placesBehind codes rest)
      (runsFrom true (Place.stateAfter codes) (some start) (start + n) rest) := by
  fun_induction placesBehind codes rest generalizing start n with
  | case1 codes =>
    rw [List.append_nil, runsFrom]
    exact isSegmentation_close start codes n
  | case2 codes c =>
    rw [← List.replicate_succ', runsFrom, Int.add_assoc]
    exact isSegmentation_close start codes (n + 1)
  | case3 codes d rest ih =>
    rw [runsFrom, if_pos rfl, ← Place.stateAfter_concat]
    refine (isSegmentation_close start codes n).append ?_
    have htail := ih (start + n + 2) 0
    simpa using htail
  | case4 codes c d rest hc ih =>
    have hreplicate : List.replicate n (Place.visible codes) ++
          .visible codes :: placesBehind codes (d :: rest)
        = List.replicate (n + 1) (.visible codes) ++ placesBehind codes (d :: rest) := by
      rw [List.replicate_succ', List.append_assoc]
      rfl
    rw [runsFrom, if_neg hc, hreplicate, Int.add_assoc]
    exact ih start (n + 1)

theorem length_places (t : Text) : (places t).length = t.length := length_placesBehind [] t

theorem isSegmentation_places (t : Text) (base : Int) :
    IsSegmentation base (places t) (runs t true base) := by
  have hruns := isSegmentation_runsFrom [] t base 0
  rw [List.replicate_zero, List.nil_append, Int.natCast_zero, Int.add_zero] at hruns
  exact hruns

/--
**The runs of a text are its visible positions, cut at the codes.** Each position of the text is a
place. The runs are not empty, they are in order with a code between any two, and they hold no
position of a code; each visible position is in exactly one run, in the state that all codes before
it lead to from the default one.
-/
theorem isSegmentation_runs (t : Text) (base : Int) :
    (places t).length = t.length ∧ IsSegmentation base (places t) (runs t true base) :=
  ⟨length_places t, isSegmentation_places t base⟩

-- Behind a code a section sign begins another one, and at the end of the text it is visible.
example : runs "a§l§§b§" true
    = [⟨0, 1, .default⟩, ⟨5, 7, FormattingState.default.apply .bold⟩] := by
  decide

end Run

end LangFile

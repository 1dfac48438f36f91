import LangFile.Editor.Wrap

/-!
# The rows of a wrapped line

The rows of a line follow one another from its first column to its end, and none is empty unless the
line is. So every column lies in one row, and the end of the line behind the last one.

1. Segments that follow one another (`Consecutive`), as both ways of wrapping make them
   (`consecutive_wrap`), so that they part what they cut without loss (`flatMap_wrap`).
2. The row of a column (`index`), and what it holds (`exists_segment`).
-/

namespace LangFile.Editor.Segment

/-! ## Segments that follow one another -/

/-- The segments lead from one column to another without a gap, and none is empty. -/
inductive Consecutive : Nat → List Segment → Nat → Prop
  | nil (n : Nat) : Consecutive n [] n
  | cons {start stop last : Nat} {segments : List Segment} :
    start < stop → Consecutive stop segments last →
    Consecutive start (⟨start, stop⟩ :: segments) last

theorem consecutive_greedyFrom (avail : Int) (cs : Text) (start i : Nat) (used : Int)
    (hle : start ≤ i) (hne : start < i ∨ cs ≠ []) :
    Consecutive start (greedyFrom avail start i used cs) (i + cs.length) := by
  induction cs generalizing start i used with
  | nil =>
    have hlt : start < i := hne.resolve_right fun h => h rfl
    exact .cons hlt (.nil i)
  | cons c cs ih =>
    have hlength : i + (c :: cs).length = i + 1 + cs.length := by
      rw [List.length_cons]
      omega
    unfold greedyFrom
    rw [hlength]
    split
    · next hfull =>
      have hlt : start < i := by
        simp only [Bool.and_eq_true, decide_eq_true_eq] at hfull
        exact hfull.2
      exact .cons hlt (ih i (i + 1) c.width (Nat.le_succ i) (Or.inl (Nat.lt_succ_self i)))
    · exact ih start (i + 1) (used + c.width) (Nat.le_succ_of_le hle)
        (Or.inl (Nat.lt_succ_of_le hle))

/-- From some row on, the rows of equal width lead to the end. -/
theorem consecutive_steps (avail n m k : Nat) (hend : n ≤ (k + m) * avail)
    (hbegins : ∀ j < k + m, j * avail < n) :
    Consecutive (min (k * avail) n)
      ((List.range' k m).map fun k => ⟨k * avail, min (k * avail + avail) n⟩) n := by
  induction m generalizing k with
  | zero =>
    rw [Nat.add_zero] at hend
    rw [Nat.min_eq_right hend]
    exact .nil n
  | succ m ih =>
    have hstart : k * avail < n := hbegins k (by omega)
    have hnext := ih (k + 1) (by rwa [Nat.add_right_comm, Nat.add_assoc]) fun j hj =>
      hbegins j (by omega)
    rw [Nat.succ_mul] at hnext
    have havail : 0 < avail := by
      rcases Nat.eq_zero_or_pos avail with rfl | hpos
      · rw [Nat.mul_zero] at hend
        omega
      · exact hpos
    rw [Nat.min_eq_left (Nat.le_of_lt hstart), List.range'_succ, List.map_cons]
    exact .cons (by omega) hnext

theorem consecutive_stepped {avail : Nat} (havail : 0 < avail) (n : Nat) :
    Consecutive 0 (stepped avail n) n := by
  have hmod := Nat.div_add_mod (n + avail - 1) avail
  have hlt := Nat.mod_lt (n + avail - 1) havail
  rw [Nat.mul_comm] at hmod
  have hsteps := consecutive_steps avail n ((n + avail - 1) / avail) 0
    (by rw [Nat.zero_add]; omega) fun j hj => by
      rw [Nat.zero_add] at hj
      have hle := Nat.mul_le_mul_right avail (Nat.succ_le_of_lt hj)
      rw [Nat.succ_mul] at hle
      omega
  rw [Nat.zero_mul, Nat.zero_min] at hsteps
  unfold stepped
  rw [List.range_eq_range']
  exact hsteps

/-- **The rows of a line lead from its first column to its end.** -/
theorem consecutive_wrap {avail : Nat} (havail : 0 < avail) {line : Text} (hne : line ≠ []) :
    Consecutive 0 (wrap avail line) line.length := by
  have hempty : line.isEmpty = false := by simpa using hne
  unfold wrap wrap?
  rw [hempty, if_neg Bool.false_ne_true]
  by_cases hascii : line.all CodePoint.isAscii = true
  · rw [if_pos hascii, if_neg (by omega), if_neg (by omega)]
    exact consecutive_stepped havail line.length
  · rw [if_neg hascii]
    have hgreedy := consecutive_greedyFrom avail line 0 0 0 (Nat.le_refl 0)
      (Or.inr hne)
    rw [Nat.zero_add] at hgreedy
    exact hgreedy

/-- The part of a list that a segment cuts out. -/
def slice {α : Type} (s : Segment) (l : List α) : List α := (l.take s.stop).drop s.start

theorem Consecutive.le {a b : Nat} {segments : List Segment} (h : Consecutive a segments b) :
    a ≤ b := by
  induction h with
  | nil => exact Nat.le_refl _
  | cons hlt _ ih => exact Nat.le_trans (Nat.le_of_lt hlt) ih

/-- Two stretches of a list, the second behind the first, are one stretch. -/
theorem slice_append {α : Type} {a b c : Nat} (hab : a ≤ b) (hbc : b ≤ c) (l : List α) :
    slice ⟨a, c⟩ l = slice ⟨a, b⟩ l ++ slice ⟨b, c⟩ l := by
  have hlength : c - a = (b - a) + (c - b) := by omega
  have hdrop : l.drop b = (l.drop a).drop (b - a) := by
    rw [List.drop_drop, Nat.add_sub_cancel' hab]
  unfold slice
  rw [List.drop_take, List.drop_take, List.drop_take, hdrop, hlength, List.take_add]

@[simp] theorem slice_self {α : Type} (n : Nat) (l : List α) : slice ⟨n, n⟩ l = [] :=
  List.drop_eq_nil_of_le (List.length_take_le n l)

/-- Nothing leads from a column to itself. -/
theorem Consecutive.eq_nil {n : Nat} {segments : List Segment} (h : Consecutive n segments n) :
    segments = [] := by
  cases h with
  | nil => rfl
  | cons hlt hrest => exact absurd hlt (Nat.not_lt_of_le hrest.le)

/-- What segments that follow one another cut out is all that is between their ends. -/
theorem Consecutive.flatMap_slice {α : Type} {a b : Nat} {segments : List Segment}
    (h : Consecutive a segments b) (l : List α) :
    segments.flatMap (·.slice l) = slice ⟨a, b⟩ l := by
  induction h with
  | nil n => rw [List.flatMap_nil, slice_self]
  | cons hlt hrest ih => rw [List.flatMap_cons, ih, slice_append (Nat.le_of_lt hlt) hrest.le]

/-- **Wrapping loses nothing:** the rows of a line have its characters, each once and in order. -/
theorem flatMap_wrap {α : Type} {avail : Nat} (havail : 0 < avail) {line : Text} {l : List α}
    (hlength : l.length = line.length) : (wrap avail line).flatMap (·.slice l) = l := by
  by_cases hne : line = []
  · subst hne
    obtain rfl := List.eq_nil_of_length_eq_zero hlength
    rfl
  · rw [(consecutive_wrap havail hne).flatMap_slice, ← hlength]
    exact List.take_length

/-! ## The row of a column -/

variable {avail column : Nat} {line : Text}

/-- The row of a column: the first one that ends behind it, or else the last one. -/
def index (avail : Nat) (line : Text) (column : Nat) : Nat :=
  min ((wrap avail line).findIdx fun s => column < s.stop) ((wrap avail line).length - 1)

namespace Consecutive

variable {a b : Nat} {segments : List Segment}

/-- A column lies in the first segment that ends behind it. -/
theorem exists_of_lt (h : Consecutive a segments b) (hle : a ≤ column) (hlt : column < b) :
    ∃ s, segments[segments.findIdx fun s => column < s.stop]? = some s ∧
      s.start ≤ column ∧ column < s.stop ∧ s.stop ≤ b := by
  induction h with
  | nil n => omega
  | @cons start stop last segments _ hrest ih =>
    rw [List.findIdx_cons]
    by_cases hinside : column < stop
    · refine ⟨⟨start, stop⟩, ?_, hle, hinside, hrest.le⟩
      simp [hinside]
    · obtain ⟨s, hs, hbounds⟩ := ih (Nat.le_of_not_lt hinside) hlt
      refine ⟨s, ?_, hbounds⟩
      simpa [hinside] using hs

/-- No segment ends behind the last one. -/
theorem stop_le (h : Consecutive a segments b) {s : Segment} (hs : s ∈ segments) : s.stop ≤ b := by
  induction h with
  | nil => simp at hs
  | cons _ hrest ih =>
    rcases List.mem_cons.1 hs with rfl | hs
    · exact hrest.le
    · exact ih hs

/-- The last segment ends where they all lead. -/
theorem exists_last (h : Consecutive a segments b) (hlt : a < b) :
    ∃ s, segments.getLast? = some s ∧ s.start ≤ b ∧ s.stop = b := by
  induction h with
  | nil n => omega
  | @cons start stop last segments hstart hrest ih =>
    by_cases hmore : stop < last
    · obtain ⟨s, hs, hbounds⟩ := ih hmore
      refine ⟨s, ?_, hbounds⟩
      rw [List.getLast?_cons, hs]
      rfl
    · have hsame : stop = last := Nat.le_antisymm hrest.le (Nat.le_of_not_lt hmore)
      subst hsame
      obtain rfl := hrest.eq_nil
      exact ⟨⟨start, stop⟩, rfl, Nat.le_of_lt hstart, rfl⟩

end Consecutive

theorem wrap_ne_nil (havail : 0 < avail) (line : Text) : wrap avail line ≠ [] := by
  by_cases hne : line = []
  · subst hne
    exact List.cons_ne_nil _ _
  · obtain ⟨s, hs, -⟩ := (consecutive_wrap havail hne).exists_last (List.length_pos_iff.2 hne)
    rintro hnil
    simp [hnil] at hs

/-- **A column of a line lies in its row,** and the end of the line behind the last row. Rows above
end before it. -/
theorem exists_segment (havail : 0 < avail) (hle : column ≤ line.length) :
    ∃ s, (wrap avail line)[index avail line column]? = some s ∧ s.start ≤ column ∧
      (column < line.length ∧ column < s.stop ∧ s.stop ≤ line.length ∨
        column = line.length ∧ s.stop = line.length ∧
          index avail line column + 1 = (wrap avail line).length) := by
  by_cases hne : line = []
  · subst hne
    obtain rfl : column = 0 := Nat.le_zero.1 hle
    exact ⟨⟨0, 0⟩, rfl, Nat.le_refl 0, Or.inr ⟨rfl, rfl, rfl⟩⟩
  have hconsecutive := consecutive_wrap havail hne
  have hpos := List.length_pos_iff.2 hne
  have hrows := List.length_pos_iff.2 (wrap_ne_nil havail line)
  by_cases hlt : column < line.length
  · obtain ⟨s, hs, hstart, hstop, hend⟩ := hconsecutive.exists_of_lt (Nat.zero_le column) hlt
    have hindex : index avail line column
        = (wrap avail line).findIdx fun s => column < s.stop := by
      have hinside := (List.getElem?_eq_some_iff.1 hs).1
      exact Nat.min_eq_left (by omega)
    rw [hindex]
    exact ⟨s, hs, hstart, Or.inl ⟨hlt, hstop, hend⟩⟩
  · obtain rfl : column = line.length := Nat.le_antisymm hle (Nat.le_of_not_lt hlt)
    have hnone : (wrap avail line).findIdx (fun s => line.length < s.stop)
        = (wrap avail line).length := by
      rw [List.findIdx_eq_length]
      intro s hs
      simpa using hconsecutive.stop_le hs
    have hindex : index avail line line.length = (wrap avail line).length - 1 := by
      unfold index
      rw [hnone]
      omega
    obtain ⟨s, hs, hstart, hstop⟩ := hconsecutive.exists_last hpos
    rw [List.getLast?_eq_getElem?] at hs
    rw [hindex]
    exact ⟨s, hs, hstart, Or.inr ⟨rfl, hstop, by omega⟩⟩

/-- A row above that of a column ends before it, and is not the last one. -/
theorem stop_le_of_lt_index {i : Nat} {s : Segment} (hs : (wrap avail line)[i]? = some s)
    (hi : i < index avail line column) :
    s.stop ≤ column ∧ i + 1 ≠ (wrap avail line).length := by
  unfold index at hi
  obtain ⟨hlt, rfl⟩ := List.getElem?_eq_some_iff.1 hs
  have hnot := List.not_of_lt_findIdx (Nat.lt_of_lt_of_le hi (Nat.min_le_left _ _))
  refine ⟨by simpa using hnot, ?_⟩
  omega

end LangFile.Editor.Segment

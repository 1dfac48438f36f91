import LangFile.Proofs.Format.Segmentation

/-!
# Styled runs at any offset

A reading that leaves out the runs in the default state has no run open while the state is the
default one. At any other time its open run begins where that of the full reading begins, so no run
is lost, begins late or goes on behind a reset. Where a text stands decides about nothing but the
offsets.

1. The open run (`opened`), in both readings (`runsFrom_eq_filter`).
2. The offsets (`runsFrom_shift`).
3. Where a run stands in the text (`exists_textIn`).
4. All together (`styled_runs`).
-/

namespace LangFile.Run

/-! ## The open run -/

theorem opened_of_isDefault {state : FormattingState} (h : state.isDefault = true) (s : Int) :
    opened false state s = none := by
  simp [opened, isWanted, h]

theorem opened_of_styled {state : FormattingState} (h : state.isDefault = false) (s : Int) :
    opened false state s = some s := by
  simp [opened, isWanted, h]

theorem state_of_mem_close {state : FormattingState} {start : Option Int} {pos : Int} {r : Run}
    (h : r ∈ close state start pos) : r.state = state := by
  unfold close at h
  split at h
  · split at h
    · rw [List.mem_singleton.1 h]
    · exact absurd h List.not_mem_nil
  · exact absurd h List.not_mem_nil

/-- **A code closes the open run of both readings,** or only that of the full one when the state is
the default one. -/
theorem close_opened (state : FormattingState) (s pos : Int) :
    close state (opened false state s) pos
      = (close state (some s) pos).filter fun r => !r.state.isDefault := by
  cases hdefault : state.isDefault with
  | true =>
    rw [opened_of_isDefault hdefault, List.filter_eq_nil_iff.2]
    · rfl
    · intro r hr
      simp [state_of_mem_close hr, hdefault]
  | false =>
    rw [opened_of_styled hdefault, List.filter_eq_self.2]
    intro r hr
    simp [state_of_mem_close hr, hdefault]

/-- At the end of a text nothing is open that is not asked for. -/
theorem closeLast_opened (state : FormattingState) (s pos : Int) :
    closeLast false state (opened false state s) pos = close state (opened false state s) pos := by
  unfold closeLast
  split
  · rfl
  · next hwanted =>
    rw [opened, if_neg hwanted]
    rfl

/-- **One step at a code, one at a visible character:** the reading that leaves out the default
state has open what it asks for of the run that the full reading has open at `s`. -/
theorem runsFrom_eq_filter {state : FormattingState} {start : Option Int} {s : Int}
    (h : start = opened false state s) (pos : Int) (t : Text) :
    runsFrom false state start pos t
      = (runsFrom true state (some s) pos t).filter fun r => !r.state.isDefault := by
  -- The full reading opens its run at another place behind each code, hence `s` is generalized.
  fun_induction runsFrom false state start pos t generalizing s with
  | case1 state start pos =>
    rw [h, closeLast_opened, close_opened]
    rfl
  | case2 state start pos c =>
    rw [h, closeLast_opened, close_opened]
    rfl
  | case3 state start pos d rest ih =>
    rw [ih rfl, h, close_opened, runsFrom, if_pos rfl, List.filter_append]
    rfl
  | case4 state start pos c d rest hc ih => rw [ih h, runsFrom, if_neg hc]

/-- The runs without those in the default state. -/
theorem runs_eq_filter (t : Text) (base : Int) :
    runs t false base = (runs t true base).filter fun r => !r.state.isDefault :=
  runsFrom_eq_filter rfl base t

/-- A text without a section sign has no run but the one in the default state. -/
theorem runsFrom_eq_nil {t : Text} (h : marker ∉ t) (start : Option Int) (pos : Int) :
    runsFrom false .default start pos t = [] := by
  induction t generalizing pos with
  | nil => rfl
  | cons c t ih =>
    cases t with
    | nil => rfl
    | cons d rest =>
      rw [runsFrom, if_neg (List.ne_of_not_mem_cons h).symm]
      exact ih (List.not_mem_of_not_mem_cons h) (pos + 1)

/-! ## Offsets -/

/-- The run in a text that stands `n` positions further on. -/
def shift (n : Int) (r : Run) : Run := ⟨r.start + n, r.stop + n, r.state⟩

theorem textIn_shift (n : Int) (r : Run) (source : Text) (base : Int) :
    (r.shift n).textIn source (base + n) = r.textIn source base := by
  have hstart : r.start + n - (base + n) = r.start - base := by omega
  have hstop : r.stop + n - (base + n) = r.stop - base := by omega
  rw [textIn, textIn, shift, hstart, hstop]

theorem opened_shift (keepDefault : Bool) (state : FormattingState) (pos n : Int) :
    opened keepDefault state (pos + n) = (opened keepDefault state pos).map (· + n) := by
  unfold opened
  split
  · rfl
  · rfl

theorem close_shift (state : FormattingState) (start : Option Int) (pos n : Int) :
    close state (start.map (· + n)) (pos + n) = (close state start pos).map (shift n) := by
  cases start with
  | none => rfl
  | some s =>
    have hlt : s + n < pos + n ↔ s < pos := by omega
    rw [Option.map_some, close, close]
    by_cases h : s < pos
    · rw [if_pos h, if_pos (hlt.2 h)]
      rfl
    · rw [if_neg h, if_neg (mt hlt.1 h)]
      rfl

theorem closeLast_shift (keepDefault : Bool) (state : FormattingState) (start : Option Int)
    (pos n : Int) :
    closeLast keepDefault state (start.map (· + n)) (pos + n)
      = (closeLast keepDefault state start pos).map (shift n) := by
  unfold closeLast
  split
  · exact close_shift state start pos n
  · rfl

/-- **A text that stands further on has the same runs further on.** -/
theorem runsFrom_shift (keepDefault : Bool) (state : FormattingState) (start : Option Int)
    (pos n : Int) (t : Text) :
    runsFrom keepDefault state (start.map (· + n)) (pos + n) t
      = (runsFrom keepDefault state start pos t).map (shift n) := by
  fun_induction runsFrom keepDefault state start pos t with
  | case1 state start pos => exact closeLast_shift keepDefault state start pos n
  | case2 state start pos c =>
    rw [← closeLast_shift, runsFrom, Int.add_right_comm]
  | case3 state start pos d rest ih =>
    rw [List.map_append, ← close_shift, ← ih, ← opened_shift, Int.add_right_comm pos 2 n, runsFrom,
      if_pos rfl]
  | case4 state start pos c d rest hc ih =>
    rw [← ih, Int.add_right_comm pos 1 n, runsFrom, if_neg hc]

theorem runs_eq_map_shift (t : Text) (keepDefault : Bool) (base : Int) :
    runs t keepDefault base = (runs t keepDefault).map (shift base) := by
  have hshift := runsFrom_shift keepDefault .default (if keepDefault then some 0 else none) 0 base t
  have hstart : (if keepDefault then some (0 : Int) else none).map (· + base)
      = if keepDefault then some base else none := by
    cases keepDefault <;> simp
  rw [hstart, Int.zero_add] at hshift
  exact hshift

/-! ## The text of a run -/

theorem mem_runs {t : Text} {base : Int} {r : Run} :
    r ∈ runs t false base ↔ r ∈ runs t true base ∧ r.state ≠ .default := by
  rw [runs_eq_filter, List.mem_filter]
  simp [FormattingState.isDefault]

theorem bounds_of_mem_runs {t : Text} {base : Int} {r : Run} (h : r ∈ runs t false base) :
    base ≤ r.start ∧ r.start < r.stop ∧ r.stop ≤ base + t.length := by
  rw [← length_places]
  exact (isSegmentation_places t base).bounds r (mem_runs.1 h).1

/-- The text of a run within a text is what stands there between the run's ends. -/
theorem exists_textIn {t : Text} {base : Int} {r : Run} (hstart : base ≤ r.start)
    (hle : r.start ≤ r.stop) (hstop : r.stop ≤ base + t.length) :
    ∃ before after, t = before ++ r.textIn t base ++ after ∧ base + before.length = r.start ∧
      r.start + (r.textIn t base).length = r.stop := by
  obtain ⟨i, hi⟩ := Int.le.dest hstart
  obtain ⟨n, hn⟩ := Int.le.dest hle
  have hfirst : (r.start - base).toNat = i := by omega
  have hlast : (r.stop - base).toNat = i + n := by omega
  have htext : r.textIn t base = (t.drop i).take n := by
    rw [textIn, Text.slice, hfirst, hlast, List.drop_take, Nat.add_sub_cancel_left]
  have hfits : i + n ≤ t.length := by omega
  refine ⟨t.take i, (t.drop i).drop n, ?_, ?_, ?_⟩
  · rw [htext, List.append_assoc, List.take_append_drop, List.take_append_drop]
  · rw [List.length_take, Nat.min_eq_left (by omega)]
    exact hi
  · rw [htext, List.length_take, List.length_drop, Nat.min_eq_left (by omega)]
    exact hn

/-! ## All together -/

/--
**The styled runs of a text are its runs without those in the default state, wherever it stands.**
The runs of a text that begins at offset `base`, read without those in the default state, are the
runs of the full reading from offset zero that are in another state, in their order, with `base`
added to both ends. Each has the text of the run that it comes from, and that is what stands in the
text between its ends.
-/
theorem styled_runs (t : Text) (base : Int) :
    let styled := (runs t true).filter fun r => r.state ≠ .default
    runs t false base = styled.map (shift base) ∧
      (runs t false base).map (fun r => r.textIn t base) = styled.map (fun r => r.textIn t 0) ∧
      ∀ r ∈ runs t false base, ∃ before after, t = before ++ r.textIn t base ++ after ∧
        base + before.length = r.start ∧ r.start + (r.textIn t base).length = r.stop := by
  intro styled
  have hstyled : runs t false = styled := by
    rw [runs_eq_filter]
    refine List.filter_congr fun r _ => ?_
    simp [FormattingState.isDefault]
  have hruns : runs t false base = styled.map (shift base) := by
    rw [runs_eq_map_shift, hstyled]
  refine ⟨hruns, ?_, fun r hr => ?_⟩
  · rw [hruns, List.map_map]
    refine List.map_congr_left fun r _ => ?_
    have htext := textIn_shift base r t 0
    rwa [Int.zero_add] at htext
  · obtain ⟨hstart, hlt, hstop⟩ := bounds_of_mem_runs hr
    exact exists_textIn hstart (Int.le_of_lt hlt) hstop

-- A reset closes the run, and an unknown code behind it opens none.
example : runs "a§lb§rc§zd" false 10 = [⟨13, 14, FormattingState.default.apply .bold⟩] := by
  decide

end LangFile.Run

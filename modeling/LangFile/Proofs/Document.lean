import LangFile.Document
import Mathlib.Data.List.Induction

/-!
# Places in a document

A place parts the text. Its row is the number of line feeds before it, and its column the number of
characters behind the last of them. The table of line starts answers both.

1. The starts of two texts put together (`lineStartsFrom_append`).
2. The start of the last line (`getElem?_lineStarts`).
3. The position of a place (`positionIn_lineStarts`, `Document.positionAt_new`).
-/

namespace LangFile

variable {t before : Text}

/-- The characters behind the last line feed. -/
def Text.lastLine (t : Text) : Text := (t.reverse.takeWhile (· ≠ .scalar '\n')).reverse

@[simp] theorem Text.lastLine_nil : Text.lastLine [] = [] := rfl

theorem Text.lastLine_concat (t : Text) (c : CodePoint) :
    Text.lastLine (t ++ [c]) = if c = .scalar '\n' then [] else Text.lastLine t ++ [c] := by
  unfold lastLine
  rw [List.reverse_concat]
  split
  · next h => rw [List.takeWhile_cons_of_neg (by simpa using h), List.reverse_nil]
  · next h => rw [List.takeWhile_cons_of_pos (by simpa using h), List.reverse_cons]

theorem Text.length_lastLine_le (t : Text) : t.lastLine.length ≤ t.length := by
  have hreversed := (t.reverse.takeWhile_sublist (· ≠ .scalar '\n')).length_le
  rw [List.length_reverse] at hreversed
  rwa [lastLine, List.length_reverse]

/-! ## Line starts -/

theorem lineStartsFrom_append (pos : Nat) (t u : Text) :
    lineStartsFrom pos (t ++ u) = lineStartsFrom pos t ++ lineStartsFrom (pos + t.length) u := by
  induction t generalizing pos with
  | nil => rfl
  | cons c t ih =>
    have hpos : pos + 1 + t.length = pos + (c :: t).length := by
      rw [List.length_cons]
      omega
    rw [List.cons_append, lineStartsFrom, lineStartsFrom, ih, hpos]
    split
    · rfl
    · rfl

/-- A line starts behind each line feed. -/
theorem length_lineStartsFrom (pos : Nat) (t : Text) :
    (lineStartsFrom pos t).length = t.count (.scalar '\n') := by
  induction t generalizing pos with
  | nil => rfl
  | cons c t ih =>
    rw [lineStartsFrom, List.count_cons]
    split
    · next h => simp [ih, h]
    · next h => simp [ih, h]

theorem mem_lineStartsFrom {pos s : Nat} (h : s ∈ lineStartsFrom pos t) :
    pos < s ∧ s ≤ pos + t.length := by
  induction t generalizing pos with
  | nil => exact absurd h List.not_mem_nil
  | cons c t ih =>
    have hrest : s ∈ lineStartsFrom (pos + 1) t → pos < s ∧ s ≤ pos + (c :: t).length := by
      intro hs
      have hbounds := ih hs
      rw [List.length_cons]
      omega
    rw [lineStartsFrom] at h
    split at h
    · rcases List.mem_cons.1 h with rfl | hs
      · rw [List.length_cons]
        omega
      · exact hrest hs
    · exact hrest h

/-- The last of the line starts is as far from the end as the last line is long. -/
theorem getElem?_lineStarts (t : Text) :
    (lineStarts t)[t.count (.scalar '\n')]? = some (t.length - t.lastLine.length) := by
  induction t using List.reverseRecOn with
  | nil => rfl
  | append_singleton t c ih =>
    have hlast := Text.length_lastLine_le t
    have hstarts : lineStarts (t ++ [c]) = lineStarts t ++ lineStartsFrom t.length [c] := by
      rw [lineStarts, lineStartsFrom_append, Nat.zero_add]
      rfl
    have hcount : (lineStarts t).length = t.count (.scalar '\n') + 1 := by
      rw [lineStarts, List.length_cons, length_lineStartsFrom]
    rw [hstarts, Text.lastLine_concat, List.count_append, List.length_append, List.length_singleton]
    by_cases hc : c = .scalar '\n'
    · rw [if_pos hc, hc, List.count_singleton_self, ← hcount,
        List.getElem?_append_right (Nat.le_refl _), Nat.sub_self]
      rfl
    · rw [if_neg hc, List.count_singleton, if_neg (by simpa using hc), Nat.add_zero,
        List.getElem?_append_left (by omega), ih, List.length_append, List.length_singleton]
      exact congrArg some (by omega)

/-! ## Positions -/

/-- **The row and the column of a place,** as they are counted in the text before it. -/
theorem positionIn_lineStarts (before rest : Text) :
    positionIn (lineStarts (before ++ rest)) before.length =
      ⟨before.count (.scalar '\n'), before.lastLine.length⟩ := by
  have hstarts : lineStarts (before ++ rest) =
      lineStarts before ++ lineStartsFrom before.length rest := by
    rw [lineStarts, lineStartsFrom_append, Nat.zero_add]
    rfl
  have hlength : (lineStarts before).length = before.count (.scalar '\n') + 1 := by
    rw [lineStarts, List.length_cons, length_lineStartsFrom]
  have hbefore : (lineStarts before).countP (fun s : Nat => decide ((s : Int) ≤ before.length))
      = before.count (.scalar '\n') + 1 := by
    rw [← hlength, List.countP_eq_length]
    intro s hs
    rcases List.mem_cons.1 hs with rfl | hs
    · simp
    · have hbounds := mem_lineStartsFrom hs
      simp only [decide_eq_true_eq]
      omega
  have hbehind : (lineStartsFrom before.length rest).countP
      (fun s : Nat => decide ((s : Int) ≤ before.length)) = 0 := by
    rw [List.countP_eq_zero]
    intro s hs
    have hbounds := mem_lineStartsFrom hs
    simp only [decide_eq_true_eq]
    omega
  have hlast := before.length_lastLine_le
  unfold positionIn
  rw [hstarts, List.countP_append, hbefore, hbehind, Nat.add_zero, Nat.add_sub_cancel]
  dsimp only
  rw [List.getElem?_append_left (by omega), getElem?_lineStarts, Option.getD_some]
  congr 1
  omega

/-- The position of a place in a new document. -/
theorem Document.positionAt_new (path before rest : Text) :
    (Document.new path (before ++ rest)).positionAt before.length =
      ⟨before.count (.scalar '\n'), before.lastLine.length⟩ := by
  have hoffset : max 0 (min (before.length : Int) ((before ++ rest).length : Nat))
      = before.length := by
    rw [List.length_append]
    omega
  show positionIn (lineStarts (before ++ rest))
    (max 0 (min (before.length : Int) ((before ++ rest).length : Nat))) = _
  rw [hoffset, positionIn_lineStarts]

end LangFile

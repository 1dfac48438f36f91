import Mathlib.Data.List.Basic
import LangFile.Editor.Buffer
import LangFile.Proofs.Text.Lines

/-!
# Buffers around a place

A place inside a buffer parts its lines: there are lines above, a left and a right part of one line,
and lines below. Seen from the cursor, every change of a buffer puts something at the end of the left
part, or takes something from the left or the right part, and the line ends on either side are what
joins these to the lines above and below.

1. Places inside a buffer (`Holds`, `Parts`), and two places of one buffer (`Parts.between`).
2. Every change as an equation about what stands around the cursor.
3. Motions, which lead to a place inside the buffer (`exists_move`).
-/

namespace LangFile.Editor

variable {lines : List Text} {p q : Cursor} {above above' below below' : List Text}
  {left left' right right' : Text}

/-! ## Places -/

theorem Cursor.le_refl (p : Cursor) : p.le p = true := by simp [Cursor.le]

theorem Cursor.le_total (p q : Cursor) : p.le q = true ∨ q.le p = true := by
  simp only [Cursor.le, Bool.or_eq_true, Bool.and_eq_true, decide_eq_true_eq]
  omega

/-- The place parts the lines so. -/
structure Parts (lines : List Text) (place : Cursor) (above : List Text) (left right : Text)
    (below : List Text) : Prop where
  lines_eq : lines = above ++ (left ++ right) :: below
  place_eq : place = ⟨above.length, left.length⟩

namespace Parts

/-- Two places, the first not behind the second, stand on one line or part the lines between. -/
theorem between (hp : Parts lines p above left right below)
    (hq : Parts lines q above' left' right' below') (hle : p.le q = true) :
    (∃ middle, above' = above ∧ left' = left ++ middle ∧ right = middle ++ right' ∧
      below' = below) ∨
    (∃ middle, above' = above ++ (left ++ right) :: middle ∧
      below = middle ++ (left' ++ right') :: below') := by
  have hlines := hp.lines_eq.symm.trans hq.lines_eq
  have hplaces : above.length < above'.length ∨
      above.length = above'.length ∧ left.length ≤ left'.length := by
    rw [hp.place_eq, hq.place_eq] at hle
    simp only [Cursor.le, Bool.or_eq_true, Bool.and_eq_true, decide_eq_true_eq] at hle
    omega
  rcases hplaces with hrow | ⟨hrow, hcolumn⟩
  · -- the line of the second place is below that of the first
    right
    obtain ⟨middle, habove, hbelow⟩ := (List.append_eq_append_iff.1 hlines).resolve_right
      (by rintro ⟨middle, rfl, -⟩; rw [List.length_append] at hrow; omega)
    cases middle with
    | nil => simp [habove] at hrow
    | cons line middle =>
      obtain ⟨rfl, rfl⟩ := List.cons.inj hbelow
      exact ⟨middle, habove, rfl⟩
  · -- both are on one line, and the second is not before the first
    left
    obtain ⟨rfl, hrest⟩ := List.append_inj hlines hrow
    obtain ⟨hline, rfl⟩ := List.cons.inj hrest
    obtain ⟨middle, hleft, hright⟩ | ⟨middle, hleft, hright⟩ := List.append_eq_append_iff.1 hline
    · exact ⟨middle, rfl, hleft, hright, rfl⟩
    · obtain rfl : middle = [] := by
        rw [hleft, List.length_append] at hcolumn
        exact List.length_eq_zero_iff.1 (by omega)
      exact ⟨[], rfl, by simpa using hleft.symm, by simpa using hright.symm, rfl⟩

end Parts

namespace Buffer

variable {b : Buffer}

/-- The place is inside the buffer: its row is there, and its column does not pass the end of the
line. -/
def Holds (b : Buffer) (place : Cursor) : Prop :=
  ∃ (row column : Nat) (h : row < b.lines.length),
    place = ⟨row, column⟩ ∧ column ≤ b.lines[row].length

theorem holds_iff_exists_parts :
    b.Holds p ↔ ∃ above left right below, Parts b.lines p above left right below := by
  constructor
  · rintro ⟨row, column, hrow, rfl, hcolumn⟩
    refine ⟨b.lines.take row, b.lines[row].take column, b.lines[row].drop column,
      b.lines.drop (row + 1), ?_, ?_⟩
    · rw [List.take_append_drop, List.getElem_cons_drop, List.take_append_drop]
    · rw [List.length_take_of_le (Nat.le_of_lt hrow), List.length_take_of_le hcolumn]
  · rintro ⟨above, left, right, below, hlines, hplace⟩
    refine ⟨above.length, left.length, ?_, hplace, ?_⟩
    · simp [hlines]
    · simp [hlines]

/-- The buffer with these lines above the cursor, these parts of its line, and these lines below. -/
def around (above : List Text) (left right : Text) (below : List Text) : Buffer where
  lines := above ++ (left ++ right) :: below
  cursor := ⟨above.length, left.length⟩

theorem parts_around (above : List Text) (left right : Text) (below : List Text) :
    Parts (around above left right below).lines (around above left right below).cursor
      above left right below :=
  ⟨rfl, rfl⟩

theorem eq_around (h : Parts b.lines b.cursor above left right below) :
    b = around above left right below := by
  obtain ⟨lines, cursor⟩ := b
  obtain ⟨rfl, rfl⟩ := h
  rfl

theorem exists_eq_around (h : b.Holds b.cursor) :
    ∃ above left right below, b = around above left right below := by
  obtain ⟨above, left, right, below, hparts⟩ := holds_iff_exists_parts.1 h
  exact ⟨above, left, right, below, eq_around hparts⟩

theorem holds_cursor_around (above : List Text) (left right : Text) (below : List Text) :
    (around above left right below).Holds (around above left right below).cursor :=
  holds_iff_exists_parts.2 ⟨above, left, right, below, parts_around above left right below⟩

/-! ## Changes around the cursor -/

theorem line_of_parts (h : Parts b.lines p above left right below) :
    b.line p.row = .ok (left ++ right) := by
  rw [h.place_eq, line_natCast b (by simp [h.lines_eq])]
  simp [h.lines_eq]

theorem line_around (above : List Text) (left right : Text) (below : List Text) :
    (around above left right below).line above.length = .ok (left ++ right) :=
  line_of_parts (parts_around above left right below)

theorem currentLine_around (above : List Text) (left right : Text) (below : List Text) :
    (around above left right below).currentLine = .ok (left ++ right) :=
  line_of_parts (parts_around above left right below)

/-- There is something behind the cursor in its line. -/
theorem column_lt (left : Text) (c : CodePoint) (right : Text) :
    (left.length : Int) < (left ++ c :: right).length := by
  rw [List.length_append, List.length_cons]
  omega

/-- There is a line below the one with the cursor. -/
theorem row_lt_lastRow (above : List Text) (left right l : Text) (below : List Text) :
    (above.length : Int) < (around above left right (l :: below)).lastRow := by
  have hlength : (above ++ (left ++ right) :: l :: below).length
      = above.length + (below.length + 2) := by
    rw [List.length_append, List.length_cons, List.length_cons]
  show (above.length : Int) < ((above ++ (left ++ right) :: l :: below).length - 1 : Nat)
  rw [hlength]
  omega

/-- The line above the one with the cursor. -/
theorem line_above (above : List Text) (l left right : Text) (below : List Text) :
    (around (above ++ [l]) left right below).line above.length = .ok l := by
  rw [line_natCast _ (by simp [around])]
  simp [around]

/-- The line below the one with the cursor. -/
theorem line_below (above : List Text) (left right l : Text) (below : List Text) :
    (around above left right (l :: below)).line (above.length + 1 : Nat) = .ok l := by
  rw [line_natCast _ (by simp [around])]
  simp [around]

theorem setLine_around (above : List Text) (left right : Text) (below : List Text) (l : Text) :
    ((around above left right below).setLine above.length l).lines = above ++ l :: below := by
  simp [setLine, Offset.set_natCast, around]

/-- To replace columns of a row is to put a text between what stands before and behind them. -/
theorem replaceColumns_of_parts (hp : Parts b.lines p above left right below)
    (hq : Parts b.lines q above' left' right' below') (hrow : p.row = q.row) (t : Text) :
    b.replaceColumns p.row p.column q.column t = .ok (around above (left ++ t) right' below) := by
  have hline := line_of_parts hp
  have hline' := line_of_parts hq
  rw [hrow, hline'] at hline
  have hsame : left' ++ right' = left ++ right := by injection hline
  unfold replaceColumns
  rw [line_of_parts hp]
  rw [hp.place_eq, hq.place_eq]
  show Except.ok (moveTo _ _ _) = _
  refine congrArg Except.ok (eq_around ⟨?_, ?_⟩)
  · simp only [moveTo, setLine, Offset.set_natCast, Offset.before_natCast, Offset.after_natCast]
    rw [hp.lines_eq, List.take_left, ← hsame, List.drop_left]
    simp
  · simp [moveTo]

theorem insert_around (above : List Text) (left right : Text) (below : List Text) (t : Text) :
    (around above left right below).insert t = .ok (around above (left ++ t) right below) :=
  replaceColumns_of_parts (parts_around above left right below)
    (parts_around above left right below) rfl t

theorem backspace?_char (above : List Text) (left : Text) (c : CodePoint) (right : Text)
    (below : List Text) : (around above (left ++ [c]) right below).backspace?
      = .ok (some (around above left right below)) := by
  have hcolumn : ((left ++ [c]).length : Int) - 1 = (left.length : Nat) := by simp
  have hcursor : (around above (left ++ [c]) right below).cursor
    = ⟨above.length, (left ++ [c]).length⟩ := rfl
  unfold backspace?
  rw [currentLine_around, hcursor]
  dsimp only
  rw [if_pos (by simp), hcolumn]
  simp only [bind, Except.bind, pure, Except.pure, Offset.before_natCast, Offset.after_natCast]
  refine congrArg (Except.ok ∘ some) (eq_around ⟨?_, ?_⟩)
  · simp [moveTo, setLine_around]
  · simp [moveTo]

/-- The lines with the one of the cursor and the one below it joined. -/
theorem joinLines_around (above : List Text) (left right l : Text) (below : List Text) :
    (around above left right (l :: below)).joinLines above.length
      = .ok (above ++ (left ++ right ++ l) :: below) := by
  have hnext : ((above.length : Int) + 1) = (above.length + 1 : Nat) := by simp
  unfold joinLines
  rw [line_around, hnext, line_below]
  simp only [bind, Except.bind, pure, Except.pure, Offset.set_natCast, Offset.erase_natCast]
  simp [around, List.eraseIdx_append_of_length_le]

theorem backspace?_feed (above : List Text) (l right : Text) (below : List Text) :
    (around (above ++ [l]) [] right below).backspace?
      = .ok (some (around above l right below)) := by
  have hrow : ((above ++ [l]).length : Int) - 1 = (above.length : Nat) := by simp
  have hjoin : (around (above ++ [l]) [] right below).joinLines above.length
      = .ok (above ++ (l ++ right) :: below) := by
    have h := joinLines_around above l [] right below
    simpa [around, joinLines, line] using h
  have hcursor : (around (above ++ [l]) [] right below).cursor
    = ⟨(above ++ [l]).length, (0 : Nat)⟩ := rfl
  unfold backspace?
  rw [hcursor]
  dsimp only
  rw [if_neg (by simp), if_pos (by simp), hrow, line_above, hjoin]
  rfl

theorem backspace?_start (right : Text) (below : List Text) :
    (around [] [] right below).backspace? = .ok none := rfl

theorem delete?_char (above : List Text) (left : Text) (c : CodePoint) (right : Text)
    (below : List Text) : (around above left (c :: right) below).delete?
      = .ok (some (around above left right below)) := by
  have hcolumn : (left.length : Int) + 1 = (left.length + 1 : Nat) := by simp
  have hcursor : (around above left (c :: right) below).cursor = ⟨above.length, left.length⟩ := rfl
  unfold delete?
  rw [currentLine_around, hcursor]
  simp only [bind, Except.bind, pure, Except.pure]
  rw [if_pos (column_lt left c right), hcolumn, Offset.before_natCast, Offset.after_natCast]
  refine congrArg (Except.ok ∘ some) (eq_around ⟨?_, ?_⟩)
  · simp [setLine_around]
  · rfl

theorem delete?_feed (above : List Text) (left l : Text) (below : List Text) :
    (around above left [] (l :: below)).delete? = .ok (some (around above left l below)) := by
  have hcursor : (around above left [] (l :: below)).cursor = ⟨above.length, left.length⟩ := rfl
  unfold delete?
  rw [currentLine_around, hcursor]
  simp only [bind, Except.bind, pure, Except.pure]
  rw [if_neg (by simp), if_pos (row_lt_lastRow above left [] l below), joinLines_around]
  simp [around]

theorem delete?_end (above : List Text) (left : Text) :
    (around above left [] []).delete? = .ok none := by
  have hcursor : (around above left [] []).cursor = ⟨above.length, left.length⟩ := rfl
  unfold delete?
  rw [currentLine_around, hcursor]
  simp only [bind, Except.bind, pure, Except.pure]
  rw [if_neg (by simp), if_neg (by simp [lastRow, around])]

theorem breakLine_around (above : List Text) (left right : Text) (below : List Text) :
    (around above left right below).breakLine
      = .ok (around (above ++ [left])
          (List.replicate (newIndent (left ++ right) left.length) (.scalar ' '))
          (Text.trimLeft right) below) := by
  have hrow : (above.length : Int) + 1 = (above.length + 1 : Nat) := by simp
  have hcursor : (around above left right below).cursor = ⟨above.length, left.length⟩ := rfl
  unfold breakLine
  rw [currentLine_around, hcursor]
  simp only [bind, Except.bind, pure, Except.pure, Offset.after_natCast, Offset.before_natCast,
    Offset.set_natCast]
  rw [hrow, Offset.insert_natCast]
  refine congrArg Except.ok (eq_around ⟨?_, ?_⟩)
  · simp [around, List.take_append, List.drop_append, List.take_of_length_le,
      List.drop_of_length_le]
  · simp

/-- What stands between two places is taken out. -/
theorem removeBetween_of_parts (hp : Parts b.lines p above left right below)
    (hq : Parts b.lines q above' left' right' below') (hle : p.le q = true) :
    b.removeBetween ⟨p, q⟩ = .ok (around above left right' below') := by
  have hrows : above.length ≤ above'.length + 1 := by
    rcases hp.between hq hle with ⟨middle, rfl, -⟩ | ⟨middle, rfl, -⟩
    · exact Nat.le_succ _
    · simp only [List.length_append]
      omega
  have hstop : (above'.length : Int) + 1 = (above'.length + 1 : Nat) := by simp
  unfold removeBetween
  rw [line_of_parts hp, line_of_parts hq]
  simp only [bind, Except.bind, pure, Except.pure]
  rw [hp.place_eq, hq.place_eq]
  refine congrArg Except.ok (eq_around ⟨?_, rfl⟩)
  dsimp only
  rw [hstop, Offset.replace_natCast _ hrows, Offset.before_natCast, Offset.after_natCast,
    List.take_left, List.drop_left]
  have habove : b.lines.take above.length = above := by rw [hp.lines_eq, List.take_left]
  have hbelow : b.lines.drop (above'.length + 1) = below' := by
    rw [hq.lines_eq, List.drop_append]
    simp [List.drop_of_length_le]
  rw [habove, hbelow, List.append_assoc]
  rfl

/-- The text between two places is what the first lacks of the text before the second. -/
theorem textBetween_of_parts (hp : Parts b.lines p above left right below)
    (hq : Parts b.lines q above' left' right' below') (hle : p.le q = true) :
    ∃ t, b.textBetween ⟨p, q⟩ = .ok t ∧
      Text.unlines (above' ++ [left']) = Text.unlines (above ++ [left]) ++ t := by
  unfold textBetween
  rw [line_of_parts hp, line_of_parts hq]
  simp only [bind, Except.bind, pure, Except.pure]
  rw [hp.place_eq, hq.place_eq]
  rcases hp.between hq hle with ⟨middle, rfl, rfl, rfl, -⟩ | ⟨middle, rfl, hbelow⟩
  · refine ⟨middle, ?_, ?_⟩
    · rw [if_pos rfl, Offset.between_natCast, ← List.append_assoc, List.take_left,
        List.drop_left]
    · simpa using Text.unlines_around above' left middle []
  · have hstart : (above.length : Int) + 1 = (above.length + 1 : Nat) := by simp
    have hmiddle : (b.lines.take (above ++ (left ++ right) :: middle).length).drop
        (above.length + 1) = middle := by
      rw [hq.lines_eq, List.take_left, List.drop_append]
      simp [List.drop_of_length_le]
    refine ⟨Text.unlines (right :: (middle ++ [left'])), ?_, ?_⟩
    · rw [if_neg (by simp; omega), hstart, Offset.between_natCast, hmiddle, Offset.after_natCast,
        Offset.before_natCast]
      simp
    · simpa using Text.unlines_around above left right (middle ++ [left'])

/-! ## The cursor alone -/

/-- A cursor inside the buffer is its own nearest place. -/
theorem clamp_around (above : List Text) (left right : Text) (below : List Text) :
    (around above left right below).clamp = .ok (around above left right below) := by
  have hrow : max 0 (min (above.length : Int) (around above left right below).lastRow)
      = (above.length : Nat) := by
    simp only [lastRow, around, List.length_append, List.length_cons]
    omega
  have hcolumn : max 0 (min (left.length : Int) (left ++ right).length) = (left.length : Nat) := by
    rw [List.length_append]
    omega
  have hcursor : (around above left right below).cursor = ⟨above.length, left.length⟩ := rfl
  unfold clamp
  rw [hcursor, hrow]
  dsimp only
  rw [line_around]
  simp only [bind, Except.bind, pure, Except.pure]
  rw [hcolumn]
  rfl

theorem clamp_of_holds (h : b.Holds b.cursor) : b.clamp = .ok b := by
  obtain ⟨above, left, right, below, rfl⟩ := exists_eq_around h
  exact clamp_around above left right below

variable (page : Nat)

theorem move_left_char (above : List Text) (left : Text) (c : CodePoint) (right : Text)
    (below : List Text) : (around above (left ++ [c]) right below).move page .left
      = .ok (around above left (c :: right) below) := by
  have hmoved : (around above (left ++ [c]) right below).moveFreely page .left
      = .ok (around above left (c :: right) below) := by
    show (if (0 : Int) < (left ++ [c]).length then Except.ok (moveTo _ _ _) else _) = _
    rw [if_pos (by simp)]
    simp [moveTo, around]
  unfold move
  rw [hmoved]
  exact clamp_around _ _ _ _

theorem move_left_feed (above : List Text) (l right : Text) (below : List Text) :
    (around (above ++ [l]) [] right below).move page .left
      = .ok (around above l [] (right :: below)) := by
  have hrow : ((above ++ [l]).length : Int) - 1 = (above.length : Nat) := by simp
  have hcursor : (around (above ++ [l]) [] right below).cursor
    = ⟨(above ++ [l]).length, (0 : Nat)⟩ := rfl
  have hmoved : (around (above ++ [l]) [] right below).moveFreely page .left
      = .ok (around above l [] (right :: below)) := by
    unfold moveFreely
    rw [hcursor]
    dsimp only
    rw [if_neg (by simp), if_pos (by simp), hrow, line_above]
    simp [bind, Except.bind, pure, Except.pure, moveTo, around]
  unfold move
  rw [hmoved]
  exact clamp_around _ _ _ _

theorem move_left_start (right : Text) (below : List Text) :
    (around [] [] right below).move page .left = .ok (around [] [] right below) :=
  clamp_around _ _ _ _

theorem move_right_char (above : List Text) (left : Text) (c : CodePoint) (right : Text)
    (below : List Text) : (around above left (c :: right) below).move page .right
      = .ok (around above (left ++ [c]) right below) := by
  have hcursor : (around above left (c :: right) below).cursor = ⟨above.length, left.length⟩ := rfl
  have hmoved : (around above left (c :: right) below).moveFreely page .right
      = .ok (around above (left ++ [c]) right below) := by
    unfold moveFreely
    rw [currentLine_around, hcursor]
    simp only [bind, Except.bind, pure, Except.pure]
    rw [if_pos (column_lt left c right)]
    simp [moveTo, around]
  unfold move
  rw [hmoved]
  exact clamp_around _ _ _ _

theorem move_right_feed (above : List Text) (left l : Text) (below : List Text) :
    (around above left [] (l :: below)).move page .right
      = .ok (around (above ++ [left]) [] l below) := by
  have hcursor : (around above left [] (l :: below)).cursor = ⟨above.length, left.length⟩ := rfl
  have hmoved : (around above left [] (l :: below)).moveFreely page .right
      = .ok (around (above ++ [left]) [] l below) := by
    unfold moveFreely
    rw [currentLine_around, hcursor]
    simp only [bind, Except.bind, pure, Except.pure]
    rw [if_neg (by simp), if_pos (row_lt_lastRow above left [] l below)]
    simp [moveTo, around]
  unfold move
  rw [hmoved]
  exact clamp_around _ _ _ _

theorem move_right_end (above : List Text) (left : Text) :
    (around above left [] []).move page .right = .ok (around above left [] []) := by
  have hcursor : (around above left [] []).cursor = ⟨above.length, left.length⟩ := rfl
  have hmoved : (around above left [] []).moveFreely page .right
      = .ok (around above left [] []) := by
    unfold moveFreely
    rw [currentLine_around, hcursor]
    simp only [bind, Except.bind, pure, Except.pure]
    rw [if_neg (by simp), if_neg (by simp [lastRow, around])]
  unfold move
  rw [hmoved]
  exact clamp_around _ _ _ _

/-- Up, down, and along the line, a motion leads to some place that the nearest one is found for. -/
theorem exists_moveFreely (h : b.Holds b.cursor) {m : Motion} (hleft : m ≠ .left)
    (hright : m ≠ .right) : ∃ row column, b.moveFreely page m = .ok (b.moveTo row column) := by
  obtain ⟨above, left, right, below, rfl⟩ := exists_eq_around h
  cases m with
  | left => exact absurd rfl hleft
  | right => exact absurd rfl hright
  | up | down | pageUp | pageDown => exact ⟨_, _, rfl⟩
  | lineStart | lineEnd =>
    unfold moveFreely
    rw [currentLine_around]
    exact ⟨_, _, rfl⟩

/-- **A motion moves the cursor to a place inside the buffer,** and changes nothing else. -/
theorem exists_move (h : b.Holds b.cursor) (m : Motion) :
    ∃ b', b.move page m = .ok b' ∧ b'.lines = b.lines ∧ b'.Holds b'.cursor := by
  have hmoved {above left right below} (hlines : (around above left right below).lines = b.lines)
      (hmove : b.move page m = .ok (around above left right below)) :
      ∃ b', b.move page m = .ok b' ∧ b'.lines = b.lines ∧ b'.Holds b'.cursor :=
    ⟨_, hmove, hlines, holds_cursor_around above left right below⟩
  by_cases hleft : m = .left
  · subst hleft
    obtain ⟨above, left, right, below, rfl⟩ := exists_eq_around h
    rcases List.eq_nil_or_concat' left with rfl | ⟨left, c, rfl⟩
    · rcases List.eq_nil_or_concat' above with rfl | ⟨above, l, rfl⟩
      · exact hmoved rfl (move_left_start page right below)
      · exact hmoved (by simp [around]) (move_left_feed page above l right below)
    · exact hmoved (by simp [around]) (move_left_char page above left c right below)
  by_cases hright : m = .right
  · subst hright
    obtain ⟨above, left, right, below, rfl⟩ := exists_eq_around h
    cases right with
    | nil =>
      cases below with
      | nil => exact hmoved rfl (move_right_end page above left)
      | cons l below => exact hmoved (by simp [around]) (move_right_feed page above left l below)
    | cons c right => exact hmoved (by simp [around]) (move_right_char page above left c right below)
  · obtain ⟨row, column, hfree⟩ := exists_moveFreely page h hleft hright
    have hlines : (b.moveTo row column).lines ≠ [] := by
      obtain ⟨_, _, hrow, _⟩ := h
      exact List.ne_nil_of_length_pos (Nat.zero_lt_of_lt hrow)
    obtain ⟨row', column', hrow', hcolumn', hclamp⟩ := clamp_eq_ok (b.moveTo row column) hlines
    refine ⟨b.moveTo row' column', ?_, rfl, ⟨row', column', hrow', rfl, hcolumn'⟩⟩
    unfold move
    rw [hfree]
    exact hclamp

end Buffer

end LangFile.Editor

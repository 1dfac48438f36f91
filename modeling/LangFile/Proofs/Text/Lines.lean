import LangFile.Text.CodePoint

/-!
# Lines and the text they make

Lines are joined by line feeds. A place in a line parts the joined text into what the lines above and
the left part of the line make, and what the right part and the lines below make (`unlines_around`).
-/

namespace LangFile.Text

@[simp] theorem unlines_singleton (l : Text) : unlines [l] = l := rfl

theorem unlines_cons (l : Text) {ls : List Text} (h : ls ≠ []) :
    unlines (l :: ls) = l ++ .scalar '\n' :: unlines ls := by
  cases ls with
  | nil => exact absurd rfl h
  | cons m ms =>
    show l ++ [.scalar '\n'] ++ unlines (m :: ms) = _
    rw [List.append_assoc]
    rfl

/-- A line feed stands between lines and those that follow. -/
theorem unlines_append {ls ms : List Text} (hls : ls ≠ []) (hms : ms ≠ []) :
    unlines (ls ++ ms) = unlines ls ++ .scalar '\n' :: unlines ms := by
  induction ls with
  | nil => exact absurd rfl hls
  | cons l ls ih =>
    cases ls with
    | nil => exact unlines_cons l hms
    | cons m ls =>
      have hrest := ih (List.cons_ne_nil m ls)
      rw [List.cons_append, unlines_cons l (by simp), hrest, unlines_cons l (by simp)]
      simp

/-- A line that is cut in two. -/
theorem unlines_around (above : List Text) (left right : Text) (below : List Text) :
    unlines (above ++ (left ++ right) :: below)
      = unlines (above ++ [left]) ++ unlines (right :: below) := by
  have hcut : unlines ((left ++ right) :: below) = left ++ unlines (right :: below) := by
    cases below with
    | nil => rfl
    | cons l below =>
      have hbelow : l :: below ≠ [] := List.cons_ne_nil l below
      rw [unlines_cons _ hbelow, unlines_cons _ hbelow, List.append_assoc]
  cases above with
  | nil => exact hcut
  | cons l above =>
    have habove : l :: above ≠ [] := List.cons_ne_nil l above
    rw [unlines_append habove (by simp), unlines_append habove (by simp), hcut, unlines_singleton,
      List.append_assoc, List.cons_append]

/-- What stands before a line: the lines above, each with its line feed. -/
theorem unlines_concat (above : List Text) (left : Text) :
    unlines (above ++ [left]) = above.flatMap (· ++ [.scalar '\n']) ++ left := by
  induction above with
  | nil => rfl
  | cons l above ih =>
    rw [List.cons_append, unlines_cons l (by simp), ih, List.flatMap_cons, List.append_assoc,
      List.append_assoc]
    rfl

end LangFile.Text

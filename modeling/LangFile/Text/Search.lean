import LangFile.Text.CodePoint

/-!
# Leftmost matches

The non-overlapping matches of a pattern in a text, each at the leftmost offset where the pattern
matches after the end of the match before it.
-/

namespace LangFile.Text

/-- A pattern tries to match at the start of a text: it answers what it found and how many code
points it read. -/
abbrev Pattern (α : Type) := Text → Option (α × Nat)

/-- The matches in the text that follows offset `pos`, when `skip` more code points belong to the
match before. -/
def matchesFrom {α : Type} (p : Pattern α) (pos skip : Nat) : Text → List (Nat × α)
  | [] => []
  | c :: cs =>
    match skip with
    | k + 1 => matchesFrom p (pos + 1) k cs
    | 0 =>
      match p (c :: cs) with
      | some (a, n) => (pos, a) :: matchesFrom p (pos + 1) (n - 1) cs
      | none => matchesFrom p (pos + 1) 0 cs

/-- The leftmost non-overlapping matches of the pattern, each with its offset. -/
def allMatches {α : Type} (p : Pattern α) (t : Text) : List (Nat × α) := matchesFrom p 0 0 t

theorem matchesFrom_skip {α : Type} (p : Pattern α) (pos skip : Nat) (t : Text) :
    matchesFrom p pos skip t = matchesFrom p (pos + skip) 0 (t.drop skip) := by
  induction t generalizing pos skip with
  | nil => simp [matchesFrom]
  | cons c cs ih =>
    cases skip with
    | zero => rfl
    | succ k => simp [matchesFrom, ih (pos + 1) k, Nat.add_assoc, Nat.add_comm 1 k]

end LangFile.Text

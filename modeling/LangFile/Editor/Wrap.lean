import LangFile.Text.Width

/-!
# Wrapping a line

A line that is wider than the screen is shown in several rows. Each row takes as many code points as
fit; a code point that alone is wider than a row has a row of its own. On an ASCII line the rows
have equal lengths, which need no measuring.
-/

namespace LangFile.Editor

/-- A row of a wrapped line: the columns from `start` up to `stop`. -/
structure Segment where
  start : Nat
  stop : Nat
deriving DecidableEq

namespace Segment

/-- The rows of the code points from column `i` on, where the present row begins at `start` and is
`used` columns wide. -/
def greedyFrom (avail : Int) (start i : Nat) (used : Int) : Text → List Segment
  | [] => [⟨start, i⟩]
  | c :: cs =>
    if avail < used + c.width && start < i then
      ⟨start, i⟩ :: greedyFrom avail i (i + 1) c.width cs
    else greedyFrom avail start (i + 1) (used + c.width) cs

/-- The rows of a line, each as long as fits. -/
def greedy (avail : Int) (line : Text) : List Segment := greedyFrom avail 0 0 0 line

/-- The rows of `avail` columns for `n` code points of one column each. -/
def stepped (avail n : Nat) : List Segment :=
  (List.range ((n + avail - 1) / avail)).map fun k => ⟨k * avail, min (k * avail + avail) n⟩

/-- The rows of a line on a screen of `avail` columns; an empty line has one. An ASCII line has none
on a screen of negative width, and on a screen of no width it cannot be wrapped. -/
def wrap? (avail : Int) (line : Text) : Option (List Segment) :=
  if line.isEmpty then some [⟨0, 0⟩]
  else if line.all CodePoint.isAscii then
    if avail = 0 then none
    else if avail < 0 then some []
    else some (stepped avail.toNat line.length)
  else some (greedy avail line)

/-- The rows of a line on a screen of at least one column. -/
def wrap (avail : Nat) (line : Text) : List Segment := (wrap? avail line).getD []

/-- The number of rows of a line. -/
def rows (avail : Nat) (line : Text) : Nat := (wrap avail line).length

end Segment

end LangFile.Editor

import LangFile.Text.CodePoint

/-!
# Sets of code points given by ranges

A character property is a list of closed ranges of code point numbers.
-/

namespace LangFile

/-- Closed ranges of code point numbers. -/
abbrev CodePointRanges := List (Nat × Nat)

/-- The code point lies in one of the ranges. -/
def CodePointRanges.contains (rs : CodePointRanges) (c : CodePoint) : Bool :=
  rs.any fun r => decide (r.1 ≤ c.toNat) && decide (c.toNat ≤ r.2)

theorem CodePointRanges.contains_iff (rs : CodePointRanges) (c : CodePoint) :
    rs.contains c = true ↔ ∃ r ∈ rs, r.1 ≤ c.toNat ∧ c.toNat ≤ r.2 := by
  simp [CodePointRanges.contains]

end LangFile

import LangFile.Proofs.Path
import LangFile.Validation

/-!
# When a file is compared

Whether a file is compared, and with which reference, is decided by its path and by the disk, and not
by its text. A bare name is the name of every reference, and so of no file that is compared.
-/

namespace LangFile.Validation

variable {d : Disk} {p : Path} {text name : Text} {c : Comparison}

/-- A file is compared if its name says that it has a reference, and the reference can be used. -/
theorem validate_eq_some_iff :
    validate d p text name = some c ↔
      hasReference p = true ∧ p.name ≠ name ∧
        ∃ r, Reference.load d (referencePath p name) = .ok r ∧
          Comparison.compare p.toText text (referencePath p name).toText r.text r.keys = c := by
  unfold validate run
  cases href : hasReference p with
  | false => simp [Outcome.comparison?]
  | true =>
    by_cases hname : p.name = name
    · simp [hname, Outcome.comparison?]
    · cases hload : Reference.load d (referencePath p name) with
      | error fault => simp [hname, hload, Outcome.comparison?]
      | ok r => simp [hname, hload, Outcome.comparison?]

theorem referencePath_of_validate (h : validate d p text name = some c) :
    c.referencePath = (referencePath p name).toText := by
  obtain ⟨-, -, r, -, rfl⟩ := validate_eq_some_iff.1 h
  rfl

/-- A file that is compared is compared with the same reference whatever its text is. -/
theorem exists_validate (h : validate d p text name = some c) (text' : Text) :
    ∃ c', validate d p text' name = some c' ∧ c'.referencePath = c.referencePath := by
  obtain ⟨href, hname, r, hload, rfl⟩ := validate_eq_some_iff.1 h
  exact ⟨_, validate_eq_some_iff.2 ⟨href, hname, r, hload, rfl⟩, rfl⟩

/-- **References have the name that they are to have,** if that is a bare name. -/
theorem name_referencePath (hbare : Path.IsBareName name) {path : Text}
    (h : validate d (.ofText path) text name = some c) : (Path.ofText c.referencePath).name = name := by
  rw [referencePath_of_validate h]
  exact Path.name_ofText_sibling path hbare

end LangFile.Validation

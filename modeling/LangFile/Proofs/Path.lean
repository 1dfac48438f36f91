import LangFile.Path

/-!
# Paths and their texts

A path that is normal, as every path is that was read, is read back from its text. So two texts of
normal paths are equal only if the paths are, and a file beside another one that has a bare name is
never taken for a file of another name.
-/

namespace LangFile

namespace Text

theorem splitOn_cons_self (sep : CodePoint) (t : Text) :
    splitOn sep (sep :: t) = [] :: splitOn sep t := by
  rw [splitOn, if_pos rfl]

/-- Cutting undoes the joining of pieces that do not hold the separator. -/
theorem splitOn_joinWith {sep : CodePoint} {piece : Text} {pieces : List Text}
    (h : ∀ p ∈ piece :: pieces, sep ∉ p) :
    splitOn sep (joinWith [sep] (piece :: pieces)) = piece :: pieces := by
  rw [splitOn_eq, joinWith_eq_intercalate,
    List.splitOn_intercalate sep h (List.cons_ne_nil piece pieces)]

end Text

namespace Path

/-! ## Normal paths -/

/-- Every part is a step to one name. -/
def IsNormal (p : Path) : Prop := ∀ part ∈ p.parts, isStep part = true ∧ .scalar '/' ∉ part

theorem isNormal_ofText (t : Text) : (ofText t).IsNormal := by
  intro part hpart
  obtain ⟨hmem, hstep⟩ := List.mem_filter.1 hpart
  exact ⟨hstep, Text.not_mem_of_mem_splitOn hmem⟩

/-- The root is read again when no slash follows it. -/
theorem rootOf_append (root : PathRoot) {t : Text} (h : t.head? ≠ some (.scalar '/'))
    (hne : t ≠ []) : rootOf (root.toText ++ t) = root := by
  cases t with
  | nil => exact absurd rfl hne
  | cons c cs =>
    have hc : c ≠ .scalar '/' := fun he => h (congrArg some he)
    cases root <;> simp [PathRoot.toText, Text.ofString, rootOf, hc]

theorem filter_splitOn_root (root : PathRoot) (t : Text) :
    (Text.splitOn '/' (root.toText ++ t)).filter isStep = (Text.splitOn '/' t).filter isStep := by
  cases root with
  | relative => rfl
  | slash =>
    show (Text.splitOn '/' (.scalar '/' :: t)).filter isStep = _
    rw [Text.splitOn_cons_self]
    rfl
  | doubleSlash =>
    show (Text.splitOn '/' (.scalar '/' :: .scalar '/' :: t)).filter isStep = _
    rw [Text.splitOn_cons_self, Text.splitOn_cons_self]
    rfl

/-- **A normal path is read back from its text.** -/
theorem ofText_toText {p : Path} (h : p.IsNormal) : ofText p.toText = p := by
  obtain ⟨root, parts⟩ := p
  cases parts with
  | nil => cases root <;> rfl
  | cons part parts =>
    obtain ⟨hstep, hslash⟩ := h part List.mem_cons_self
    have hne : part ≠ [] := by
      rintro rfl
      simp [isStep] at hstep
    have hjoin : ∃ c cs, Text.joinWith "/" (part :: parts) = c :: cs ∧ c ≠ .scalar '/' := by
      obtain ⟨c, cs, rfl⟩ := List.exists_cons_of_ne_nil hne
      have hc : c ≠ .scalar '/' := fun he => hslash (he ▸ List.mem_cons_self)
      cases parts with
      | nil => exact ⟨c, cs, rfl, hc⟩
      | cons next rest => exact ⟨c, _, rfl, hc⟩
    obtain ⟨c, cs, hjoin, hc⟩ := hjoin
    have htext : toText ⟨root, part :: parts⟩
        = root.toText ++ Text.joinWith "/" (part :: parts) := by
      simp [toText]
    have hroot : rootOf (root.toText ++ Text.joinWith "/" (part :: parts)) = root := by
      refine rootOf_append root ?_ (by simp [hjoin])
      rw [hjoin]
      exact fun he => hc (Option.some.inj he)
    have hparts : (Text.splitOn '/' (Text.joinWith "/" (part :: parts))).filter isStep
        = part :: parts := by
      rw [show Text.ofString "/" = [.scalar '/'] from rfl,
        Text.splitOn_joinWith fun p hp => (h p hp).2]
      exact List.filter_eq_self.2 fun p hp => (h p hp).1
    rw [htext, ofText, hroot, filter_splitOn_root, hparts]

/-! ## Bare names -/

/-- The text is the name of a file without a directory. -/
def IsBareName (name : Text) : Prop := ofText name = ⟨.relative, [name]⟩

instance (name : Text) : Decidable (IsBareName name) := by
  unfold IsBareName
  infer_instance

variable {name : Text}

/-- The last part of a normal path is a bare name. -/
theorem isBareName_name {p : Path} (hp : p.IsNormal) (hparts : p.parts ≠ []) :
    IsBareName p.name := by
  have hname : p.name = p.parts.getLast hparts := by
    rw [Path.name, List.getLast?_eq_some_getLast hparts, Option.getD_some]
  have hnormal : IsNormal ⟨.relative, [p.name]⟩ := by
    intro part hpart
    obtain rfl := List.mem_singleton.1 hpart
    rw [hname]
    exact hp _ (List.getLast_mem hparts)
  exact ofText_toText hnormal

theorem sibling_bare (p : Path) (h : IsBareName name) :
    p.sibling name = ⟨p.root, p.parts.dropLast ++ [name]⟩ := by
  rw [sibling, h]
  rfl

theorem name_sibling (p : Path) (h : IsBareName name) : (p.sibling name).name = name := by
  simp [sibling_bare p h, Path.name]

theorem isNormal_sibling {p : Path} (hp : p.IsNormal) (t : Text) : (p.sibling t).IsNormal := by
  unfold sibling join
  split
  · intro part hpart
    rcases List.mem_append.1 hpart with hdir | hlast
    · exact hp part (List.dropLast_subset _ hdir)
    · exact isNormal_ofText t part hlast
  · exact isNormal_ofText t

/-- The text of the path beside another one leads to a file of the bare name. -/
theorem name_ofText_sibling (t : Text) (h : IsBareName name) :
    (ofText ((ofText t).sibling name).toText).name = name := by
  rw [ofText_toText (isNormal_sibling (isNormal_ofText t) name), name_sibling _ h]

end Path

end LangFile

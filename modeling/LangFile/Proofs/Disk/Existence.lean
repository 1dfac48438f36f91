import LangFile.Disk.File

/-!
# The existence test

What exists at a path whose last part is a name is an entry of this name on the disk. The test fails
only on a path that is too long for the system.

## Main statements

* `mem_lastNames_of_exists?`: what exists is listed.
* `tooLong_of_exists?`: when there is no answer.
-/

namespace LangFile

/-- The path has a longer text, or a longer name among its parts, than the system takes. -/
def Path.IsTooLong (p : Path) : Prop :=
  Disk.pathLimit < Utf8.byteLength p.toText ∨
    ∃ name ∈ p.parts, Disk.nameLimit < Utf8.byteLength name

namespace Disk

variable {d : Disk} {p : Path} {here l : Location} {names dir : List Text} {name : Text}

/-! ## What exists -/

/-- A path to a name leads to a place of this name in some directory. -/
theorem exists_of_follow (hname : name ≠ "..") (h : d.follow here (dir ++ [name]) = .ok l) :
    ∃ m : Location, l = m.child name := by
  induction dir generalizing here with
  | nil =>
    rw [List.nil_append, follow, if_neg hname] at h
    split at h
    · simp at h
    · exact ⟨here, (Except.ok.inj h).symm⟩
  | cons part dir ih =>
    rw [List.cons_append, follow] at h
    split at h
    · exact ih h
    · split at h
      · simp at h
      · have hmore : (dir ++ [name]).isEmpty = false := by simp
        dsimp only at h
        rw [if_neg (by simp [hmore])] at h
        split at h
        · exact ih h
        · simp at h
        · simp at h

/-- What exists at a path stands where the path leads. -/
theorem exists?_eq_true (h : d.exists? p = .ok true) :
    ∃ l node, d.resolve p = .ok l ∧ d.node? l = some node := by
  unfold exists? lookup at h
  split at h
  · split at h
    · next l hresolve =>
      obtain ⟨node, hnode⟩ := Option.isSome_iff_exists.1 (Except.ok.inj h)
      exact ⟨l, node, hresolve, hnode⟩
    · simp [Except.map] at h
    · simp [Except.map] at h
  · simp [Except.map] at h

/-- The last names of what is on the disk. -/
def lastNames (d : Disk) : List (Option Text) := d.entries.map fun e => e.1.names.getLast?

theorem mem_lastNames_of_node? {m : Location} {node : Node}
    (h : d.node? (m.child name) = some node) : some name ∈ d.lastNames := by
  have hnamed : (m.child name).names.isEmpty = false := by simp [Location.child]
  unfold node? at h
  rw [if_neg (by simp [hnamed])] at h
  obtain ⟨e, hfound, -⟩ := Option.map_eq_some_iff.1 h
  have hplace : e.1 = m.child name := by simpa using List.find?_some hfound
  refine List.mem_map.2 ⟨e, List.mem_of_find?_eq_some hfound, ?_⟩
  rw [hplace, Location.child, List.getLast?_concat]

/-- **What exists at a path to a name is on the disk.** -/
theorem mem_lastNames_of_exists? (hname : name ≠ "..") (hparts : p.parts = dir ++ [name])
    (h : d.exists? p = .ok true) : some name ∈ d.lastNames := by
  obtain ⟨l, node, hresolve, hnode⟩ := exists?_eq_true h
  unfold resolve at hresolve
  split at hresolve
  · simp at hresolve
  · rw [hparts] at hresolve
    obtain ⟨m, rfl⟩ := exists_of_follow hname hresolve
    exact mem_lastNames_of_node? hnode

/-- What can be read exists. -/
theorem exists?_of_readText {t : Text} (h : d.readText p = .ok t) : d.exists? p = .ok true := by
  unfold readText readBytes at h
  unfold exists? lookup
  cases hname : isNameable p with
  | false => simp [hname] at h
  | true =>
    cases hresolve : d.resolve p with
    | error fault => simp [hname, hresolve] at h
    | ok l =>
      cases hnode : d.node? l with
      | none => simp [hname, hresolve, hnode] at h
      | some node => simp [hnode, Except.map]

/-- What does not exist, as far as the test says, cannot be read. -/
theorem exists_error_of_readText (h : d.exists? p ≠ .ok true) : ∃ e, d.readText p = .error e := by
  cases hread : d.readText p with
  | error e => exact ⟨e, rfl⟩
  | ok t => exact absurd (exists?_of_readText hread) h

/-! ## When there is no answer -/

/-- A path is found too long at one of its names. -/
theorem exists_of_follow_nameTooLong (h : d.follow here names = .error .nameTooLong) :
    ∃ name ∈ names, nameLimit < Utf8.byteLength name := by
  induction names generalizing here with
  | nil => simp [follow] at h
  | cons part names ih =>
    have hrest (there : Location) (h : d.follow there names = .error .nameTooLong) :
        ∃ name ∈ part :: names, nameLimit < Utf8.byteLength name := by
      obtain ⟨name, hmem, hlong⟩ := ih h
      exact ⟨name, List.mem_cons_of_mem _ hmem, hlong⟩
    rw [follow] at h
    split at h
    · exact hrest _ h
    · split at h
      · next hlong => exact ⟨part, List.mem_cons_self, hlong⟩
      · dsimp only at h
        split at h
        · simp at h
        · split at h
          · exact hrest _ h
          · simp at h
          · simp at h

/-- **The test fails only on a path that is too long.** -/
theorem tooLong_of_exists? {fault : PathFault} (h : d.exists? p = .error fault) :
    fault = .nameTooLong ∧ p.IsTooLong := by
  unfold exists? lookup at h
  split at h
  · split at h
    · simp [Except.map] at h
    · next hresolve =>
      refine ⟨(Except.error.inj h).symm, ?_⟩
      unfold resolve at hresolve
      split at hresolve
      · next hlong => exact Or.inl hlong
      · exact Or.inr (exists_of_follow_nameTooLong hresolve)
    · simp [Except.map] at h
  · simp [Except.map] at h

end Disk

end LangFile

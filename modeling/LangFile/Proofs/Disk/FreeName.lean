import LangFile.Disk.Skeleton
import LangFile.Proofs.Disk.Existence
import LangFile.Proofs.Path
import Mathlib.Data.List.Nodup
import Mathlib.Data.List.Perm.Subperm
import Mathlib.Data.Nat.Find

/-!
# Free names

A new language file goes to the first of some names at which nothing exists. The names are pairwise
different, and what exists at one of them is listed on the disk. So one of them is free, and there
is no need to try more of them than the disk has entries, and one. Only a path that is too long for
the system ends the search without an answer.

1. The names to try (`targetName`), and the paths (`Path.target`).
2. Some path is free (`exists_first_target`).
3. The search ends at the first that is (`firstFree_eq`, `freeTarget_least`).
-/

namespace LangFile

open Text

/-! ## The names -/

/-- The names to try, in this order: the plain one, and those with a number from two on. -/
def targetName : Nat → Text
  | 0 => "new_lang.json"
  | k + 1 => "new_lang_" ++ Text.ofNat (k + 2) ++ ".json"

theorem targetName_zero_ne (k : Nat) : targetName 0 ≠ targetName (k + 1) := by
  simp [targetName, Text.ofString]

/-- **The names are pairwise different.** -/
theorem targetName_injective : Function.Injective targetName := by
  intro j k h
  cases j with
  | zero =>
    cases k with
    | zero => rfl
    | succ k => exact absurd h (targetName_zero_ne k)
  | succ j =>
    cases k with
    | zero => exact absurd h.symm (targetName_zero_ne j)
    | succ k =>
      have hnumber := List.append_cancel_left (List.append_cancel_right h)
      exact congrArg Nat.pred (ofNat_inj.1 hnumber)

namespace Path

/-- A step that holds no slash is a bare name. -/
theorem isBareName_of_isStep {name : Text} (hstep : isStep name = true)
    (hslash : .scalar '/' ∉ name) : IsBareName name := by
  have hnormal : IsNormal ⟨.relative, [name]⟩ := by
    intro part hpart
    obtain rfl := List.mem_singleton.1 hpart
    exact ⟨hstep, hslash⟩
  exact ofText_toText hnormal

theorem isBareName_targetName (k : Nat) : IsBareName (targetName k) := by
  cases k with
  | zero => decide
  | succ k =>
    have hlead : .scalar '/' ∉ Text.ofString "new_lang_" := by decide
    have hdigits : .scalar '/' ∉ Text.ofNat (k + 2) :=
      fun h => absurd (isDigit_of_mem_ofNat h) (by decide)
    have hending : .scalar '/' ∉ Text.ofString ".json" := by decide
    refine isBareName_of_isStep rfl ?_
    simp only [targetName, List.mem_append, not_or]
    exact ⟨⟨hlead, hdigits⟩, hending⟩

theorem targetName_ne_up (k : Nat) : targetName k ≠ ".." := by
  cases k <;> simp [targetName, Text.ofString]

/-- The paths to try beside `source`, in the order of their names. -/
def target (source : Path) (k : Nat) : Path := source.sibling (targetName k)

theorem target_eq (source : Path) (k : Nat) :
    source.target k = ⟨source.root, source.parts.dropLast ++ [targetName k]⟩ :=
  sibling_bare source (isBareName_targetName k)

/-- They are all in the directory of `source`. -/
theorem parent_target (source : Path) (k : Nat) : (source.target k).parent = source.parent := by
  rw [target_eq, parent, parent, List.dropLast_concat]

/-- The number is put before the ending of the plain name. -/
theorem sibling_numbered (source : Path) (k : Nat) :
    source.sibling (Disk.numbered (source.target 0) (k + 2)) = source.target (k + 1) := by
  have hname : (source.target 0).name = "new_lang.json" :=
    name_sibling source (isBareName_targetName 0)
  have hsplit : splitName "new_lang.json" = (Text.ofString "new_lang", Text.ofString ".json") := by
    decide
  unfold Disk.numbered stem suffix
  rw [hname, hsplit]
  rfl

end Path

namespace Disk

variable {d : Disk} {source first : Path}

/-! ## A free name -/

/-- So many paths are taken only if there are as many things on the disk. -/
theorem le_length_of_taken {k : Nat} (h : ∀ j < k, d.exists? (source.target j) = .ok true) :
    k ≤ d.entries.length := by
  let names := (List.range k).map fun j => some (targetName j)
  have hdistinct : names.Nodup :=
    List.nodup_range.map fun i j hij => targetName_injective (Option.some.inj hij)
  have hlisted : names ⊆ d.lastNames := by
    intro name hname
    obtain ⟨j, hj, rfl⟩ := List.mem_map.1 hname
    have hparts : (source.target j).parts = source.parts.dropLast ++ [targetName j] :=
      congrArg Path.parts (source.target_eq j)
    exact mem_lastNames_of_exists? (Path.targetName_ne_up j) hparts (h j (List.mem_range.1 hj))
  have hle : names.length ≤ d.lastNames.length := (hdistinct.subperm hlisted).length_le
  simpa [names, lastNames] using hle

/-- **There is a first path that is not taken.** -/
theorem exists_first_target (d : Disk) (source : Path) :
    ∃ k ≤ d.entries.length, d.exists? (source.target k) ≠ .ok true ∧
      ∀ j < k, d.exists? (source.target j) = .ok true := by
  have hsome : ∃ k, d.exists? (source.target k) ≠ .ok true := by
    by_contra hnone
    push Not at hnone
    have hle := le_length_of_taken (k := d.entries.length + 1) fun j _ => hnone j
    exact absurd hle (Nat.not_succ_le_self _)
  have htaken : ∀ j < Nat.find hsome, d.exists? (source.target j) = .ok true :=
    fun j hj => not_not.1 (Nat.find_min hsome hj)
  exact ⟨Nat.find hsome, le_length_of_taken htaken, Nat.find_spec hsome, htaken⟩

/-! ## The search -/

/-- What a search answers that ends at a path. -/
def answerAt (d : Disk) (p : Path) : Except FileError Path :=
  match d.exists? p with
  | .error fault => .error (.path fault p.toText)
  | .ok _ => .ok p

/-- **The search passes over what is taken,** and ends at the first path that is not. -/
theorem firstFree_eq {tries n k : Nat} (hk : k < tries)
    (htaken : ∀ j < k, d.exists? (source.sibling (numbered first (n + j))) = .ok true)
    (hend : d.exists? (source.sibling (numbered first (n + k))) ≠ .ok true) :
    d.firstFree source first tries n
      = d.answerAt (source.sibling (numbered first (n + k))) := by
  induction k generalizing tries n with
  | zero =>
    obtain ⟨tries, rfl⟩ := Nat.exists_eq_add_of_lt hk
    rw [Nat.add_zero] at hend ⊢
    unfold answerAt
    rw [Nat.zero_add, firstFree]
    cases hthere : d.exists? (source.sibling (numbered first n)) with
    | error fault => rfl
    | ok there =>
      cases there with
      | false => rfl
      | true => exact absurd hthere hend
  | succ k ih =>
    obtain ⟨tries, rfl⟩ : ∃ more, tries = more + 1 := Nat.exists_eq_succ_of_ne_zero (by omega)
    have hfirst := htaken 0 (Nat.succ_pos k)
    rw [Nat.add_zero] at hfirst
    have hnext (j : Nat) : n + 1 + j = n + (j + 1) := by omega
    rw [firstFree, hfirst]
    dsimp only
    rw [ih (by omega), hnext]
    · intro j hj
      rw [hnext]
      exact htaken (j + 1) (Nat.succ_lt_succ hj)
    · rwa [hnext]

/-- The search answers at the first path that is not taken. -/
theorem freeTarget_eq {k : Nat} (hk : k ≤ d.entries.length)
    (htaken : ∀ j < k, d.exists? (source.target j) = .ok true)
    (hend : d.exists? (source.target k) ≠ .ok true) :
    d.freeTarget source = d.answerAt (source.target k) := by
  have hplain : source.sibling "new_lang.json" = source.target 0 := rfl
  simp only [freeTarget, hplain]
  cases k with
  | zero =>
    unfold answerAt
    cases hthere : d.exists? (source.target 0) with
    | error fault => rfl
    | ok there =>
      cases there with
      | false => rfl
      | true => exact absurd hthere hend
  | succ k =>
    rw [htaken 0 (Nat.succ_pos k)]
    have hnumbered (j : Nat) :
        source.sibling (numbered (source.target 0) (2 + j)) = source.target (j + 1) := by
      rw [Nat.add_comm, source.sibling_numbered]
    dsimp only
    rw [firstFree_eq (k := k) (by omega), hnumbered]
    · intro j hj
      rw [hnumbered]
      exact htaken (j + 1) (Nat.succ_lt_succ hj)
    · rwa [hnumbered]

/--
**A new language file goes to the first free name.** Beside any file, on any disk, there is a first
path of the search at which nothing is known to exist, with at most as many before it as there are
things on the disk. Nothing exists there, and it is the answer; or the path is too long for the
system, and the search fails with that.
-/
theorem freeTarget_least (d : Disk) (source : Path) :
    ∃ k ≤ d.entries.length, (∀ j < k, d.exists? (source.target j) = .ok true) ∧
      (source.target k).parent = source.parent ∧
      (d.exists? (source.target k) = .ok false ∧ d.freeTarget source = .ok (source.target k) ∨
        (source.target k).IsTooLong ∧
          d.freeTarget source = .error (.path .nameTooLong (source.target k).toText)) := by
  obtain ⟨k, hk, hend, htaken⟩ := d.exists_first_target source
  refine ⟨k, hk, htaken, source.parent_target k, ?_⟩
  rw [freeTarget_eq hk htaken hend, answerAt]
  cases hthere : d.exists? (source.target k) with
  | error fault =>
    obtain ⟨rfl, hlong⟩ := tooLong_of_exists? hthere
    exact Or.inr ⟨hlong, rfl⟩
  | ok there =>
    cases there with
    | false => exact Or.inl ⟨rfl, rfl⟩
    | true => exact absurd hthere hend

/-- **There is no name beside a file whose directory has too long a name.** -/
theorem no_target_in_long_directory :
    let source : Path := ⟨.relative, [List.replicate 256 (.scalar 'x'), "ko_kr.json"]⟩
    Path.ofText source.toText = source ∧
      freeTarget {} source = .error (.path .nameTooLong (source.target 0).toText) ∧
      ∀ p, freeTarget {} source ≠ .ok p := by
  intro source
  have hpath : Path.ofText source.toText = source := by decide +kernel
  have hfault : freeTarget {} source = .error (.path .nameTooLong (source.target 0).toText) := by
    decide +kernel
  refine ⟨hpath, hfault, fun p hp => ?_⟩
  rw [hfault] at hp
  simp at hp

end Disk

end LangFile

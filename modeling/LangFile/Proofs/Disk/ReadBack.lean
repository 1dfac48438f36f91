import LangFile.Proofs.Text.Utf8
import LangFile.Disk.Skeleton

/-!
# Writing a file and reading it back

A write ends in one of four ways: the file is not opened, the text has no encoding, the write breaks
off, or all bytes are stored. In all but the first the file holds nothing of what it held before.

A file that is put where a path leads stands in the way of no path: the steps to it went through
directories, and it is none. So the path still leads there, and the text that was written is read
back, with its line ends normalised.
-/

namespace LangFile

namespace Disk

variable {d : Disk} {p : Path} {l m : Location} {t : Text} {bytes : List UInt8}

/-! ## The ends of a write -/

theorem writeText_refused {e : FileError} (hplace : d.openPlace p = .error e) (t : Text) :
    d.writeText p t = (d, .error e) := by
  simp [writeText, hplace]

theorem writeText_unencodable {e : Utf8.EncodeError} (hplace : d.openPlace p = .ok l)
    (hbytes : Utf8.encode t = .error e) :
    d.writeText p t = (d.put l (.file []), .error (.encoding e)) := by
  simp [writeText, hplace, hbytes]

theorem writeText_broken {b : BrokenWrite} (hplace : d.openPlace p = .ok l)
    (hbytes : Utf8.encode t = .ok bytes) (hbroken : d.broken? l bytes = some b) :
    d.writeText p t = (d.put l (.file (bytes.take b.stored)), .error (.writing b.fault)) := by
  simp [writeText, hplace, hbytes, hbroken]

theorem writeText_stored (hplace : d.openPlace p = .ok l) (hbytes : Utf8.encode t = .ok bytes)
    (hwhole : d.broken? l bytes = none) :
    d.writeText p t = (d.put l (.file bytes), .ok ()) := by
  simp [writeText, hplace, hbytes, hwhole]

/-! ## Paths to what was written -/

/-- **A file that takes the place of no directory blocks no path.** -/
theorem follow_put (hl : d.node? l ≠ some .directory) (node : Node) {here : Location}
    {names : List Text} (h : d.follow here names = .ok m) :
    (d.put l node).follow here names = .ok m := by
  induction names generalizing here with
  | nil => exact h
  | cons name rest ih =>
    unfold follow at h ⊢
    split
    · next hup =>
      rw [if_pos hup] at h
      exact ih h
    · next hup =>
      rw [if_neg hup] at h
      split
      · next hlong => simp [hlong] at h
      · next hlong =>
        rw [if_neg hlong] at h
        dsimp only at h ⊢
        split
        · next hlast => simpa [hlast] using h
        · next hlast =>
          rw [if_neg hlast] at h
          -- the directory on the way is not where the file is put
          cases hnode : d.node? (here.child name) with
          | none => simp [hnode] at h
          | some n =>
            cases n with
            | file _ => simp [hnode] at h
            | directory =>
              have hne : here.child name ≠ l := fun he => hl (he ▸ hnode)
              rw [node?_put_of_ne d node hne, hnode]
              simp only [hnode] at h
              exact ih h

/-- Where a file is opened for writing is where the path leads. -/
theorem openPlace_eq_ok_iff :
    d.openPlace p = .ok l ↔
      isNameable p = true ∧ d.resolve p = .ok l ∧ d.node? l ≠ some .directory := by
  unfold openPlace
  cases hname : isNameable p with
  | false => simp
  | true =>
    simp only [Bool.not_true, Bool.false_eq_true, if_false, true_and]
    cases hresolve : d.resolve p with
    | error fault => simp
    | ok l' =>
      dsimp only
      split
      · next hdir =>
        constructor
        · intro h
          simp at h
        · rintro ⟨hl, hnot⟩
          obtain rfl := Except.ok.inj hl
          exact absurd hdir hnot
      · next hnot =>
        constructor
        · intro h
          obtain rfl := Except.ok.inj h
          exact ⟨rfl, hnot⟩
        · rintro ⟨hl, -⟩
          obtain rfl := Except.ok.inj hl
          rfl

theorem isEmpty_names_of_openPlace (h : d.openPlace p = .ok l) : l.names.isEmpty = false := by
  obtain ⟨-, -, hnot⟩ := openPlace_eq_ok_iff.1 h
  cases hempty : l.names.isEmpty with
  | false => rfl
  | true => simp [node?, hempty] at hnot

/-- The path leads to the file that was put there. -/
theorem resolve_put (hplace : d.openPlace p = .ok l) (node : Node) :
    (d.put l node).resolve p = .ok l := by
  obtain ⟨-, hresolve, hnot⟩ := openPlace_eq_ok_iff.1 hplace
  unfold resolve at hresolve ⊢
  split
  · next hlong => simp [hlong] at hresolve
  · next hlong =>
    rw [if_neg hlong] at hresolve
    exact follow_put hnot node hresolve

theorem exists?_put (hplace : d.openPlace p = .ok l) (node : Node) :
    (d.put l node).exists? p = .ok true := by
  obtain ⟨hname, -, -⟩ := openPlace_eq_ok_iff.1 hplace
  have hnode := node?_put_self d node (isEmpty_names_of_openPlace hplace)
  simp [exists?, lookup, hname, resolve_put hplace, hnode, Except.map]

/-- **What was written is read back.** -/
theorem readText_put (hplace : d.openPlace p = .ok l)
    (hbytes : Utf8.encode t = .ok bytes) :
    (d.put l (.file bytes)).readText p = .ok (normalizeLineEnds t) := by
  obtain ⟨hname, -, -⟩ := openPlace_eq_ok_iff.1 hplace
  have hnode := node?_put_self d (.file bytes) (isEmpty_names_of_openPlace hplace)
  have hread : (d.put l (.file bytes)).readBytes p = .ok bytes := by
    simp [readBytes, hname, resolve_put hplace, hnode]
  simp [readText, hread, Utf8.decode_of_encode hbytes]

theorem loadText_put (hplace : d.openPlace p = .ok l)
    (hbytes : Utf8.encode t = .ok bytes) :
    (d.put l (.file bytes)).loadText p = .ok (normalizeLineEnds t) := by
  simp [loadText, exists?_put hplace, readText_put hplace hbytes]

/-- What is opened for writing has a name. -/
theorem parts_ne_nil_of_openPlace (hplace : d.openPlace p = .ok l) : p.parts ≠ [] := by
  intro hparts
  obtain ⟨-, hresolve, hnot⟩ := openPlace_eq_ok_iff.1 hplace
  unfold resolve at hresolve
  split at hresolve
  · simp at hresolve
  · rw [hparts, follow] at hresolve
    obtain rfl := Except.ok.inj hresolve
    refine hnot ?_
    unfold startOf
    split <;> rfl

end Disk

end LangFile

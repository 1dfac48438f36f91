import LangFile.Proofs.Disk.ReadBack
import LangFile.Proofs.Session.MadeFile
import LangFile.Proofs.Text.Lines

/-!
# Texts that files can hold

Reading a file turns carriage returns into line feeds, and only what has an encoding can be written.
A text without carriage returns and lone surrogates is therefore written and read back as it is, and
every text that is read is one.

1. Such texts and their parts (`Text.isStorable_unlines_iff`).
2. What is read is such a text (`Disk.isStorable_of_loadText`).
3. Such a text is read back (`Disk.loadText_put_storable`), so that these are all texts that are read
   (`Disk.isStorable_iff_exists_loadText`).
-/

namespace LangFile

open Text

/-- The code point comes back from a file as it was written. -/
def CodePoint.IsStorable : CodePoint → Prop
  | .scalar c => c ≠ '\r'
  | .surrogate _ => False

instance : DecidablePred CodePoint.IsStorable
  | .scalar c => inferInstanceAs (Decidable (c ≠ '\r'))
  | .surrogate _ => inferInstanceAs (Decidable False)

/-- The text comes back from a file as it was written. -/
def Text.IsStorable (t : Text) : Prop := ∀ c ∈ t, c.IsStorable

instance (t : Text) : Decidable t.IsStorable :=
  inferInstanceAs (Decidable (∀ c ∈ t, c.IsStorable))

namespace Text

variable {t u : Text} {ls : List Text}

theorem isStorable_nil : IsStorable [] := List.forall_mem_nil _

theorem IsStorable.append (h : t.IsStorable) (h' : u.IsStorable) : IsStorable (t ++ u) :=
  List.forall_mem_append.2 ⟨h, h'⟩

theorem IsStorable.of_subset (h : t.IsStorable) (hsub : u ⊆ t) : u.IsStorable :=
  fun c hc => h c (hsub hc)

theorem isStorable_replicate (n : Nat) : IsStorable (List.replicate n (.scalar ' ')) := by
  intro c hc
  rw [(List.mem_replicate.1 hc).2]
  decide

/-- Line feeds do no harm. -/
theorem isStorable_unlines_iff : IsStorable (unlines ls) ↔ ∀ l ∈ ls, IsStorable l := by
  induction ls with
  | nil => exact iff_of_true isStorable_nil (List.forall_mem_nil _)
  | cons l ls ih =>
    rw [List.forall_mem_cons, ← ih]
    cases ls with
    | nil => exact (and_iff_left isStorable_nil).symm
    | cons m ms =>
      have hfeed : CodePoint.IsStorable (.scalar '\n') := by decide
      unfold IsStorable
      rw [unlines_cons l (List.cons_ne_nil m ms), List.forall_mem_append, List.forall_mem_cons]
      exact and_congr_right fun _ => and_iff_right hfeed

theorem isStorable_lines (h : t.IsStorable) : ∀ l ∈ lines t, IsStorable l := by
  rw [← isStorable_unlines_iff, unlines_lines]
  exact h

end Text

/-! ## What is read -/

/-- Every sequence of bytes stands for a character. -/
theorem Utf8.not_mem_of_decodeFrom {offset : Nat} {done t : Text} {bytes : List UInt8}
    (h : decodeFrom offset done bytes = .ok t) (hdone : ∀ n, CodePoint.surrogate n ∉ done) :
    ∀ n, CodePoint.surrogate n ∉ t := by
  have hcons (c : Char) {done : Text} (hdone : ∀ n, CodePoint.surrogate n ∉ done) (n : Fin 2048) :
      CodePoint.surrogate n ∉ CodePoint.scalar c :: done := by
    simpa using hdone n
  -- what stands for no character ends the decoding with an error
  induction offset, done, bytes using decodeFrom.induct with
  | case1 offset done =>
    rw [decodeFrom] at h
    obtain rfl := Except.ok.inj h
    simpa using hdone
  | case2 offset done b rest hb ih =>
    rw [decodeFrom, if_pos hb] at h
    exact ih h (hcons _ hdone)
  | case3 offset done b rest hb hlead =>
    rw [decodeFrom, if_neg hb, hlead] at h
    injection h
  | case4 offset done b rest hb l hlead taken htaken ih =>
    rw [decodeFrom, if_neg hb, hlead] at h
    dsimp only at h
    rw [if_pos htaken] at h
    exact ih h (hcons _ hdone)
  | case5 offset done b rest hb l hlead taken htaken hend =>
    rw [decodeFrom, if_neg hb, hlead] at h
    dsimp only at h
    rw [if_neg htaken, if_pos hend] at h
    injection h
  | case6 offset done b rest hb l hlead taken htaken hend =>
    rw [decodeFrom, if_neg hb, hlead] at h
    dsimp only at h
    rw [if_neg htaken, if_neg hend] at h
    injection h

theorem isStorable_normalizeLineEndsFrom {done t : Text} (hdone : done.IsStorable)
    (h : ∀ n, CodePoint.surrogate n ∉ t) : (normalizeLineEndsFrom done t).IsStorable := by
  have hfeed : CodePoint.IsStorable (.scalar '\n') := by decide
  induction done, t using normalizeLineEndsFrom.induct with
  | case1 done =>
    rw [normalizeLineEndsFrom]
    exact hdone.of_subset (List.reverse_subset.2 (List.Subset.refl _))
  | case2 done rest ih =>
    rw [normalizeLineEndsFrom]
    refine ih (List.forall_mem_cons.2 ⟨hfeed, hdone⟩) fun n hn => h n ?_
    exact List.mem_cons_of_mem _ (List.mem_cons_of_mem _ hn)
  | case3 done c rest hpair ih =>
    rw [normalizeLineEndsFrom]
    · refine ih (List.forall_mem_cons.2 ⟨?_, hdone⟩) fun n hn => h n (List.mem_cons_of_mem _ hn)
      split
      · exact hfeed
      · next hc =>
        cases c with
        | scalar c => exact fun heq => hc (congrArg CodePoint.scalar heq)
        | surrogate n => exact h n List.mem_cons_self
    · exact hpair

namespace Disk

variable {d : Disk} {p : Path} {l : Location} {t : Text}

theorem isStorable_of_readText (h : d.readText p = .ok t) : t.IsStorable := by
  unfold readText at h
  split at h
  · injection h
  · split at h
    · injection h
    · next decoded hdecoded =>
      obtain rfl := Except.ok.inj h
      exact isStorable_normalizeLineEndsFrom isStorable_nil
        (Utf8.not_mem_of_decodeFrom hdecoded fun _ => List.not_mem_nil)

/-- **What is loaded can be stored.** -/
theorem isStorable_of_loadText (h : d.loadText p = .ok t) : t.IsStorable := by
  unfold loadText at h
  split at h
  · injection h
  · obtain rfl := Except.ok.inj h
    decide
  · exact isStorable_of_readText h

/-! ## What is written -/

/-- A file is not opened for writing when the system refuses it, or its name cannot be one. -/
theorem openPlace_eq_error {e : FileError} (h : d.openPlace p = .error e) :
    (∃ fault q, e = .path fault q) ∨ e = .unnameable := by
  unfold openPlace at h
  split at h
  · exact .inr (Except.error.inj h).symm
  · split at h
    · exact .inl ⟨_, _, (Except.error.inj h).symm⟩
    · split at h
      · exact .inl ⟨_, _, (Except.error.inj h).symm⟩
      · injection h

theorem exists_encode (ht : t.IsStorable) : ∃ bytes, Utf8.encode t = .ok bytes := by
  cases hbytes : Utf8.encode t with
  | error e =>
    obtain ⟨n, hn⟩ := Utf8.exists_surrogate_of_encode hbytes
    exact absurd (ht _ hn) id
  | ok bytes => exact ⟨bytes, rfl⟩

/-- **What can be stored is read back,** once all of it is stored where a file can be opened. -/
theorem loadText_put_storable {bytes : List UInt8} (ht : t.IsStorable)
    (hplace : d.openPlace p = .ok l) (hbytes : Utf8.encode t = .ok bytes) :
    (d.put l (.file bytes)).loadText p = .ok t := by
  have hreturn : .scalar '\r' ∉ t := fun hmem => ht _ hmem rfl
  rw [loadText_put hplace hbytes, normalizeLineEnds_eq hreturn]

/-- **The texts that can be stored are those that files are loaded with.** -/
theorem isStorable_iff_exists_loadText : t.IsStorable ↔ ∃ d p, loadText d p = .ok t := by
  constructor
  · intro ht
    have hplace : openPlace {} (.ofText "a") = .ok ⟨.above 0, ["a"]⟩ := by rfl
    obtain ⟨bytes, hbytes⟩ := exists_encode ht
    exact ⟨_, _, loadText_put_storable ht hplace hbytes⟩
  · rintro ⟨d, p, hload⟩
    exact isStorable_of_loadText hload

end Disk

end LangFile

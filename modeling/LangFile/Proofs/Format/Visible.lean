import LangFile.Proofs.Format.Segmentation
import LangFile.Proofs.Format.Styled
import Mathlib.Data.List.Induction

/-!
# Visible characters

The runs of a text, read one after another, are its visible characters in order, each in the state
that the codes before it lead to. The styled runs cover those in another state than the default
one.
-/

namespace LangFile

/-- The visible characters of a text that comes behind codes with the given characters, each with
its state. -/
def visibleBehind (codes : List CodePoint) (t : Text) : List (CodePoint × FormattingState) :=
  (t.zip (placesBehind codes t)).filterMap fun v => v.2.state?.map fun s => (v.1, s)

/-- The visible characters of a text, each with its state. -/
def visibleCharacters (t : Text) : List (CodePoint × FormattingState) := visibleBehind [] t

theorem visibleBehind_singleton (codes : List CodePoint) (c : CodePoint) :
    visibleBehind codes [c] = [(c, Place.stateAfter codes)] := rfl

theorem visibleBehind_code (codes : List CodePoint) (d : CodePoint) (rest : Text) :
    visibleBehind codes (marker :: d :: rest) = visibleBehind (codes ++ [d]) rest := by
  simp [visibleBehind, placesBehind, Place.state?]

theorem visibleBehind_cons {c : CodePoint} (hc : c ≠ marker) (codes : List CodePoint)
    (d : CodePoint) (rest : Text) :
    visibleBehind codes (c :: d :: rest)
      = (c, Place.stateAfter codes) :: visibleBehind codes (d :: rest) := by
  simp [visibleBehind, placesBehind, Place.state?, hc]

namespace Run

/-- The characters of a run, each with the run's state. -/
def characters (source : Text) (r : Run) : List (CodePoint × FormattingState) :=
  (r.textIn source 0).map fun c => (c, r.state)

theorem textIn_between (before shown rest : Text) (state : FormattingState) :
    textIn ⟨before.length, (before.length + shown.length : Nat), state⟩
      (before ++ (shown ++ rest)) 0 = shown := by
  simp only [textIn, Text.slice, Int.sub_zero, Int.toNat_natCast]
  rw [← List.append_assoc, ← List.length_append, List.take_left, List.drop_left]

theorem flatMap_close (before shown rest : Text) (state : FormattingState) :
    (close state (some before.length) ((before.length + shown.length : Nat) : Int)).flatMap
        (characters (before ++ (shown ++ rest)))
      = shown.map fun c => (c, state) := by
  cases shown with
  | nil => simp [close]
  | cons c shown =>
    have hlt : (before.length : Int) < ((before.length + (c :: shown).length : Nat) : Int) := by
      simp only [List.length_cons]
      omega
    rw [close, if_pos hlt, List.flatMap_singleton, characters, textIn_between]

/-- **One step at a code, one at a visible character:** the present run has the characters of
`shown` behind it. -/
theorem flatMap_runsFrom (codes : List CodePoint) (before shown rest : Text) :
    (runsFrom true (Place.stateAfter codes) (some before.length)
        ((before.length + shown.length : Nat) : Int) rest).flatMap
        (characters (before ++ (shown ++ rest)))
      = (shown.map fun c => (c, Place.stateAfter codes)) ++ visibleBehind codes rest := by
  fun_induction placesBehind codes rest generalizing before shown with
  | case1 codes =>
    rw [runsFrom, closeLast_true, flatMap_close]
    simp [visibleBehind]
  | case2 codes c =>
    have hclose := flatMap_close before (shown ++ [c]) [] (Place.stateAfter codes)
    rw [List.append_nil, List.length_append, List.length_singleton, ← Nat.add_assoc,
      Int.natCast_add _ 1, List.map_append] at hclose
    rw [runsFrom, visibleBehind_singleton]
    exact hclose
  | case3 codes d rest ih =>
    have htail := ih (before ++ (shown ++ [marker, d])) []
    simp only [List.length_append, List.length_cons, List.length_nil, List.append_assoc,
      List.nil_append, List.cons_append, Nat.add_zero, List.map_nil] at htail
    rw [runsFrom, if_pos rfl, ← Place.stateAfter_concat, List.flatMap_append, flatMap_close,
      visibleBehind_code, ← htail]
    congr 3
  | case4 codes c d rest hc ih =>
    have htail := ih before (shown ++ [c])
    simp only [List.append_assoc, List.singleton_append, List.length_append, List.length_singleton,
      List.map_append, List.map_cons, List.map_nil, ← Nat.add_assoc] at htail
    rw [runsFrom, if_neg hc, visibleBehind_cons hc, ← htail]
    rfl

/-- **The runs of a text are its visible characters.** -/
theorem flatMap_runs (t : Text) : (runs t true).flatMap (characters t) = visibleCharacters t :=
  flatMap_runsFrom [] [] [] t

theorem textIn_ne_nil {t : Text} {r : Run} (h : r ∈ runs t true) : r.textIn t 0 ≠ [] := by
  obtain ⟨hstart, hlt, hstop⟩ := (isSegmentation_places t 0).bounds r h
  rw [length_places] at hstop
  refine List.ne_nil_of_length_pos ?_
  simp only [textIn, Text.slice, List.length_drop, List.length_take]
  omega

end Run

/-! ## Runs that are styled -/

namespace Place

theorem state?_eq_some_iff {p : Place} {state : FormattingState} :
    p.state? = some state ↔ ∃ codes, p = visible codes ∧ stateAfter codes = state := by
  cases p <;> simp [state?]

/-- Codes lead to canonical states only. -/
theorem isCanonical_stateAfter (codes : List CodePoint) : (stateAfter codes).IsCanonical := by
  induction codes using List.reverseRecOn with
  | nil => exact FormattingState.isCanonical_default
  | append_singleton codes c ih =>
    rw [stateAfter_concat]
    exact ih.applyChar c

end Place

namespace Run

variable {t : Text} {base : Int}

theorem pairwise_runs (t : Text) (base : Int) :
    (runs t false base).Pairwise fun r s => r.stop < s.start := by
  have hall := (isSegmentation_places t base).separated
  rw [runs_eq_filter]
  refine (hall.filter _).imp fun hbetween => ?_
  obtain ⟨i, hr, hs, -, -⟩ := hbetween
  omega

/-- **The runs in a state cover the visible characters in this state,** unless it is the default
one. -/
theorem exists_covers_iff {o : Int} {state : FormattingState} :
    (∃ r ∈ runs t false base, r.Covers o ∧ r.state = state) ↔
      state ≠ .default ∧ ∃ (i : Nat) (codes : List CodePoint), o = base + i ∧
        (places t)[i]? = some (.visible codes) ∧ Place.stateAfter codes = state := by
  have hseg := isSegmentation_places t base
  constructor
  · rintro ⟨r, hr, hcovers, rfl⟩
    obtain ⟨hmem, hdefault⟩ := mem_runs.1 hr
    obtain ⟨hstart, -, hstop⟩ := hseg.bounds r hmem
    obtain ⟨i, rfl⟩ := Int.le.dest (Int.le_trans hstart hcovers.1)
    have hi : i < (places t).length := by
      have hlt := hcovers.2
      omega
    -- the place there has the state of the run, so it is a visible one
    have hplace := List.getElem?_eq_getElem hi
    have hstate : r.state ∈ ((places t)[i]).state?.toList := by
      rw [← hseg.covers i _ hplace]
      exact List.mem_map_of_mem (List.mem_filter.2 ⟨hmem, decide_eq_true hcovers⟩)
    obtain ⟨codes, hcodes, hafter⟩ := Place.state?_eq_some_iff.1 (Option.mem_toList.1 hstate)
    rw [hcodes] at hplace
    exact ⟨hdefault, i, codes, rfl, hplace, hafter⟩
  · rintro ⟨hdefault, i, codes, rfl, hplace, rfl⟩
    have hmem : Place.stateAfter codes ∈
        ((runs t true base).filter fun r => r.Covers (base + i)).map Run.state := by
      rw [hseg.covers i _ hplace]
      exact List.mem_singleton_self _
    obtain ⟨r, hr, hstate⟩ := List.mem_map.1 hmem
    obtain ⟨hr, hcovers⟩ := List.mem_filter.1 hr
    exact ⟨r, mem_runs.2 ⟨hr, by rwa [hstate]⟩, of_decide_eq_true hcovers, hstate⟩

end Run

theorem visibleText_eq_map (t : Text) : visibleText t = (visibleCharacters t).map Prod.fst := by
  rw [← Run.flatMap_runs, List.map_flatMap, visibleText]
  congr 1
  funext r
  simp [Run.characters, Function.comp_def]

end LangFile

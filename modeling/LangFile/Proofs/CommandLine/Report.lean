import LangFile.CommandLine.Report
import Mathlib.Data.List.TakeWhile

/-!
# Reports on several paths

A command deals with its paths one by one, and ends at the first that it does not contain. What it
writes up to there is put together from what it writes about each path, and its status says whether
there was anything to complain about.

1. What one report in front does (`onEach_cons_of_failure`, `onEach_cons_of_status`).
2. What is written about all (`output_onEach`).
3. How the command ends (`ending_onEach_of_status`, `ending_onEach_eq_failure_iff`).
-/

namespace LangFile.CommandLine.Report

variable {f : Text → Report} {path : Text} {paths : List Text}

/-- The command ends with the report. -/
def isFailure (r : Report) : Bool :=
  match r.ending with
  | .failure _ => true
  | .status _ => false

theorem isFailure_of_status {r : Report} {n : Nat} (h : r.ending = .status n) :
    r.isFailure = false := by
  unfold isFailure
  rw [h]

theorem isFailure_of_failure {r : Report} {e : Failure} (h : r.ending = .failure e) :
    r.isFailure = true := by
  unfold isFailure
  rw [h]

theorem exists_status {r : Report} (h : r.isFailure = false) : ∃ n, r.ending = .status n := by
  unfold isFailure at h
  split at h
  · simp at h
  · next n hending => exact ⟨n, hending⟩

theorem exists_failure {r : Report} (h : r.isFailure = true) : ∃ e, r.ending = .failure e := by
  unfold isFailure at h
  split at h
  · next e hending => exact ⟨e, hending⟩
  · simp at h

/-- How the command fails with the report, if it does. -/
def failure? (r : Report) : Option Failure :=
  match r.ending with
  | .failure e => some e
  | .status _ => none

theorem failure?_of_failure {r : Report} {e : Failure} (h : r.ending = .failure e) :
    r.failure? = some e := by
  unfold failure?
  rw [h]

theorem failure?_of_status {r : Report} {n : Nat} (h : r.ending = .status n) :
    r.failure? = none := by
  unfold failure?
  rw [h]

theorem ending_of_failure? {r : Report} {e : Failure} (h : r.failure? = some e) :
    r.ending = .failure e := by
  cases hending : r.ending with
  | failure first =>
    rw [failure?_of_failure hending, Option.some_inj] at h
    rw [h]
  | status n => simp [failure?_of_status hending] at h

theorem isFailure_of_failure?_eq_none {r : Report} (h : r.failure? = none) :
    r.isFailure = false := by
  cases hending : r.ending with
  | failure e => simp [failure?_of_failure hending] at h
  | status n => exact isFailure_of_status hending

theorem append_of_status {a : Report} {n : Nat} (h : a.ending = .status n) (b : Report) :
    a ++ b = { output := a.output ++ b.output, errors := a.errors ++ b.errors, log := a.log ++ b.log
               ending := match b.ending with
                | .status m => .status (max n m)
                | .failure e => .failure e } := by
  obtain ⟨output, errors, log, ending⟩ := a
  obtain rfl : ending = .status n := h
  rfl

theorem onEach_cons_of_failure (h : (f path).isFailure = true) (paths : List Text) :
    onEach f (path :: paths) = f path := by
  unfold onEach
  dsimp only
  split
  · rfl
  · next n hending =>
    rw [isFailure_of_status hending] at h
    simp at h

theorem onEach_cons_of_status {n : Nat} (h : (f path).ending = .status n) (paths : List Text) :
    onEach f (path :: paths) = f path ++ onEach f paths := by
  rw [onEach, h]

/-- A path alone is reported on as the path in a list is. -/
theorem onEach_singleton (f : Text → Report) (path : Text) :
    (onEach f [path]).output = (f path).output ∧ (onEach f [path]).errors = (f path).errors ∧
      (onEach f [path]).ending = (f path).ending := by
  cases h : (f path).isFailure with
  | true =>
    rw [onEach_cons_of_failure h]
    exact ⟨rfl, rfl, rfl⟩
  | false =>
    obtain ⟨n, hending⟩ := exists_status h
    rw [onEach_cons_of_status hending, append_of_status hending, hending]
    exact ⟨List.append_nil _, List.append_nil _, congrArg Ending.status (Nat.max_zero n)⟩

/-- The paths that are dealt with before the command ends. -/
def reached (f : Text → Report) (paths : List Text) : List Text :=
  paths.takeWhile fun path => !(f path).isFailure

theorem reached_cons_of_failure (h : (f path).isFailure = true) (paths : List Text) :
    reached f (path :: paths) = [] :=
  List.takeWhile_cons_of_neg (by simp [h])

theorem reached_cons_of_status (h : (f path).isFailure = false) (paths : List Text) :
    reached f (path :: paths) = path :: reached f paths :=
  List.takeWhile_cons_of_pos (by simp [h])

theorem reached_eq_takeWhile {stops : Text → Bool}
    (h : ∀ path ∈ paths, (f path).isFailure = stops path) :
    reached f paths = paths.takeWhile fun path => !stops path := by
  induction paths with
  | nil => rfl
  | cons path paths ih =>
    obtain ⟨hpath, hpaths⟩ := List.forall_mem_cons.1 h
    rw [reached, List.takeWhile_cons, List.takeWhile_cons, hpath, ← ih hpaths]
    rfl

/-- **What is written stands in the order of the paths,** when nothing is written at the last. -/
theorem output_onEach (hsilent : ∀ path ∈ paths, (f path).isFailure = true →
      (f path).output = [] ∧ (f path).errors = []) :
    (onEach f paths).output = (reached f paths).flatMap (fun path => (f path).output) ∧
      (onEach f paths).errors = (reached f paths).flatMap fun path => (f path).errors := by
  induction paths with
  | nil => exact ⟨rfl, rfl⟩
  | cons path paths ih =>
    obtain ⟨hpath, hpaths⟩ := List.forall_mem_cons.1 hsilent
    cases hfail : (f path).isFailure with
    | true =>
      rw [onEach_cons_of_failure hfail, reached_cons_of_failure hfail]
      exact hpath hfail
    | false =>
      obtain ⟨n, hending⟩ := exists_status hfail
      obtain ⟨houtput, herrors⟩ := ih hpaths
      rw [onEach_cons_of_status hending, append_of_status hending, reached_cons_of_status hfail,
        List.flatMap_cons, List.flatMap_cons, houtput, herrors]
      exact ⟨rfl, rfl⟩

/-- Every path is reached when none ends the command. -/
theorem reached_eq_self_iff :
    reached f paths = paths ↔ ∀ path ∈ paths, (f path).isFailure = false := by
  rw [reached, List.takeWhile_eq_self_iff]
  simp

/-- The status is the greater one of zero and one. -/
theorem ending_onEach_of_status (h : ∀ path ∈ paths, (f path).ending = .status 0 ∨
      (f path).ending = .status 1) :
    ((∀ path ∈ paths, (f path).ending = .status 0) ∧ (onEach f paths).ending = .status 0) ∨
      (∃ path ∈ paths, (f path).ending = .status 1) ∧ (onEach f paths).ending = .status 1 := by
  induction paths with
  | nil => exact .inl ⟨List.forall_mem_nil _, rfl⟩
  | cons path paths ih =>
    obtain ⟨hpath, hpaths⟩ := List.forall_mem_cons.1 h
    rcases hpath with hpath | hpath
    · rw [onEach_cons_of_status hpath, append_of_status hpath]
      rcases ih hpaths with ⟨hall, hrest⟩ | ⟨⟨faulty, hmem, hfaulty⟩, hrest⟩
      · exact .inl ⟨List.forall_mem_cons.2 ⟨hpath, hall⟩, by rw [hrest]; rfl⟩
      · exact .inr ⟨⟨faulty, List.mem_cons_of_mem _ hmem, hfaulty⟩, by rw [hrest]; rfl⟩
    · refine .inr ⟨⟨path, List.mem_cons_self, hpath⟩, ?_⟩
      rw [onEach_cons_of_status hpath, append_of_status hpath]
      rcases ih hpaths with ⟨-, hrest⟩ | ⟨-, hrest⟩
      · rw [hrest]
        rfl
      · rw [hrest]
        rfl

/-- **The command fails as it does at the first path that it does not contain.** -/
theorem ending_onEach_eq_failure_iff {e : Failure} :
    (onEach f paths).ending = .failure e ↔
      paths.findSome? (fun path => (f path).failure?) = some e := by
  induction paths with
  | nil => simp [onEach]
  | cons path paths ih =>
    cases hfail : (f path).isFailure with
    | true =>
      obtain ⟨first, hending⟩ := exists_failure hfail
      rw [onEach_cons_of_failure hfail, List.findSome?_cons, failure?_of_failure hending, hending,
        Ending.failure.injEq, Option.some_inj]
    | false =>
      obtain ⟨n, hending⟩ := exists_status hfail
      rw [onEach_cons_of_status hending, append_of_status hending, List.findSome?_cons,
        failure?_of_status hending, ← ih]
      cases (onEach f paths).ending <;> simp

/-- When there is but one way to fail, it is how the command ends. -/
theorem ending_onEach_of_failure {e : Failure} (h : ∀ path ∈ paths, (f path).isFailure = true →
      (f path).ending = .failure e) (hreached : reached f paths ≠ paths) :
    (onEach f paths).ending = .failure e := by
  rw [ending_onEach_eq_failure_iff]
  cases hfirst : paths.findSome? fun path => (f path).failure? with
  | none =>
    rw [List.findSome?_eq_none_iff] at hfirst
    refine absurd (reached_eq_self_iff.2 fun path hpath => ?_) hreached
    exact isFailure_of_failure?_eq_none (hfirst path hpath)
  | some first =>
    obtain ⟨path, hpath, hfailure⟩ := List.exists_of_findSome?_eq_some hfirst
    have hending := ending_of_failure? hfailure
    rw [h path hpath (isFailure_of_failure hending), Ending.failure.injEq] at hending
    rw [hending]

end LangFile.CommandLine.Report

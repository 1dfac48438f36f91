import LangFile.App.Basic
import LangFile.Session.Recorder

/-!
# What the surroundings of a session may do

Surroundings are orderly if all they do when they hear of an event is to change the views and what
they remember, and then to open and change documents. They keep a budget: an event that is answered
with edits costs something, so only finitely many events are, and deliveries nest no deeper than the
budget allows.

Observers with a plan are orderly, and so is the application, which makes no edits when it hears of
an event.
-/

namespace LangFile

/-- What the surroundings do when they are told of something: they change views and what they
remember, and edit documents as far as their budget goes. -/
class Host.Orderly (V E : Type) [Host V E] where
  /-- The number of events that will still be answered with edits. -/
  budget : E → Nat
  /-- An edit nests deliveries by two levels at most, and so does what the session itself causes. -/
  le_nesting (outside : E) : 2 * budget outside + 2 ≤ Host.nesting V outside
  hear_eq (emit : Delivery V E) (e : Event) (s : Session V E) :
    ∃ views outside edits,
      Host.hear emit e s
        = edits.foldl (fun s edit => ObserverEdit.perform emit edit s) { s with views, outside } ∧
      budget outside ≤ budget s.outside ∧ (edits ≠ [] → budget outside < budget s.outside)
  revealed_eq (emit : Delivery V E) (id : ViewId) (line : Int) (s : Session V E) :
    Host.revealed emit id line s = emit (.scrolled id line) s ∨
      ∃ outside, Host.revealed emit id line s = { s with outside } ∧
        budget outside ≤ budget s.outside

/-- Observers leave the views alone, and pay one for each entry of their plan that holds edits. -/
theorem Recorder.hear_eq (emit : Delivery PlainView Recorder) (e : Event) (s : ObservedSession) :
    ∃ outside edits,
      Host.hear emit e s
        = edits.foldl (fun s edit => ObserverEdit.perform emit edit s) { s with outside } ∧
      outside.plan.countP (fun edits => !edits.isEmpty)
        ≤ s.outside.plan.countP (fun edits => !edits.isEmpty) ∧
      (edits ≠ [] → outside.plan.countP (fun edits => !edits.isEmpty)
        < s.outside.plan.countP fun edits => !edits.isEmpty) := by
  refine ⟨_, _, rfl, ?_, ?_⟩
  · cases hplan : s.outside.plan with
    | nil => simp
    | cons edits plan =>
      rw [List.tail_cons, List.countP_cons]
      exact Nat.le_add_right _ _
  · cases hplan : s.outside.plan with
    | nil => simp
    | cons edits plan =>
      intro hedits
      have hpaid : (!edits.isEmpty) = true := by simpa using hedits
      rw [List.tail_cons, List.countP_cons, if_pos hpaid]
      exact Nat.lt_succ_self _

instance instOrderlyRecorder : Host.Orderly PlainView Recorder where
  budget r := r.plan.countP fun edits => !edits.isEmpty
  le_nesting r := by
    have hle := List.countP_le_length (p := fun edits => !edits.isEmpty) (l := r.plan)
    show 2 * _ + 2 ≤ 2 * r.plan.length + 4
    omega
  hear_eq emit e s := ⟨s.views, Recorder.hear_eq emit e s⟩
  revealed_eq _ _ _ _ := Or.inl rfl

/-- The application makes no edits when it hears of an event. -/
instance instOrderlyApp : Host.Orderly Editor AppState where
  budget _ := 0
  le_nesting _ := by
    show 2 * 0 + 2 ≤ 4
    omega
  hear_eq emit e a := by
    cases e with
    | diagnosed path =>
      exact ⟨_, _, [], rfl, Nat.le_refl 0, fun h => absurd rfl h⟩
    | _ => exact ⟨a.views, a.outside, [], rfl, Nat.le_refl 0, fun h => absurd rfl h⟩
  revealed_eq _ _ _ a := Or.inr ⟨_, rfl, Nat.le_refl 0⟩

end LangFile

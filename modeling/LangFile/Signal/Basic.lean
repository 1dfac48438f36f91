/-!
# Signals

A signal calls its subscribers in the order in which they subscribed. A delivery goes to those that
were subscribed when it began, less those whose subscription has ended when their turn comes.
-/

namespace LangFile

/-- A subscription: its number, and what is called. -/
structure Subscription (α : Type) where
  id : Nat
  listener : α

/-- The present subscriptions in order, and the number of the next one. -/
structure Signal (α : Type) where
  subscriptions : List (Subscription α) := []
  next : Nat := 0

namespace Signal

variable {α : Type}

/-- The number of present subscriptions. -/
def size (s : Signal α) : Nat := s.subscriptions.length

/-- The subscription of that number is present. -/
def isActive (s : Signal α) (id : Nat) : Bool := s.subscriptions.any fun sub => sub.id = id

/-- The signal with one more subscription; its number is `s.next`. -/
def subscribe (s : Signal α) (listener : α) : Signal α where
  subscriptions := s.subscriptions ++ [⟨s.next, listener⟩]
  next := s.next + 1

/-- The signal without a subscription. -/
def unsubscribe (s : Signal α) (id : Nat) : Signal α :=
  { s with subscriptions := s.subscriptions.filter fun sub => sub.id ≠ id }

theorem isActive_subscribe (s : Signal α) (listener : α) (id : Nat) :
    (s.subscribe listener).isActive id = (s.isActive id || decide (s.next = id)) := by
  simp [isActive, subscribe]

theorem isActive_dispose (s : Signal α) (i j : Nat) :
    (s.unsubscribe i).isActive j = (s.isActive j && decide (j ≠ i)) := by
  simp only [isActive, unsubscribe, List.any_filter]
  induction s.subscriptions with
  | nil => rfl
  | cons sub subs ih =>
    simp only [List.any_cons, ih]
    by_cases hj : sub.id = j
    · subst hj; by_cases hi : sub.id = i <;> simp [hi]
    · simp [hj]

end Signal

/-- Calls the listeners of some subscriptions one after another, each only if its subscription is
still active in the state that the calls before have left. -/
def deliver {α σ : Type} (isActive : σ → Nat → Bool) (call : α → σ → σ)
    (subscriptions : List (Subscription α)) (state : σ) : σ :=
  subscriptions.foldl (fun s sub => if isActive s sub.id then call sub.listener s else s) state

end LangFile

import LangFile.Signal.Basic
import LangFile.Text.CodePoint

/-!
# Scripted listeners

Listeners that write a line to a log and then act on the signal themselves: they subscribe further
listeners, end subscriptions, and emit again. The log bounds a script: once it holds a given number
of lines, listeners emit no more.
-/

namespace LangFile.Script

/-- What is done with a signal; `emit` passes on a value. -/
inductive Action (α : Type)
  | subscribe (name : Text) (body : List (Action α))
  | unsubscribe (name : Text)
  | emit (value : α)

/-- A listener: the name that it writes, and what it does then. -/
structure Listener (α : Type) where
  name : Text
  body : List (Action α)

/-- A signal, the subscription last made under each name, and the log. -/
structure Scene (α : Type) where
  signal : Signal (Listener α) := {}
  named : List (Text × Nat) := []
  log : List (Text × α) := []

variable {α : Type}

namespace Scene

/-- The subscription last made under a name. -/
def find? (s : Scene α) (name : Text) : Option Nat :=
  (s.named.find? fun p => p.1 = name).map (·.2)

/-- Subscribes a listener under its name. -/
def subscribe (s : Scene α) (l : Listener α) : Scene α :=
  { s with
    signal := s.signal.subscribe l
    named := (l.name, s.signal.next) :: s.named.filter fun p => p.1 ≠ l.name }

/-- Ends the subscription last made under a name. Only that one can be ended: an earlier one under the
same name goes on. -/
def unsubscribe (s : Scene α) (name : Text) : Scene α :=
  match s.find? name with
  | some id => { s with signal := s.signal.unsubscribe id }
  | none => s

/-- The names with whether their subscription is active. -/
def activity (s : Scene α) : List (Text × Bool) :=
  s.named.map fun p => (p.1, s.signal.isActive p.2)

end Scene

/-- Carries out an action. Listeners do not emit when the log holds `limit` lines; `depth` bounds
how deep deliveries nest, and as every one of them writes a line first, `limit + 1` is never used
up. -/
def perform (limit : Nat) : (depth : Nat) → Action α → Scene α → Scene α
  | _, .subscribe name body, s => s.subscribe ⟨name, body⟩
  | _, .unsubscribe name, s => s.unsubscribe name
  | 0, .emit _, s => s
  | depth + 1, .emit value, s =>
    deliver (fun s id => s.signal.isActive id)
      (fun l s =>
        l.body.foldl
          (fun s a =>
            match a with
            | .emit _ => if limit ≤ s.log.length then s else perform limit depth a s
            | _ => perform limit depth a s)
          { s with log := s.log ++ [(l.name, value)] })
      s.signal.subscriptions s

/-- Carries out an action with an empty log. -/
def act (limit : Nat) (a : Action α) (s : Scene α) : Scene α :=
  perform limit (limit + 1) a { s with log := [] }

end LangFile.Script

import Mathlib.Data.List.Nodup
import LangFile.Signal.Basic

/-!
# The history of a signal

What happens to a signal, one thing after another: subscriptions are made and end, and an event is
offered to subscriptions in turn, each of which is called or skipped. Deliveries nest, so what belongs
to one of them may lie far apart; the place at which the event was emitted tells them from each other.

1. What a history says of subscriptions and turns (`present`, `turns`).
2. What a history must be like to describe a signal, with the turns that deliveries still have before
   them (`Describes`).
3. One lemma for each thing that happens.
-/

namespace LangFile

/-- What happens to a signal. A delivery has the number of the place in the history at which its event
was emitted. What else is worth noting are marks. -/
inductive Happening (ε α μ : Type)
  | subscribed (sub : Subscription α)
  | ended (id : Nat)
  | emitted (e : ε)
  | called (delivery : Nat) (e : ε) (sub : Subscription α)
  | skipped (delivery : Nat) (e : ε) (sub : Subscription α)
  | noted (mark : μ)

/-- What happened, in order. -/
abbrev History (ε α μ : Type) := List (Happening ε α μ)

namespace History

variable {ε α μ : Type} {h : History ε α μ} {x : Happening ε α μ} {sub : Subscription α} {e : ε}
  {k : Nat}

/-! ## Subscriptions and turns -/

/-- The subscriptions that were made. -/
def made (h : History ε α μ) : List (Subscription α) :=
  h.filterMap fun
    | .subscribed sub => some sub
    | _ => none

/-- The subscription of that number has ended. -/
def hasEnded (h : History ε α μ) (id : Nat) : Bool :=
  h.any fun
    | .ended other => other = id
    | _ => false

/-- The subscriptions that were made and have not ended. -/
def present (h : History ε α μ) : List (Subscription α) :=
  (made h).filter fun sub => !hasEnded h sub.id

/-- The turns of a delivery: its event, and the subscriptions that were called or skipped. -/
def turns (k : Nat) (h : History ε α μ) : List (ε × Subscription α) :=
  h.filterMap fun
    | .called delivery e sub | .skipped delivery e sub => if delivery = k then some (e, sub) else none
    | _ => none

/-- The subscriptions that a delivery called. -/
def calls (k : Nat) (h : History ε α μ) : List (Subscription α) :=
  h.filterMap fun
    | .called delivery _ sub => if delivery = k then some sub else none
    | _ => none

theorem made_append (h g : History ε α μ) : made (h ++ g) = made h ++ made g :=
  List.filterMap_append

theorem hasEnded_append (h g : History ε α μ) (id : Nat) :
    hasEnded (h ++ g) id = (hasEnded h id || hasEnded g id) :=
  List.any_append

theorem turns_append (k : Nat) (h g : History ε α μ) : turns k (h ++ g) = turns k h ++ turns k g :=
  List.filterMap_append

theorem turns_called (j k : Nat) (e : ε) (sub : Subscription α) :
    turns j ([.called k e sub] : History ε α μ) = if k = j then [(e, sub)] else [] := by
  by_cases hj : k = j <;> simp [turns, hj]

theorem turns_skipped (j k : Nat) (e : ε) (sub : Subscription α) :
    turns j ([.skipped k e sub] : History ε α μ) = if k = j then [(e, sub)] else [] := by
  by_cases hj : k = j <;> simp [turns, hj]

theorem calls_sublist (k : Nat) (h : History ε α μ) :
    (calls k h).Sublist ((turns k h).map (·.2)) := by
  induction h with
  | nil => exact List.Sublist.refl _
  | cons x h ih =>
    cases x with
    | called delivery e sub =>
      by_cases hk : delivery = k
      · simpa [calls, turns, hk] using ih
      · simpa [calls, turns, hk] using ih
    | skipped delivery e sub =>
      by_cases hk : delivery = k
      · simpa [calls, turns, hk] using List.Sublist.cons sub ih
      · simpa [calls, turns, hk] using ih
    | subscribed | ended | emitted | noted => simpa [calls, turns] using ih

/-- Either the last of what happened, or something before it. -/
theorem append_singleton_eq {β : Type} {l past rest : List β} {x y : β}
    (heq : l ++ [x] = past ++ y :: rest) :
    (past = l ∧ y = x) ∨ ∃ rest', l = past ++ y :: rest' ∧ rest = rest' ++ [x] := by
  rcases List.eq_nil_or_concat' rest with rfl | ⟨rest', z, rfl⟩
  · obtain ⟨rfl, hxy⟩ := List.append_inj' heq rfl
    exact Or.inl ⟨rfl, (List.singleton_inj.1 hxy).symm⟩
  · have heq' : l ++ [x] = (past ++ y :: rest') ++ [z] := by simpa using heq
    obtain ⟨rfl, hxz⟩ := List.append_inj' heq' rfl
    exact Or.inr ⟨rest', rfl, by rw [List.singleton_inj.1 hxz]⟩

/-! ## Subscriptions -/

/-- The signal has the subscriptions that the history says are present, and a number for the next one
that none has had. -/
structure Subscribes (h : History ε α μ) (s : Signal α) : Prop where
  present_eq : present h = s.subscriptions
  nodup : ((made h).map (·.id)).Nodup
  made_lt : ∀ sub ∈ made h, sub.id < s.next
  ended_lt : ∀ id, hasEnded h id = true → id < s.next

namespace Subscribes

variable {s : Signal α}

theorem nil : Subscribes ([] : History ε α μ) {} where
  present_eq := rfl
  nodup := List.nodup_nil
  made_lt _ hsub := absurd hsub List.not_mem_nil
  ended_lt _ hid := absurd hid (by simp [hasEnded])

theorem eq_of_id_eq (hs : Subscribes h s) {other : Subscription α} (hsub : sub ∈ made h)
    (hother : other ∈ made h) (hid : sub.id = other.id) : sub = other :=
  List.inj_on_of_nodup_map hs.nodup hsub hother hid

/-- A subscription that was made is present when its number is active. -/
theorem mem_present_iff (hs : Subscribes h s) (hsub : sub ∈ made h) :
    sub ∈ present h ↔ s.isActive sub.id = true := by
  rw [Signal.isActive, ← hs.present_eq, List.any_eq_true]
  constructor
  · exact fun hpresent => ⟨sub, hpresent, by simp⟩
  · rintro ⟨other, hother, hid⟩
    have hmade : other ∈ made h := (List.mem_filter.1 hother).1
    have hsame : other.id = sub.id := by simpa using hid
    rwa [← hs.eq_of_id_eq hmade hsub hsame]

/-- A subscription is active until it ends. -/
theorem isActive_eq (hs : Subscribes h s) (hsub : sub ∈ made h) :
    s.isActive sub.id = !hasEnded h sub.id := by
  rw [Bool.eq_iff_iff, ← hs.mem_present_iff hsub]
  exact List.mem_filter.trans (and_iff_right hsub)

/-- As many subscriptions are present as are active of those that were made. -/
theorem size_eq (hs : Subscribes h s) :
    s.size = (made h).countP fun sub => s.isActive sub.id := by
  rw [Signal.size, ← hs.present_eq, present, ← List.countP_eq_length_filter]
  exact List.countP_congr fun sub hsub => by rw [hs.isActive_eq hsub]

/-- What neither makes nor ends a subscription. -/
theorem append (hs : Subscribes h s) (hmade : made [x] = [])
    (hended : ∀ id, hasEnded [x] id = false) : Subscribes (h ++ [x]) s := by
  have hmade' : made (h ++ [x]) = made h := by rw [made_append, hmade, List.append_nil]
  have hended' (id : Nat) : hasEnded (h ++ [x]) id = hasEnded h id := by
    rw [hasEnded_append, hended, Bool.or_false]
  refine ⟨?_, ?_, ?_, ?_⟩
  · have hold := hs.present_eq
    unfold present at hold ⊢
    simp only [hmade', hended', hold]
  · rw [hmade']
    exact hs.nodup
  · rw [hmade']
    exact hs.made_lt
  · intro id hid
    exact hs.ended_lt id (hended' id ▸ hid)

theorem subscribed (hs : Subscribes h s) (listener : α) :
    Subscribes (h ++ [.subscribed ⟨s.next, listener⟩]) (s.subscribe listener) := by
  have hmade : made (h ++ [.subscribed ⟨s.next, listener⟩]) = made h ++ [⟨s.next, listener⟩] :=
    made_append h _
  have hended (id : Nat) : hasEnded (h ++ [.subscribed ⟨s.next, listener⟩]) id = hasEnded h id := by
    rw [hasEnded_append]
    exact Bool.or_false _
  -- a number that none has had has not ended either
  have hfresh : hasEnded h s.next = false :=
    Bool.eq_false_iff.2 fun hid => Nat.lt_irrefl _ (hs.ended_lt _ hid)
  refine ⟨?_, ?_, ?_, ?_⟩
  · have hold := hs.present_eq
    unfold present at hold ⊢
    simp only [hmade, hended, List.filter_append, hold]
    simp [hfresh, Signal.subscribe]
  · rw [hmade, List.map_append, List.nodup_append']
    refine ⟨hs.nodup, by simp, fun id hid hnew => ?_⟩
    obtain ⟨sub, hsub, rfl⟩ := List.mem_map.1 hid
    have hlt := hs.made_lt sub hsub
    have heq : sub.id = s.next := by simpa using hnew
    omega
  · intro sub hsub
    rcases List.mem_append.1 (hmade ▸ hsub) with hold | hnew
    · exact Nat.lt_succ_of_lt (hs.made_lt sub hold)
    · obtain rfl := List.mem_singleton.1 hnew
      exact Nat.lt_succ_self _
  · intro id hid
    exact Nat.lt_succ_of_lt (hs.ended_lt id (hended id ▸ hid))

theorem ended (hs : Subscribes h s) {id : Nat} (hid : id < s.next) :
    Subscribes (h ++ [.ended id]) (s.unsubscribe id) := by
  have hmade : made (h ++ [.ended id]) = made h := by rw [made_append]; exact List.append_nil _
  have hended (other : Nat) :
      hasEnded (h ++ [.ended id]) other = (hasEnded h other || decide (id = other)) := by
    rw [hasEnded_append]
    simp [hasEnded]
  refine ⟨?_, ?_, ?_, ?_⟩
  · have hold := hs.present_eq
    unfold present at hold ⊢
    simp only [Signal.unsubscribe, hmade, hended, ← hold, List.filter_filter]
    refine List.filter_congr fun sub _ => ?_
    simp [eq_comm, Bool.and_comm]
  · rw [hmade]
    exact hs.nodup
  · rw [hmade]
    exact hs.made_lt
  · intro other hother
    rw [hended, Bool.or_eq_true, decide_eq_true_eq] at hother
    rcases hother with hold | rfl
    · exact hs.ended_lt other hold
    · exact hid

end Subscribes

/-! ## Turns -/

/-- The delivery is that of the event. -/
def EmittedAt (h : History ε α μ) (k : Nat) (e : ε) : Prop := h[k]? = some (.emitted e)

theorem EmittedAt.lt (he : EmittedAt h k e) : k < h.length :=
  (List.getElem?_eq_some_iff.1 he).1

theorem EmittedAt.append (he : EmittedAt h k e) (g : History ε α μ) : EmittedAt (h ++ g) k e := by
  unfold EmittedAt
  rw [List.getElem?_append_left he.lt]
  exact he

/-- A turn belongs to the delivery of an event, and the subscriber is called or skipped by whether its
subscription is present. -/
def IsLawful (past : History ε α μ) : Happening ε α μ → Prop
  | .called k e sub => EmittedAt past k e ∧ sub ∈ present past
  | .skipped k e sub => EmittedAt past k e ∧ sub ∉ present past
  | _ => True

/-- Those that were subscribed when an event was emitted have their turns in order, but for the turns
that are still due. -/
structure TakesTurns (hears : ε → α → Bool) (due : Nat → List (ε × Subscription α))
    (h : History ε α μ) : Prop where
  lawful : ∀ past x rest, h = past ++ x :: rest → IsLawful past x
  turns_eq : ∀ past e rest, h = past ++ .emitted e :: rest →
    turns past.length h ++ due past.length
      = ((present past).filter fun sub => hears e sub.listener).map fun sub => (e, sub)
  due_mem : ∀ k e sub, (e, sub) ∈ due k → EmittedAt h k e ∧ sub ∈ made h

namespace TakesTurns

variable {hears : ε → α → Bool} {due due' : Nat → List (ε × Subscription α)}
  {rest : List (ε × Subscription α)}

theorem nil (hears : ε → α → Bool) : TakesTurns hears (fun _ => []) ([] : History ε α μ) where
  lawful _ _ _ heq := absurd heq (by simp)
  turns_eq _ _ _ heq := absurd heq (by simp)
  due_mem _ _ _ hdue := absurd hdue List.not_mem_nil

/-- A delivery that is still to come has had no turn, and none is due. -/
theorem turns_eq_nil (ht : TakesTurns hears due h) (hk : h.length ≤ k) : turns k h = [] := by
  refine List.filterMap_eq_nil_iff.2 fun x hx => ?_
  obtain ⟨past, rest, rfl⟩ := List.append_of_mem hx
  -- a turn belongs to a delivery that has begun before it
  have hne {j : Nat} {e : ε} (he : EmittedAt past j e) : j ≠ k := by
    have hlt := he.lt
    simp only [List.length_append] at hk
    omega
  have hlawful := ht.lawful past x rest rfl
  cases x with
  | called j e sub => exact if_neg (hne hlawful.1)
  | skipped j e sub => exact if_neg (hne hlawful.1)
  | subscribed | ended | emitted | noted => rfl

theorem due_eq_nil (ht : TakesTurns hears due h) (hk : h.length ≤ k) : due k = [] := by
  refine List.eq_nil_iff_forall_not_mem.2 fun p hp => ?_
  have hlt := (ht.due_mem k p.1 p.2 hp).1.lt
  omega

/-- What happens next is lawful, and takes the turns from those that are due. -/
theorem append (ht : TakesTurns hears due h) (hlawful : IsLawful h x)
    (hold : ∀ k, k < h.length → turns k [x] ++ due' k = due k)
    (hnew : ∀ e, x = .emitted e → due' h.length
      = ((present h).filter fun sub => hears e sub.listener).map fun sub => (e, sub))
    (hlater : ∀ k, h.length ≤ k → due' k ≠ [] → k = h.length ∧ ∃ e, x = .emitted e) :
    TakesTurns hears due' (h ++ [x]) where
  lawful past y rest heq := by
    rcases append_singleton_eq heq with ⟨rfl, rfl⟩ | ⟨rest', hpast, -⟩
    · exact hlawful
    · exact ht.lawful past y rest' hpast
  turns_eq past e rest heq := by
    rw [turns_append]
    rcases append_singleton_eq heq with ⟨rfl, rfl⟩ | ⟨rest', hpast, -⟩
    · rw [ht.turns_eq_nil (Nat.le_refl _), hnew e rfl]
      rfl
    · have hlt : past.length < h.length := by
        rw [hpast, List.length_append, List.length_cons]
        omega
      rw [List.append_assoc, hold _ hlt, ht.turns_eq past e rest' hpast]
  due_mem k e sub hdue := by
    rcases Nat.lt_or_ge k h.length with hk | hk
    · have hmem : (e, sub) ∈ due k := by
        rw [← hold k hk]
        exact List.mem_append_right _ hdue
      obtain ⟨he, hsub⟩ := ht.due_mem k e sub hmem
      rw [made_append]
      exact ⟨he.append _, List.mem_append_left _ hsub⟩
    · -- of the deliveries to come only the one that begins now has turns
      obtain ⟨rfl, e', rfl⟩ := hlater k hk (List.ne_nil_of_mem hdue)
      rw [hnew e' rfl] at hdue
      obtain ⟨sub', hsub', heq⟩ := List.mem_map.1 hdue
      obtain ⟨rfl, rfl⟩ := Prod.mk.inj heq
      have hpresent := (List.mem_filter.1 hsub').1
      rw [made_append]
      exact ⟨by simp [EmittedAt], List.mem_append_left _ (List.mem_filter.1 hpresent).1⟩

/-- What is neither an event nor a turn. -/
theorem aside (ht : TakesTurns hears due h) (hlawful : IsLawful h x) (hturns : ∀ k, turns k [x] = [])
    (hemitted : ∀ e, x ≠ .emitted e) : TakesTurns hears due (h ++ [x]) :=
  ht.append hlawful (fun k _ => by rw [hturns, List.nil_append])
    (fun e he => absurd he (hemitted e)) fun _ hk hne => absurd (ht.due_eq_nil hk) hne

/-- The turns of those that are subscribed when an event is emitted become due. -/
theorem emitted (ht : TakesTurns hears due h) (e : ε) :
    TakesTurns hears (Function.update due h.length
      (((present h).filter fun sub => hears e sub.listener).map fun sub => (e, sub)))
      (h ++ [.emitted e]) := by
  refine ht.append trivial (fun k hk => ?_) (fun e' he' => ?_) fun k hk hne => ?_
  · rw [Function.update_of_ne (Nat.ne_of_lt hk)]
    rfl
  · obtain rfl := Happening.emitted.inj he'
    exact Function.update_self ..
  · refine ⟨?_, e, rfl⟩
    by_contra hother
    rw [Function.update_of_ne hother] at hne
    exact hne (ht.due_eq_nil hk)

/-- A turn is taken. -/
theorem turn (ht : TakesTurns hears due h) (hlawful : IsLawful h x) (hdue : due k = (e, sub) :: rest)
    (hturn : ∀ j, turns j [x] = if k = j then [(e, sub)] else [])
    (hemitted : ∀ e, x ≠ .emitted e) :
    TakesTurns hears (Function.update due k rest) (h ++ [x]) := by
  have hk := (ht.due_mem k e sub (hdue ▸ List.mem_cons_self)).1.lt
  refine ht.append hlawful (fun j _ => ?_) (fun e he => absurd he (hemitted e)) fun j hj hne => ?_
  · rw [hturn]
    by_cases hjk : k = j
    · subst hjk
      rw [if_pos rfl, Function.update_self, hdue]
      rfl
    · rw [if_neg hjk, Function.update_of_ne (Ne.symm hjk)]
      rfl
  · rw [Function.update_of_ne (by omega)] at hne
    exact absurd (ht.due_eq_nil hj) hne

end TakesTurns

/-- The turns of a delivery one after another: what each of them keeps, as it is taken from those that
are due, holds when none is due any more. -/
theorem foldl_turns {σ : Type} {P : (Nat → List (ε × Subscription α)) → σ → Prop}
    {step : σ → Subscription α → σ}
    (hstep : ∀ (due : Nat → List (ε × Subscription α)) {now sub rest},
      due k = (e, sub) :: rest → P due now → P (Function.update due k rest) (step now sub))
    (subs : List (Subscription α)) {due : Nat → List (ε × Subscription α)} (hnone : due k = [])
    {now : σ} (hnow : P (Function.update due k (subs.map fun sub => (e, sub))) now) :
    P due (subs.foldl step now) := by
  induction subs generalizing now with
  | nil =>
    have hsame : Function.update due k [] = due := Function.update_eq_self_iff.2 hnone.symm
    rwa [List.map_nil, hsame] at hnow
  | cons sub subs ih =>
    have hturn := hstep _ (Function.update_self ..) hnow
    rw [Function.update_idem] at hturn
    exact ih hturn

/-! ## Signals and their histories -/

/-- The history describes how the signal came about. -/
structure Describes (hears : ε → α → Bool) (due : Nat → List (ε × Subscription α))
    (h : History ε α μ) (s : Signal α) : Prop where
  subscriptions : Subscribes h s
  turns : TakesTurns hears due h

namespace Describes

variable {hears : ε → α → Bool} {due : Nat → List (ε × Subscription α)}
  {rest : List (ε × Subscription α)} {s : Signal α}

theorem nil (hears : ε → α → Bool) : Describes hears (fun _ => []) ([] : History ε α μ) {} :=
  ⟨.nil, .nil hears⟩

theorem subscribed (hd : Describes hears due h s) (listener : α) :
    Describes hears due (h ++ [.subscribed ⟨s.next, listener⟩]) (s.subscribe listener) :=
  ⟨hd.subscriptions.subscribed listener,
    hd.turns.aside trivial (fun _ => rfl) nofun⟩

theorem ended (hd : Describes hears due h s) {id : Nat} (hid : id < s.next) :
    Describes hears due (h ++ [.ended id]) (s.unsubscribe id) :=
  ⟨hd.subscriptions.ended hid,
    hd.turns.aside trivial (fun _ => rfl) nofun⟩

theorem endedAll (hd : Describes hears due h s) (ids : List Nat) (hids : ∀ id ∈ ids, id < s.next) :
    Describes hears due (h ++ ids.map .ended) (ids.foldl Signal.unsubscribe s) := by
  induction ids generalizing h s with
  | nil => simpa using hd
  | cons id ids ih =>
    have hrest := ih (hd.ended (hids id List.mem_cons_self)) fun other hother =>
      hids other (List.mem_cons_of_mem _ hother)
    simpa using hrest

theorem noted (hd : Describes hears due h s) (mark : μ) :
    Describes hears due (h ++ [.noted mark]) s :=
  ⟨hd.subscriptions.append rfl fun _ => rfl,
    hd.turns.aside trivial (fun _ => rfl) nofun⟩

theorem emitted (hd : Describes hears due h s) (e : ε) :
    Describes hears (Function.update due h.length
      ((s.subscriptions.filter fun sub => hears e sub.listener).map fun sub => (e, sub)))
      (h ++ [.emitted e]) s := by
  rw [← hd.subscriptions.present_eq]
  exact ⟨hd.subscriptions.append rfl fun _ => rfl, hd.turns.emitted e⟩

theorem called (hd : Describes hears due h s) (hdue : due k = (e, sub) :: rest)
    (hactive : s.isActive sub.id = true) :
    Describes hears (Function.update due k rest) (h ++ [.called k e sub]) s := by
  obtain ⟨he, hsub⟩ := hd.turns.due_mem k e sub (hdue ▸ List.mem_cons_self)
  have hpresent := (hd.subscriptions.mem_present_iff hsub).2 hactive
  exact ⟨hd.subscriptions.append rfl fun _ => rfl,
    hd.turns.turn ⟨he, hpresent⟩ hdue (fun j => turns_called j k e sub) nofun⟩

theorem skipped (hd : Describes hears due h s) (hdue : due k = (e, sub) :: rest)
    (hactive : s.isActive sub.id = false) :
    Describes hears (Function.update due k rest) (h ++ [.skipped k e sub]) s := by
  obtain ⟨he, hsub⟩ := hd.turns.due_mem k e sub (hdue ▸ List.mem_cons_self)
  have hgone : sub ∉ present h := fun hpresent => by
    rw [(hd.subscriptions.mem_present_iff hsub).1 hpresent] at hactive
    exact Bool.noConfusion hactive
  exact ⟨hd.subscriptions.append rfl fun _ => rfl,
    hd.turns.turn ⟨he, hgone⟩ hdue (fun j => turns_skipped j k e sub) nofun⟩

/-! ### What follows when nothing is due -/

theorem turns_eq (hd : Describes hears (fun _ => []) h s) {past rest : History ε α μ}
    (heq : h = past ++ .emitted e :: rest) :
    History.turns past.length h
      = ((present past).filter fun sub => hears e sub.listener).map fun sub => (e, sub) := by
  have hturns := hd.turns.turns_eq past e rest heq
  rwa [List.append_nil] at hturns

/-- Of the subscriptions that hear of the event some are called, each once and in order. -/
theorem calls_sublist (hd : Describes hears (fun _ => []) h s) {past rest : History ε α μ}
    (heq : h = past ++ .emitted e :: rest) : (calls past.length h).Sublist (present past) := by
  have hturns : ((History.turns past.length h).map (·.2)).Sublist (present past) := by
    rw [hd.turns_eq heq, List.map_map]
    simp [Function.comp_def]
  exact (History.calls_sublist past.length h).trans hturns

theorem nodup_present (hd : Describes hears due h s) {past rest : History ε α μ}
    (heq : h = past ++ rest) : (present past).Nodup := by
  have hmade : ((made past).map (·.id)).Nodup := by
    have hall := hd.subscriptions.nodup
    rw [heq, made_append, List.map_append] at hall
    exact (List.nodup_append'.1 hall).1
  exact (List.Nodup.of_map _ hmade).filter _

/-- What is subscribed later was not present. -/
theorem not_mem_present (hd : Describes hears due h s) {past rest : History ε α μ}
    (heq : h = past ++ rest) (hsub : .subscribed sub ∈ rest) : sub ∉ present past := by
  intro hpresent
  have hold : sub ∈ made past := (List.mem_filter.1 hpresent).1
  have hnew : sub ∈ made rest := List.mem_filterMap.2 ⟨_, hsub, rfl⟩
  have hall := hd.subscriptions.nodup
  rw [heq, made_append, List.map_append] at hall
  exact (List.nodup_append'.1 hall).2.2 (List.mem_map_of_mem hold) (List.mem_map_of_mem hnew)

/-- What has ended is not called any more. -/
theorem id_ne_of_ended (hd : Describes hears due h s) {past rest : History ε α μ} {id : Nat}
    (heq : h = past ++ .ended id :: rest) (hcalled : .called k e sub ∈ rest) : sub.id ≠ id := by
  obtain ⟨between, after, rfl⟩ := List.append_of_mem hcalled
  obtain ⟨-, hpresent⟩ := hd.turns.lawful (past ++ .ended id :: between) (.called k e sub) after
    (by simp [heq])
  have hactive := (List.mem_filter.1 hpresent).2
  rintro rfl
  rw [hasEnded_append] at hactive
  simp [hasEnded] at hactive

/-- What is called was present before, or has been subscribed since. -/
theorem mem_present_or_subscribed (hd : Describes hears due h s) {past rest : History ε α μ}
    (heq : h = past ++ rest) (hcalled : .called k e sub ∈ rest) :
    sub ∈ present past ∨ .subscribed sub ∈ rest := by
  obtain ⟨between, after, rfl⟩ := List.append_of_mem hcalled
  obtain ⟨-, hpresent⟩ := hd.turns.lawful (past ++ between) (.called k e sub) after
    (by rw [heq, List.append_assoc])
  obtain ⟨hmade, hactive⟩ := List.mem_filter.1 hpresent
  rw [made_append] at hmade
  rcases List.mem_append.1 hmade with hold | hnew
  · rw [hasEnded_append, Bool.not_or, Bool.and_eq_true] at hactive
    exact Or.inl (List.mem_filter.2 ⟨hold, hactive.1⟩)
  · obtain ⟨x, hx, hsub⟩ := List.mem_filterMap.1 hnew
    right
    cases x with
    | subscribed other =>
      obtain rfl := Option.some.inj hsub
      exact List.mem_append_left _ hx
    | ended | emitted | called | skipped | noted => nomatch hsub

end Describes

end History

end LangFile

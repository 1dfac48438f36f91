import LangFile.Proofs.Session.Acts

/-!
# Previews and the history of a session

What a recorded history says of previews: which of them are open (`openPreviews`), and what each has
shown. The subscriptions of a signal fall into those of the session, of its previews and of the
surroundings (`IsTidy`), so closing a preview or stopping the session ends its own and no others.

1. What a history says.
2. The subscriptions in a signal, and what becomes of them.
3. Previews, outputs and turns, with one lemma for each thing that is noted.
-/

namespace LangFile

/-- It is a preview that listens. -/
def Listener.isPreview : Listener → Bool
  | .preview _ => true
  | _ => false

/-- It is the session itself that listens. -/
def Listener.isOwn : Listener → Bool
  | .validation | .decoration | .scrolling => true
  | _ => false

/-- The subscriptions of an open preview: the first is to changes, the second to selections. -/
def PreviewState.held (p : PreviewState) : List (Subscription Interest) :=
  List.zipWith (fun id topic => ⟨id, ⟨topic, .preview p.id⟩⟩) p.subscriptions [.changed, .selected]

namespace Session

open History

/-! ## What a history says -/

/-- An interest is in events of its topic. -/
def hears (e : Event) (i : Interest) : Bool := i.topic = e.topic

/-- The open previews after one thing more. -/
def openNext (ids : List PreviewId) : Happening Event Interest Mark → List PreviewId
  | .noted (.opened id _ _) => ids ++ [id]
  | .noted (.closed id) => ids.filter (· ≠ id)
  | .noted .stopped => []
  | _ => ids

/-- The previews that were opened and not closed, neither one by one nor with the session. -/
def openPreviews (h : History Event Interest Mark) : List PreviewId := h.foldl openNext []

/-- The surroundings have ended the subscription of that number. -/
def hasIgnored (h : History Event Interest Mark) (id : Nat) : Bool :=
  h.any fun
    | .noted (.ignored other) => other = id
    | _ => false

/-- The subscriptions that the surroundings have made and not ended: all that there are without the
session. -/
def others (h : History Event Interest Mark) : List (Subscription Interest) :=
  (made h).filter fun sub => sub.listener.listener = .outside && !hasIgnored h sub.id

/-- The event concerns the view or its document. -/
def concerns (views : List PlainView) (view : ViewId) : Event → Bool
  | .changed d => views[view]?.bind (·.document) = some d
  | .selected v => v = view
  | _ => false

/-- What a preview shows at a moment, if it is called then for what concerns it. -/
def Moment.rendering (m : Moment) (id : PreviewId) (view : ViewId) (format : PreviewFormat) :
    Option PreviewOutput :=
  match m.happening with
  | .called _ e sub =>
    if sub.listener.listener = .preview id ∧ concerns m.views view e = true then
      some (format.render (shownText m.views view))
    else none
  | _ => none

/-- What a preview has shown so far. -/
def outputsOf (outputs : List (PreviewId × PreviewOutput)) (id : PreviewId) : List PreviewOutput :=
  (outputs.filter fun o => o.1 = id).map (·.2)

theorem refreshPreview_eq {s : Session PlainView Actors} {id : PreviewId} {p : PreviewState}
    (hfind : (s.previews.find? fun p => p.id = id) = some p) (e : Event) :
    s.refreshPreview id e
      = { s with outputs := s.outputs ++ if concerns s.views p.view e = true then
          [(id, p.format.render (shownText s.views p.view))] else [] } := by
  have hconcerned : s.refreshPreview id e
      = if concerns s.views p.view e = true then s.showOutput id p.view p.format else s := by
    unfold refreshPreview
    rw [hfind]
    cases e <;> rfl
  rw [hconcerned, showOutput_eq]
  split
  · rfl
  · rw [List.append_nil]

/-! ## Subscriptions -/

theorem subscriptions_foldl_unsubscribe (ids : List Nat) (signal : Signal Interest) :
    (ids.foldl Signal.unsubscribe signal).subscriptions
      = signal.subscriptions.filter fun sub => !ids.contains sub.id := by
  induction ids generalizing signal with
  | nil => simp
  | cons id ids ih =>
    rw [List.foldl_cons, ih, Signal.unsubscribe, List.filter_filter]
    refine List.filter_congr fun sub _ => ?_
    simp [eq_comm, Bool.and_comm]

theorem mem_held_iff {p : PreviewState} {sub : Subscription Interest} {i j : Nat}
    (hpair : p.subscriptions = [i, j]) :
    sub ∈ p.held ↔ sub = ⟨i, ⟨.changed, .preview p.id⟩⟩ ∨ sub = ⟨j, ⟨.selected, .preview p.id⟩⟩ := by
  unfold PreviewState.held
  rw [hpair]
  simp

/-- The subscriptions in a signal are those of the session, those of its open previews, and those of
the surroundings. -/
structure IsTidy (signal : Signal Interest) (own : List Nat) (previews : List PreviewState) :
    Prop where
  own_eq : (signal.subscriptions.filter (·.listener.listener.isOwn)).map (·.id) = own
  previews_eq : signal.subscriptions.filter (·.listener.listener.isPreview)
    = previews.flatMap PreviewState.held
  pair : ∀ p ∈ previews, ∃ i j, p.subscriptions = [i, j]
  nodup : (previews.map (·.id)).Nodup

namespace IsTidy

variable {signal signal' : Signal Interest} {own : List Nat} {previews : List PreviewState}
  {p : PreviewState} {sub : Subscription Interest}

theorem listener_of_mem_held (ht : IsTidy signal own previews) (hp : p ∈ previews)
    (hsub : sub ∈ p.held) : sub.listener.listener = .preview p.id ∧ sub.id ∈ p.subscriptions := by
  obtain ⟨i, j, hpair⟩ := ht.pair p hp
  rcases (mem_held_iff hpair).1 hsub with rfl | rfl <;> simp [hpair]

theorem exists_held (ht : IsTidy signal own previews) (hp : p ∈ previews) {id : Nat}
    (hid : id ∈ p.subscriptions) : ∃ sub ∈ p.held, sub.id = id := by
  obtain ⟨i, j, hpair⟩ := ht.pair p hp
  rw [hpair] at hid
  rcases List.mem_pair.1 hid with rfl | rfl
  · exact ⟨_, (mem_held_iff hpair).2 (Or.inl rfl), rfl⟩
  · exact ⟨_, (mem_held_iff hpair).2 (Or.inr rfl), rfl⟩

/-- What a preview hears by is its own. -/
theorem exists_of_preview (ht : IsTidy signal own previews) (hsub : sub ∈ signal.subscriptions)
    {id : PreviewId} (hlistener : sub.listener.listener = .preview id) :
    ∃ p ∈ previews, p.id = id ∧ sub ∈ p.held := by
  have hmem : sub ∈ previews.flatMap PreviewState.held := by
    rw [← ht.previews_eq]
    exact List.mem_filter.2 ⟨hsub, by rw [hlistener]; rfl⟩
  obtain ⟨p, hp, hheld⟩ := List.mem_flatMap.1 hmem
  have hid := (ht.listener_of_mem_held hp hheld).1
  rw [hlistener] at hid
  exact ⟨p, hp, (Listener.preview.inj hid).symm, hheld⟩

theorem mem_of_mem_held (ht : IsTidy signal own previews) (hp : p ∈ previews)
    (hsub : sub ∈ p.held) : sub ∈ signal.subscriptions := by
  have hmem : sub ∈ previews.flatMap PreviewState.held := List.mem_flatMap.2 ⟨p, hp, hsub⟩
  rw [← ht.previews_eq] at hmem
  exact (List.mem_filter.1 hmem).1

theorem eq_of_id_eq (ht : IsTidy signal own previews) {q : PreviewState} (hp : p ∈ previews)
    (hq : q ∈ previews) (hid : p.id = q.id) : p = q :=
  List.inj_on_of_nodup_map ht.nodup hp hq hid

theorem find?_eq (ht : IsTidy signal own previews) (hp : p ∈ previews) :
    (previews.find? fun q => q.id = p.id) = some p := by
  cases hfind : previews.find? fun q => q.id = p.id with
  | none =>
    have hnot := List.find?_eq_none.1 hfind p hp
    simp at hnot
  | some q =>
    have hid : q.id = p.id := by simpa using List.find?_some hfind
    rw [ht.eq_of_id_eq (List.mem_of_find?_eq_some hfind) hp hid]

/-- No subscription of the surroundings is among those that a session ends when it stops. -/
theorem exists_of_mem_stop (ht : IsTidy signal own previews) {id : Nat}
    (hid : id ∈ own ++ previews.flatMap (·.subscriptions)) :
    ∃ sub ∈ signal.subscriptions, sub.id = id ∧ sub.listener.listener ≠ .outside := by
  rcases List.mem_append.1 hid with hid | hid
  · rw [← ht.own_eq] at hid
    obtain ⟨sub, hsub, rfl⟩ := List.mem_map.1 hid
    obtain ⟨hmem, hown⟩ := List.mem_filter.1 hsub
    refine ⟨sub, hmem, rfl, fun heq => ?_⟩
    rw [heq] at hown
    exact Bool.noConfusion hown
  · obtain ⟨p, hp, hid⟩ := List.mem_flatMap.1 hid
    obtain ⟨sub, hsub, rfl⟩ := ht.exists_held hp hid
    refine ⟨sub, ht.mem_of_mem_held hp hsub, rfl, ?_⟩
    rw [(ht.listener_of_mem_held hp hsub).1]
    exact nofun

section

variable (hnodup : (signal.subscriptions.map (·.id)).Nodup)

include hnodup

theorem mem_own_iff (ht : IsTidy signal own previews) (hsub : sub ∈ signal.subscriptions) :
    sub.id ∈ own ↔ sub.listener.listener.isOwn = true := by
  rw [← ht.own_eq]
  constructor
  · intro hid
    obtain ⟨other, hother, heq⟩ := List.mem_map.1 hid
    obtain ⟨hmem, hown⟩ := List.mem_filter.1 hother
    rwa [← List.inj_on_of_nodup_map hnodup hmem hsub heq]
  · exact fun hown => List.mem_map_of_mem (List.mem_filter.2 ⟨hsub, hown⟩)

theorem mem_subscriptions_iff (ht : IsTidy signal own previews) (hp : p ∈ previews)
    (hsub : sub ∈ signal.subscriptions) :
    sub.id ∈ p.subscriptions ↔ sub.listener.listener = .preview p.id := by
  constructor
  · intro hid
    obtain ⟨other, hother, heq⟩ := ht.exists_held hp hid
    have hmem := ht.mem_of_mem_held hp hother
    rw [← List.inj_on_of_nodup_map hnodup hmem hsub heq]
    exact (ht.listener_of_mem_held hp hother).1
  · intro hlistener
    obtain ⟨q, hq, hid, hheld⟩ := ht.exists_of_preview hsub hlistener
    obtain rfl := ht.eq_of_id_eq hq hp hid
    exact (ht.listener_of_mem_held hq hheld).2

/-- Stopping the session leaves the subscriptions of the surroundings, and no others. -/
theorem subscriptions_stop (ht : IsTidy signal own previews) :
    ((own ++ previews.flatMap (·.subscriptions)).foldl Signal.unsubscribe signal).subscriptions
      = signal.subscriptions.filter (·.listener.listener = .outside) := by
  rw [subscriptions_foldl_unsubscribe]
  refine List.filter_congr fun sub hsub => ?_
  have hown := ht.mem_own_iff hnodup hsub
  cases hlistener : sub.listener.listener with
  | validation | decoration | scrolling =>
    rw [hlistener] at hown
    simp [hown.2 rfl]
  | preview id =>
    obtain ⟨p, hp, -, hheld⟩ := ht.exists_of_preview hsub hlistener
    have hid := (ht.listener_of_mem_held hp hheld).2
    simp [List.mem_flatMap.2 ⟨p, hp, hid⟩]
  | outside =>
    have hnot : sub.id ∉ previews.flatMap (·.subscriptions) := by
      intro hmem
      obtain ⟨p, hp, hid⟩ := List.mem_flatMap.1 hmem
      have hpreview := (ht.mem_subscriptions_iff hnodup hp hsub).1 hid
      rw [hlistener] at hpreview
      exact Listener.noConfusion hpreview
    rw [hlistener] at hown
    simp [hown, hnot, Listener.isOwn]

omit hnodup in
/-- Some subscriptions end, and with them the previews that hold them. -/
theorem filter (ht : IsTidy signal own previews) {keep : Subscription Interest → Bool}
    (hsignal : signal'.subscriptions = signal.subscriptions.filter keep)
    (hown : ∀ sub ∈ signal.subscriptions, sub.listener.listener.isOwn = true → keep sub = true)
    {still : PreviewState → Bool}
    (hpreviews : ∀ p ∈ previews, ∀ sub ∈ p.held, keep sub = still p) :
    IsTidy signal' own (previews.filter still) where
  own_eq := by
    rw [hsignal, List.filter_filter, ← ht.own_eq]
    refine congrArg _ (List.filter_congr fun sub hsub => ?_)
    cases hlistener : sub.listener.listener.isOwn with
    | true => simp [hown sub hsub hlistener]
    | false => rfl
  previews_eq := by
    -- the subscriptions of a preview go or stay with it
    have hkeep (l : List PreviewState) (hl : ∀ p ∈ l, ∀ sub ∈ p.held, keep sub = still p) :
        (l.flatMap PreviewState.held).filter keep = (l.filter still).flatMap PreviewState.held := by
      induction l with
      | nil => rfl
      | cons p l ih =>
        have hp := hl p List.mem_cons_self
        rw [List.flatMap_cons, List.filter_append, ih fun q hq => hl q (List.mem_cons_of_mem _ hq)]
        cases hstill : still p with
        | true =>
          rw [List.filter_cons_of_pos hstill, List.flatMap_cons]
          refine congrArg (· ++ _) (List.filter_eq_self.2 fun sub hsub => ?_)
          rw [hp sub hsub, hstill]
        | false =>
          rw [List.filter_cons_of_neg (by simp [hstill])]
          refine (congrArg (· ++ _) (List.filter_eq_nil_iff.2 fun sub hsub => ?_)).trans
            (List.nil_append _)
          simp [hp sub hsub, hstill]
    rw [hsignal, List.filter_filter, ← hkeep previews hpreviews, ← ht.previews_eq,
      List.filter_filter]
    exact List.filter_congr fun sub _ => Bool.and_comm _ _
  pair p hp := ht.pair p (List.mem_filter.1 hp).1
  nodup := ht.nodup.sublist (List.filter_sublist.map _)

theorem close (ht : IsTidy signal own previews) (hp : p ∈ previews) :
    IsTidy (p.subscriptions.foldl Signal.unsubscribe signal) own
      (previews.filter fun q => q.id ≠ p.id) := by
  refine ht.filter (subscriptions_foldl_unsubscribe p.subscriptions signal) (fun sub hsub hown => ?_)
    fun q hq sub hsub => ?_
  · have hnot : sub.id ∉ p.subscriptions := fun hid => by
      rw [(ht.mem_subscriptions_iff hnodup hp hsub).1 hid] at hown
      exact Bool.noConfusion hown
    simpa using hnot
  · have hiff := ht.mem_subscriptions_iff hnodup hp (ht.mem_of_mem_held hq hsub)
    rw [(ht.listener_of_mem_held hq hsub).1] at hiff
    have hid : sub.id ∈ p.subscriptions ↔ q.id = p.id := by simpa using hiff
    simp [hid]

theorem stop (ht : IsTidy signal own previews) :
    IsTidy ((own ++ previews.flatMap (·.subscriptions)).foldl Signal.unsubscribe signal) [] [] where
  own_eq := by
    rw [ht.subscriptions_stop hnodup, List.filter_filter, List.map_eq_nil_iff,
      List.filter_eq_nil_iff]
    intro sub _
    cases sub.listener.listener <;> simp [Listener.isOwn]
  previews_eq := by
    rw [ht.subscriptions_stop hnodup, List.filter_filter]
    refine List.filter_eq_nil_iff.2 fun sub _ => ?_
    cases sub.listener.listener <;> simp [Listener.isPreview]
  pair _ hp := absurd hp List.not_mem_nil
  nodup := List.nodup_nil

/-- The surroundings end a subscription of theirs. -/
theorem ignore (ht : IsTidy signal own previews) (hsub : sub ∈ signal.subscriptions)
    (houtside : sub.listener.listener = .outside) :
    IsTidy (signal.unsubscribe sub.id) own previews := by
  have hkeep {other : Subscription Interest} (hother : other ∈ signal.subscriptions)
      (hlistener : other.listener.listener ≠ .outside) : decide (other.id ≠ sub.id) = true := by
    refine decide_eq_true fun hid => hlistener ?_
    rw [List.inj_on_of_nodup_map hnodup hother hsub hid, houtside]
  have hall : previews.filter (fun _ => true) = previews := List.filter_eq_self.2 fun _ _ => rfl
  rw [← hall]
  refine ht.filter rfl (fun other hother hown => hkeep hother fun heq => ?_)
    fun q hq other hheld => ?_
  · rw [heq] at hown
    exact Bool.noConfusion hown
  · refine hkeep (ht.mem_of_mem_held hq hheld) fun heq => ?_
    rw [(ht.listener_of_mem_held hq hheld).1] at heq
    exact Listener.noConfusion heq

end

theorem listen (ht : IsTidy signal own previews) (topic : Topic) :
    IsTidy (signal.subscribe ⟨topic, .outside⟩) own previews where
  own_eq := by simpa [Signal.subscribe, Listener.isOwn] using ht.own_eq
  previews_eq := by simpa [Signal.subscribe, Listener.isPreview] using ht.previews_eq
  pair := ht.pair
  nodup := ht.nodup

theorem openPreview (ht : IsTidy signal own previews) {id : PreviewId}
    (hid : ∀ p ∈ previews, p.id ≠ id) (view : ViewId) (format : PreviewFormat) :
    IsTidy ((signal.subscribe ⟨.changed, .preview id⟩).subscribe ⟨.selected, .preview id⟩) own
      (previews ++ [⟨id, view, format, [signal.next, signal.next + 1]⟩]) where
  own_eq := by simpa [Signal.subscribe, Listener.isOwn] using ht.own_eq
  previews_eq := by
    simpa [Signal.subscribe, Listener.isPreview, PreviewState.held] using ht.previews_eq
  pair p hp := by
    rcases List.mem_append.1 hp with hold | hnew
    · exact ht.pair p hold
    · obtain rfl := List.mem_singleton.1 hnew
      exact ⟨_, _, rfl⟩
  nodup := by
    rw [List.map_append, List.nodup_append']
    refine ⟨ht.nodup, by simp, fun other hother hnew => ?_⟩
    obtain ⟨p, hp, rfl⟩ := List.mem_map.1 hother
    exact hid p hp (by simpa using hnew)

/-- The session begins to listen. -/
theorem begin (ht : IsTidy signal [] previews) :
    IsTidy (ownInterests.foldl Signal.subscribe signal)
      ((List.range ownInterests.length).map (signal.next + ·)) previews where
  own_eq := by
    have hnone := List.filter_eq_nil_iff.1 (List.map_eq_nil_iff.1 ht.own_eq)
    simpa [ownInterests, Signal.subscribe, Listener.isOwn, List.range_succ] using hnone
  previews_eq := by
    simpa [ownInterests, Signal.subscribe, Listener.isPreview] using ht.previews_eq
  pair := ht.pair
  nodup := ht.nodup

end IsTidy

/-! ## Subscriptions of the surroundings -/

/-- A subscription of the surroundings ends only when they end it. -/
structure SparesOthers (h : History Event Interest Mark) : Prop where
  ended : ∀ sub ∈ made h, sub.listener.listener = .outside → hasEnded h sub.id = true →
    hasIgnored h sub.id = true
  ignored : ∀ id, hasIgnored h id = true → hasEnded h id = true

theorem hasIgnored_append (h g : History Event Interest Mark) (id : Nat) :
    hasIgnored (h ++ g) id = (hasIgnored h id || hasIgnored g id) :=
  List.any_append

theorem made_map_ended (ids : List Nat) :
    made (ids.map .ended : History Event Interest Mark) = [] := by
  simp [made, List.filterMap_map]

namespace SparesOthers

variable {h g : History Event Interest Mark} {x : Happening Event Interest Mark} {id : Nat}

theorem nil : SparesOthers [] := ⟨fun _ hsub => absurd hsub List.not_mem_nil, nofun⟩

theorem others_eq (hs : SparesOthers h) :
    others h = (present h).filter (·.listener.listener = .outside) := by
  unfold others present
  rw [List.filter_filter]
  refine List.filter_congr fun sub hsub => ?_
  by_cases houtside : sub.listener.listener = .outside
  · have hiff : hasIgnored h sub.id = hasEnded h sub.id :=
      Bool.eq_iff_iff.2 ⟨hs.ignored sub.id, hs.ended sub hsub houtside⟩
    simp [houtside, hiff]
  · simp [houtside]

/-- What ends nothing, and makes no subscription that has ended already. -/
theorem append (hs : SparesOthers h) (hfresh : ∀ sub ∈ made g, hasEnded h sub.id = false)
    (hended : ∀ id, hasEnded g id = false) (hignored : ∀ id, hasIgnored g id = false) :
    SparesOthers (h ++ g) where
  ended sub hsub houtside hid := by
    rw [hasEnded_append, hended, Bool.or_false] at hid
    rw [hasIgnored_append, hignored, Bool.or_false]
    rw [made_append] at hsub
    rcases List.mem_append.1 hsub with hold | hnew
    · exact hs.ended sub hold houtside hid
    · rw [hfresh sub hnew] at hid
      exact Bool.noConfusion hid
  ignored id hid := by
    rw [hasIgnored_append, hignored, Bool.or_false] at hid
    rw [hasEnded_append, hs.ignored id hid, Bool.true_or]

/-- The session ends some of its own. -/
theorem endedAll (hs : SparesOthers h) (ids : List Nat)
    (hids : ∀ sub ∈ made h, sub.listener.listener = .outside → sub.id ∉ ids) :
    SparesOthers (h ++ ids.map .ended) := by
  have hended (id : Nat) :
      hasEnded (ids.map .ended : History Event Interest Mark) id = ids.contains id := by
    rw [Bool.eq_iff_iff]
    simp [hasEnded]
  have hignored (id : Nat) : hasIgnored (ids.map .ended) id = false := by
    simp [hasIgnored, Function.comp_def]
  refine ⟨fun sub hsub houtside hid => ?_, fun id hid => ?_⟩
  · rw [made_append, made_map_ended, List.append_nil] at hsub
    rw [hasEnded_append, hended] at hid
    rw [hasIgnored_append, hignored, Bool.or_false]
    have hnot := hids sub hsub houtside
    exact hs.ended sub hsub houtside (by simpa [hnot] using hid)
  · rw [hasIgnored_append, hignored, Bool.or_false] at hid
    rw [hasEnded_append, hs.ignored id hid, Bool.true_or]

/-- The surroundings end one of theirs. -/
theorem ignore (hs : SparesOthers h) (id : Nat) :
    SparesOthers (h ++ [.ended id, .noted (.ignored id)]) where
  ended sub hsub houtside hid := by
    rw [made_append] at hsub
    have hold : sub ∈ made h := by simpa [made] using hsub
    rw [hasEnded_append] at hid
    rw [hasIgnored_append]
    rcases Bool.or_eq_true _ _ ▸ hid with hid | hid
    · rw [hs.ended sub hold houtside hid, Bool.true_or]
    · have hsame : id = sub.id := by simpa [hasEnded] using hid
      simp [hasIgnored, hsame]
  ignored other hother := by
    rw [hasIgnored_append] at hother
    rw [hasEnded_append]
    rcases Bool.or_eq_true _ _ ▸ hother with hother | hother
    · rw [hs.ignored other hother, Bool.true_or]
    · have hsame : id = other := by simpa [hasIgnored] using hother
      simp [hasEnded, hsame]

end SparesOthers

/-! ## Open previews -/

/-- The history knows these previews as those that are open; each was opened once, with a number
below `next`, and each has made its own subscriptions. -/
structure KnowsPreviews (h : History Event Interest Mark) (previews : List PreviewState)
    (next : PreviewId) : Prop where
  open_eq : openPreviews h = previews.map (·.id)
  opened : ∀ p ∈ previews, .noted (.opened p.id p.view p.format) ∈ h
  opened_lt : ∀ id view format, .noted (.opened id view format) ∈ h → id < next
  unique : ∀ id view format view' format', .noted (.opened id view format) ∈ h →
    .noted (.opened id view' format') ∈ h → view = view' ∧ format = format'
  made_lt : ∀ sub ∈ made h, ∀ id, sub.listener.listener = .preview id → id < next
  made_topic : ∀ sub ∈ made h, sub.listener.listener.isPreview = true →
    sub.listener.topic = .changed ∨ sub.listener.topic = .selected
  made_unique : ∀ sub ∈ made h, ∀ other ∈ made h, sub.listener.listener.isPreview = true →
    other.listener = sub.listener → other = sub

theorem openPreviews_append (h g : History Event Interest Mark) :
    openPreviews (h ++ g) = g.foldl openNext (openPreviews h) :=
  List.foldl_append

theorem foldl_openNext_ended (ids : List Nat) (opened : List PreviewId) :
    (ids.map .ended : History Event Interest Mark).foldl openNext opened = opened := by
  induction ids with
  | nil => rfl
  | cons id ids ih => exact ih

namespace KnowsPreviews

variable {h g : History Event Interest Mark} {previews : List PreviewState} {next : PreviewId}

theorem nil (next : PreviewId) : KnowsPreviews [] [] next := by
  refine ⟨rfl, ?_, ?_, ?_, ?_, ?_, ?_⟩ <;> simp [made]

/-- What opens no preview and subscribes none; those that it closes are no longer open. -/
theorem append (hk : KnowsPreviews h previews next) {still : List PreviewState}
    (hopen : g.foldl openNext (previews.map (·.id)) = still.map (·.id))
    (hstill : ∀ p ∈ still, p ∈ previews)
    (hnone : ∀ id view format, .noted (.opened id view format) ∉ g)
    (hmade : ∀ sub ∈ made g, sub.listener.listener.isPreview = false) :
    KnowsPreviews (h ++ g) still next where
  open_eq := by rw [openPreviews_append, hk.open_eq, hopen]
  opened p hp := List.mem_append_left _ (hk.opened p (hstill p hp))
  opened_lt id view format hid :=
    hk.opened_lt id view format ((List.mem_append.1 hid).resolve_right (hnone id view format))
  unique id view format view' format' hid hid' :=
    hk.unique id view format view' format'
      ((List.mem_append.1 hid).resolve_right (hnone id view format))
      ((List.mem_append.1 hid').resolve_right (hnone id view' format'))
  made_lt sub hsub id hlistener := by
    rw [made_append] at hsub
    rcases List.mem_append.1 hsub with hold | hnew
    · exact hk.made_lt sub hold id hlistener
    · have hnot := hmade sub hnew
      rw [hlistener] at hnot
      exact Bool.noConfusion hnot
  made_topic sub hsub hpreview := by
    rw [made_append] at hsub
    rcases List.mem_append.1 hsub with hold | hnew
    · exact hk.made_topic sub hold hpreview
    · rw [hmade sub hnew] at hpreview
      exact Bool.noConfusion hpreview
  made_unique sub hsub other hother hpreview heq := by
    rw [made_append] at hsub hother
    have hpreview' : other.listener.listener.isPreview = true := heq ▸ hpreview
    have hold {sub : Subscription Interest} (hsub : sub ∈ made h ++ made g)
        (hpreview : sub.listener.listener.isPreview = true) : sub ∈ made h := by
      refine (List.mem_append.1 hsub).resolve_right fun hnew => ?_
      rw [hmade sub hnew] at hpreview
      exact Bool.noConfusion hpreview
    exact hk.made_unique sub (hold hsub hpreview) other (hold hother hpreview') hpreview heq

/-- A preview is opened, and makes its subscriptions. -/
theorem openPreview (hk : KnowsPreviews h previews next) (p : PreviewState) (hp : p.id = next)
    (n : Nat) :
    KnowsPreviews (h ++ .noted (.opened p.id p.view p.format) ::
      (previewSubscriptions p.id n).map .subscribed) (previews ++ [p]) (next + 1) := by
  have hmem {id : PreviewId} {view : ViewId} {format : PreviewFormat}
      (hid : .noted (.opened id view format) ∈ h ++ .noted (.opened p.id p.view p.format) ::
        (previewSubscriptions p.id n).map .subscribed) :
      .noted (.opened id view format) ∈ h ∧ id < next ∨
        id = next ∧ view = p.view ∧ format = p.format := by
    rcases List.mem_append.1 hid with hold | hnew
    · exact Or.inl ⟨hold, hk.opened_lt id view format hold⟩
    · right
      simpa [previewSubscriptions, hp] using hnew
  have hmade (sub : Subscription Interest)
      (hsub : sub ∈ made (h ++ .noted (.opened p.id p.view p.format) ::
        (previewSubscriptions p.id n).map .subscribed)) :
      sub ∈ made h ∨ sub ∈ previewSubscriptions p.id n := by
    rw [made_append] at hsub
    simpa [made, previewSubscriptions] using hsub
  have hnew (sub : Subscription Interest) (hsub : sub ∈ previewSubscriptions p.id n) :
      sub.listener.listener = .preview next ∧
        (sub = ⟨n, ⟨.changed, .preview next⟩⟩ ∨ sub = ⟨n + 1, ⟨.selected, .preview next⟩⟩) := by
    rw [previewSubscriptions, hp] at hsub
    rcases List.mem_pair.1 hsub with rfl | rfl <;> simp
  refine ⟨?_, fun q hq => ?_, fun id view format hid => ?_,
    fun id view format view' format' hid hid' => ?_, fun sub hsub id hlistener => ?_,
    fun sub hsub hpreview => ?_, fun sub hsub other hother hpreview heq => ?_⟩
  · rw [openPreviews_append, hk.open_eq]
    simp [openNext, previewSubscriptions]
  · rcases List.mem_append.1 hq with hold | hq
    · exact List.mem_append_left _ (hk.opened q hold)
    · obtain rfl := List.mem_singleton.1 hq
      simp
  · rcases hmem hid with ⟨-, hlt⟩ | ⟨rfl, -⟩
    · exact Nat.lt_succ_of_lt hlt
    · exact Nat.lt_succ_self _
  · rcases hmem hid with ⟨hold, hlt⟩ | ⟨heq, rfl, rfl⟩ <;>
      rcases hmem hid' with ⟨hold', hlt'⟩ | ⟨heq', rfl, rfl⟩
    · exact hk.unique id view format view' format' hold hold'
    · exact absurd heq' (Nat.ne_of_lt hlt)
    · exact absurd heq (Nat.ne_of_lt hlt')
    · exact ⟨rfl, rfl⟩
  · rcases hmade sub hsub with hold | hsub
    · exact Nat.lt_succ_of_lt (hk.made_lt sub hold id hlistener)
    · have hid := (hnew sub hsub).1
      rw [hlistener] at hid
      obtain rfl := Listener.preview.inj hid
      exact Nat.lt_succ_self _
  · rcases hmade sub hsub with hold | hsub
    · exact hk.made_topic sub hold hpreview
    · rcases (hnew sub hsub).2 with rfl | rfl <;> simp
  · -- a number that is new tells the listeners of this preview from all others
    have hfresh {sub other : Subscription Interest} (hsub : sub ∈ made h)
        (hother : other ∈ previewSubscriptions p.id n) : other.listener ≠ sub.listener := by
      intro heq
      have hlt := hk.made_lt sub hsub next (heq ▸ (hnew other hother).1)
      exact Nat.lt_irrefl _ hlt
    rcases hmade sub hsub with hsub | hsub <;> rcases hmade other hother with hother | hother
    · exact hk.made_unique sub hsub other hother hpreview heq
    · exact absurd heq (hfresh hsub hother)
    · exact absurd heq.symm (hfresh hother hsub)
    · rcases (hnew sub hsub).2 with rfl | rfl <;> rcases (hnew other hother).2 with rfl | rfl <;>
        simp_all

end KnowsPreviews

/-! ## Outputs and turns -/

/-- What a moment is like, after the history `past`: an event finds each open preview once if
previews listen for it, those that are open are called, and a session that stops leaves the
subscriptions of the surroundings. -/
def Moment.IsFair (past : History Event Interest Mark) (m : Moment) : Prop :=
  match m.happening with
  | .emitted e => ∀ id, ((present past).filter fun sub =>
      hears e sub.listener && sub.listener.listener = .preview id).length
        = if id ∈ openPreviews past ∧ (e.topic = .changed ∨ e.topic = .selected) then 1 else 0
  | .called _ _ sub => ∀ id, sub.listener.listener = .preview id → id ∈ openPreviews past
  | .skipped _ _ sub => ∀ id, sub.listener.listener = .preview id → id ∉ openPreviews past
  | .noted .stopped =>
    m.signal.subscriptions = others (past ++ [m.happening]) ∧
      present (past ++ [m.happening]) = m.signal.subscriptions
  | _ => True

/-- Nothing is shown at such a moment, nor is there anything to say about turns. -/
def IsAside : Happening Event Interest Mark → Prop
  | .subscribed _ | .ended _ | .noted (.closed _) | .noted (.ignored _) | .noted (.lost _) => True
  | _ => False

/-- The outputs are those that the moments tell: each preview shows something when it is opened, and
when it is called for what concerns it. -/
structure Tells (moments : List Moment) (outputs : List (PreviewId × PreviewOutput)) : Prop where
  fair : ∀ past m rest, moments = past ++ m :: rest → m.IsFair (past.map (·.happening))
  shows : ∀ past m rest id view format, moments = past ++ m :: rest →
    m.happening = .noted (.opened id view format) →
    outputsOf outputs id
      = format.render (shownText m.views view) :: rest.filterMap (·.rendering id view format)
  shown : ∀ o ∈ outputs, ∃ view format, .noted (.opened o.1 view format) ∈ moments.map (·.happening)

namespace Tells

variable {moments : List Moment} {outputs new : List (PreviewId × PreviewOutput)} {m : Moment}

theorem nil : Tells [] [] := by
  refine ⟨?_, ?_, ?_⟩ <;> simp

theorem append (ht : Tells moments outputs) (hfair : m.IsFair (moments.map (·.happening)))
    (hopened : ∀ id view format, m.happening = .noted (.opened id view format) →
      outputsOf outputs id = [] ∧ outputsOf new id = [format.render (shownText m.views view)])
    (hnew : ∀ id view format, .noted (.opened id view format) ∈ moments.map (·.happening) →
      outputsOf new id = (m.rendering id view format).toList)
    (hshown : ∀ o ∈ new, ∃ view format,
      .noted (.opened o.1 view format) ∈ (moments ++ [m]).map (·.happening)) :
    Tells (moments ++ [m]) (outputs ++ new) where
  fair past m' rest heq := by
    rcases append_singleton_eq heq with ⟨rfl, rfl⟩ | ⟨rest', hpast, -⟩
    · exact hfair
    · exact ht.fair past m' rest' hpast
  shows past m' rest id view format heq hm' := by
    have happend : outputsOf (outputs ++ new) id = outputsOf outputs id ++ outputsOf new id := by
      simp [outputsOf]
    rw [happend]
    rcases append_singleton_eq heq with ⟨rfl, rfl⟩ | ⟨rest', hpast, rfl⟩
    · obtain ⟨hnone, hone⟩ := hopened id view format hm'
      obtain rfl : rest = [] := by simpa using heq
      rw [hnone, hone]
      rfl
    · -- the preview was opened before, and shows at this moment what is new
      have hmem : .noted (.opened id view format) ∈ moments.map (·.happening) := by
        rw [← hm', hpast]
        exact List.mem_map_of_mem (by simp)
      rw [ht.shows past m' rest' id view format hpast hm', hnew id view format hmem,
        List.filterMap_append, List.cons_append]
      congr 1
  shown o ho := by
    rcases List.mem_append.1 ho with hold | ho
    · obtain ⟨view, format, hmem⟩ := ht.shown o hold
      exact ⟨view, format, by rw [List.map_append]; exact List.mem_append_left _ hmem⟩
    · exact hshown o ho

/-- A moment at which nothing is shown. -/
theorem silent (ht : Tells moments outputs) (hfair : m.IsFair (moments.map (·.happening)))
    (hopened : ∀ id view format, m.happening ≠ .noted (.opened id view format))
    (hrendering : ∀ id view format, m.rendering id view format = none) :
    Tells (moments ++ [m]) outputs := by
  have happend : Tells (moments ++ [m]) (outputs ++ []) := ht.append hfair
    (fun id view format hm => absurd hm (hopened id view format))
    (fun id view format _ => by rw [hrendering]; rfl) (fun _ ho => absurd ho List.not_mem_nil)
  rwa [List.append_nil] at happend

theorem aside (ht : Tells moments outputs) {xs : List (Happening Event Interest Mark)}
    (hxs : ∀ x ∈ xs, IsAside x) (signal : Signal Interest) (views : List PlainView) :
    Tells (moments ++ xs.map fun x => ⟨x, signal, views⟩) outputs := by
  induction xs generalizing moments with
  | nil => rwa [List.map_nil, List.append_nil]
  | cons x xs ih =>
    have hx : IsAside x := hxs x List.mem_cons_self
    have hsilent : Tells (moments ++ [⟨x, signal, views⟩]) outputs := by
      refine ht.silent ?_ (fun id view format heq => ?_) fun id view format => ?_
      · unfold Moment.IsFair
        unfold IsAside at hx
        split at hx <;> trivial
      · rw [show x = _ from heq] at hx
        exact hx.elim
      · unfold Moment.rendering
        unfold IsAside at hx
        split at hx <;> first | rfl | exact hx.elim
    have hrest := ih hsilent fun y hy => hxs y (List.mem_cons_of_mem x hy)
    rwa [List.append_assoc] at hrest

/-- The session is stopped. -/
theorem stop (ht : Tells moments outputs) {ids : List Nat} {signal : Signal Interest}
    (hothers : signal.subscriptions
      = others (moments.map (·.happening) ++ (ids.map .ended ++ [.noted .stopped])))
    (hpresent : present (moments.map (·.happening) ++ (ids.map .ended ++ [.noted .stopped]))
      = signal.subscriptions) (views : List PlainView) :
    Tells (moments ++ (ids.map .ended ++ [.noted .stopped] : History Event Interest Mark).map
      fun x => ⟨x, signal, views⟩) outputs := by
  have hended : Tells (moments ++ (ids.map .ended : History Event Interest Mark).map
      fun x => ⟨x, signal, views⟩) outputs := ht.aside (by simp [IsAside]) signal views
  have hhistory : (moments ++ (ids.map .ended : History Event Interest Mark).map
      fun x => (⟨x, signal, views⟩ : Moment)).map (·.happening)
        = moments.map (·.happening) ++ ids.map .ended := by
    simp [Function.comp_def]
  rw [List.map_append, ← List.append_assoc]
  refine hended.silent (m := ⟨.noted .stopped, signal, views⟩) ?_ nofun fun _ _ _ => rfl
  rw [hhistory]
  unfold Moment.IsFair
  dsimp only
  rw [List.append_assoc]
  exact ⟨hothers, hpresent⟩

/-- A preview is opened that has not been opened before. -/
theorem openPreview (ht : Tells moments outputs) {id : PreviewId}
    (hnot : ∀ view format, .noted (.opened id view format) ∉ moments.map (·.happening))
    (view : ViewId) (format : PreviewFormat) {xs : List (Happening Event Interest Mark)}
    (hxs : ∀ x ∈ xs, IsAside x) (signal : Signal Interest) (views : List PlainView) :
    Tells (moments ++ (.noted (.opened id view format) :: xs).map fun x => ⟨x, signal, views⟩)
      (outputs ++ [(id, format.render (shownText views view))]) := by
  have hnone : outputsOf outputs id = [] := by
    refine List.map_eq_nil_iff.2 (List.filter_eq_nil_iff.2 fun o ho hid => ?_)
    obtain ⟨view, format, hmem⟩ := ht.shown o ho
    rw [show o.1 = id by simpa using hid] at hmem
    exact hnot view format hmem
  have hopened : Tells (moments ++ [⟨.noted (.opened id view format), signal, views⟩])
      (outputs ++ [(id, format.render (shownText views view))]) := by
    refine ht.append trivial (fun other view' format' heq => ?_) (fun other view' format' hmem => ?_)
      fun o ho => ⟨view, format, ?_⟩
    · obtain ⟨rfl, rfl, rfl⟩ : id = other ∧ view = view' ∧ format = format' := by simpa using heq
      exact ⟨hnone, by simp [outputsOf]⟩
    · have hne : id ≠ other := fun heq => hnot view' format' (heq ▸ hmem)
      simp [outputsOf, hne, Moment.rendering]
    · simp [List.mem_singleton.1 ho]
  have hall := hopened.aside hxs signal views
  rwa [List.append_assoc] at hall

end Tells

end Session

end LangFile

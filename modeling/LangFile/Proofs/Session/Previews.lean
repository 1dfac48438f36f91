import LangFile.Proofs.Session.Stopped

/-!
# Previews in the course of a session

A preview shows something when it is opened, and then whenever it is called, while it is open, for a
change of its view's document or another selection in its view. Stopping the session leaves the
subscriptions of the surroundings, as if there had been no session.

1. What holds of a session and what is noted of it (`IsRecorded`). Single notes and acts keep it.
2. Every delivery keeps it (`isRecorded_recordNested`), and so does a whole course.
3. What a course shows (`previews_show_while_open`).
-/

namespace LangFile.Session

open History

/-- What is noted describes the session: its signal and its previews, and what these have shown. Until
it is started it has no subscriptions of its own. -/
structure IsRecorded (due : Nat → List (Event × Subscription Interest))
    (s : Session PlainView Actors) : Prop where
  describes : Describes hears due s.history s.signal
  tidy : IsTidy s.signal s.own s.previews
  spares : SparesOthers s.history
  knows : KnowsPreviews s.history s.previews s.nextPreview
  tells : Tells s.outside.moments s.outputs
  lost : ∀ e, .noted (.lost e) ∈ s.history → s.overrun = true
  own_eq : s.outside.started = false → s.own = []

/-- What happens is that an event is emitted or somebody has a turn. -/
def IsTurn : Happening Event Interest Mark → Prop
  | .emitted _ | .called _ _ _ | .skipped _ _ _ => True
  | _ => False

namespace IsRecorded

variable {due due' : Nat → List (Event × Subscription Interest)}
  {s s' : Session PlainView Actors} {x : Happening Event Interest Mark} {e : Event} {k : Nat}
  {sub : Subscription Interest} {rest : List (Event × Subscription Interest)}

/-! ## Single notes -/

theorem of_eq (hs : IsRecorded due s) (hsignal : s'.signal = s.signal) (hown : s'.own = s.own)
    (hpreviews : s'.previews = s.previews) (hnext : s'.nextPreview = s.nextPreview)
    (houtputs : s'.outputs = s.outputs) (hmoments : s'.outside.moments = s.outside.moments)
    (hstarted : s'.outside.started = s.outside.started) (hoverrun : s'.overrun = s.overrun) :
    IsRecorded due s' := by
  have hhistory : s'.history = s.history := congrArg (List.map _) hmoments
  refine ⟨?_, ?_, ?_, ?_, ?_, ?_, ?_⟩
  · rw [hhistory, hsignal]
    exact hs.describes
  · rw [hsignal, hown, hpreviews]
    exact hs.tidy
  · rw [hhistory]
    exact hs.spares
  · rw [hhistory, hpreviews, hnext]
    exact hs.knows
  · rw [hmoments, houtputs]
    exact hs.tells
  · rw [hhistory, hoverrun]
    exact hs.lost
  · rw [hown, hstarted]
    exact hs.own_eq

theorem nodup (hs : IsRecorded due s) : (s.signal.subscriptions.map (·.id)).Nodup := by
  rw [← hs.describes.subscriptions.present_eq]
  exact hs.describes.subscriptions.nodup.sublist (List.filter_sublist.map _)

theorem present_eq (hs : IsRecorded due s) : present s.history = s.signal.subscriptions :=
  hs.describes.subscriptions.present_eq

theorem lt_next (hs : IsRecorded due s) (hsub : sub ∈ s.signal.subscriptions) :
    sub.id < s.signal.next := by
  rw [← hs.present_eq] at hsub
  exact hs.describes.subscriptions.made_lt sub (List.mem_filter.1 hsub).1

/-- A number that is still to come has not ended. -/
theorem hasEnded_next (hs : IsRecorded due s) (i : Nat) :
    hasEnded s.history (s.signal.next + i) = false :=
  Bool.eq_false_iff.2 fun hended =>
    Nat.not_lt.2 (Nat.le_add_right _ i) (hs.describes.subscriptions.ended_lt _ hended)

theorem history_note (s : Session PlainView Actors) (x : Happening Event Interest Mark) :
    (s.note x).history = s.history ++ [x] :=
  List.map_append

/-- An event is emitted or somebody has a turn, and a preview may show something. -/
theorem turn (hs : IsRecorded due s) (hx : IsTurn x)
    (hdescribes : Describes hears due' (s.history ++ [x]) s.signal)
    (hfair : Moment.IsFair s.history ⟨x, s.signal, s.views⟩)
    {new : List (PreviewId × PreviewOutput)}
    (hnew : ∀ id view format, .noted (.opened id view format) ∈ s.history →
      outputsOf new id = (Moment.rendering ⟨x, s.signal, s.views⟩ id view format).toList)
    (hshown : ∀ o ∈ new, ∃ view format, .noted (.opened o.1 view format) ∈ s.history) :
    IsRecorded due' { s.note x with outputs := s.outputs ++ new } := by
  -- a turn neither makes nor ends a subscription, and it is no mark
  have hmade : made [x] = [] := by cases x <;> first | rfl | exact hx.elim
  have hended (id : Nat) : hasEnded [x] id = false := by cases x <;> first | rfl | exact hx.elim
  have hignored (id : Nat) : hasIgnored [x] id = false := by cases x <;> first | rfl | exact hx.elim
  have hopen (ids : List PreviewId) : openNext ids x = ids := by
    cases x <;> first | rfl | exact hx.elim
  have hmark (mark : Mark) : x ≠ .noted mark := by
    rintro rfl
    exact hx
  have hhistory : { s.note x with outputs := s.outputs ++ new }.history = s.history ++ [x] :=
    history_note s x
  refine ⟨?_, hs.tidy, ?_, ?_, ?_, fun e he => ?_, hs.own_eq⟩
  · rw [hhistory]
    exact hdescribes
  · rw [hhistory]
    exact hs.spares.append (by simp [hmade]) hended hignored
  · rw [hhistory]
    refine hs.knows.append (hopen _) (fun _ hp => hp) (fun id view format hmem => ?_)
      (by simp [hmade])
    exact hmark _ (List.mem_singleton.1 hmem).symm
  · refine hs.tells.append hfair (fun id view format hm => absurd hm (hmark _)) hnew fun o ho => ?_
    obtain ⟨view, format, hmem⟩ := hshown o ho
    exact ⟨view, format, by rw [List.map_append]; exact List.mem_append_left _ hmem⟩
  · rw [hhistory] at he
    refine hs.lost e ((List.mem_append.1 he).resolve_right fun hmem => ?_)
    exact hmark _ (List.mem_singleton.1 hmem).symm

/-- A turn at which no preview is called. -/
theorem silentTurn (hs : IsRecorded due s) (hx : IsTurn x)
    (hdescribes : Describes hears due' (s.history ++ [x]) s.signal)
    (hfair : Moment.IsFair s.history ⟨x, s.signal, s.views⟩)
    (hrendering : ∀ id view format, Moment.rendering ⟨x, s.signal, s.views⟩ id view format = none) :
    IsRecorded due' (s.note x) := by
  have hturn : IsRecorded due' { s.note x with outputs := s.outputs ++ [] } :=
    hs.turn hx hdescribes hfair (fun id view format _ => by rw [hrendering]; rfl)
      fun _ ho => absurd ho List.not_mem_nil
  exact hturn.of_eq rfl rfl rfl rfl (List.append_nil _).symm rfl rfl rfl

/-- Of the subscriptions of open previews, one for each of two topics is that of a preview. -/
theorem length_filter_held (previews : List PreviewState)
    (hpair : ∀ p ∈ previews, ∃ i j, p.subscriptions = [i, j])
    (hnodup : (previews.map (·.id)).Nodup) (e : Event) (id : PreviewId) :
    ((previews.flatMap PreviewState.held).filter fun sub =>
      hears e sub.listener && sub.listener.listener = .preview id).length
      = if id ∈ previews.map (·.id) ∧ (e.topic = .changed ∨ e.topic = .selected) then 1 else 0 := by
  induction previews with
  | nil => simp
  | cons p previews ih =>
    obtain ⟨i, j, hp⟩ := hpair p List.mem_cons_self
    obtain ⟨hnot, hrest⟩ := List.nodup_cons.1 hnodup
    have hheld : p.held = [⟨i, ⟨.changed, .preview p.id⟩⟩, ⟨j, ⟨.selected, .preview p.id⟩⟩] := by
      unfold PreviewState.held
      rw [hp]
      rfl
    rw [List.flatMap_cons, List.filter_append, List.length_append,
      ih (fun q hq => hpair q (List.mem_cons_of_mem _ hq)) hrest, hheld]
    by_cases hid : p.id = id
    · subst hid
      cases htopic : e.topic <;> simp [hears, htopic, hnot]
    · simp [hid, Ne.symm hid]

theorem emitted (hs : IsRecorded due s) (e : Event) :
    IsRecorded (Function.update due s.history.length
      ((s.subscribers e.topic).map fun sub => (e, sub))) (s.note (.emitted e)) := by
  refine hs.silentTurn trivial (hs.describes.emitted e) (fun id => ?_) fun _ _ _ => rfl
  have hpreviews := hs.tidy.previews_eq
  -- what a preview hears by is among the subscriptions of previews, and these are known
  have hsame : s.signal.subscriptions.filter (fun sub =>
      hears e sub.listener && sub.listener.listener = .preview id)
      = (s.signal.subscriptions.filter (·.listener.listener.isPreview)).filter fun sub =>
        hears e sub.listener && sub.listener.listener = .preview id := by
    rw [List.filter_filter]
    refine List.filter_congr fun sub _ => ?_
    by_cases hlistener : sub.listener.listener = .preview id
    · simp [hlistener, Listener.isPreview]
    · simp [hlistener]
  rw [hs.present_eq, hs.knows.open_eq, hsame, hpreviews]
  exact length_filter_held s.previews hs.tidy.pair hs.tidy.nodup e id

/-- Somebody other than a preview is called. -/
theorem called (hs : IsRecorded due s) (hdue : due k = (e, sub) :: rest)
    (hactive : s.signal.isActive sub.id = true)
    (hlistener : sub.listener.listener.isPreview = false) :
    IsRecorded (Function.update due k rest) (s.note (.called k e sub)) := by
  have hnot (id : PreviewId) : sub.listener.listener ≠ .preview id := fun heq => by
    rw [heq] at hlistener
    exact Bool.noConfusion hlistener
  exact hs.silentTurn trivial (hs.describes.called hdue hactive)
    (fun id hid => absurd hid (hnot id)) fun id _ _ => if_neg fun h => hnot id h.1

/-- A preview is called, and shows what concerns it. -/
theorem calledPreview (hs : IsRecorded due s) (hdue : due k = (e, sub) :: rest)
    (hactive : s.signal.isActive sub.id = true) {id : PreviewId}
    (hlistener : sub.listener.listener = .preview id) :
    IsRecorded (Function.update due k rest)
      ((s.note (.called k e sub)).refreshPreview id e) := by
  have hmade := (hs.describes.turns.due_mem k e sub (hdue ▸ List.mem_cons_self)).2
  have hsub : sub ∈ s.signal.subscriptions := by
    rw [← hs.present_eq]
    exact (hs.describes.subscriptions.mem_present_iff hmade).2 hactive
  -- a preview whose subscription is active is open
  obtain ⟨p, hp, rfl, -⟩ := hs.tidy.exists_of_preview hsub hlistener
  have hopened := hs.knows.opened p hp
  have hrefreshed : (s.note (.called k e sub)).refreshPreview p.id e
      = { s.note (.called k e sub) with
          outputs := s.outputs ++ if concerns s.views p.view e = true then
            [(p.id, p.format.render (shownText s.views p.view))] else [] } :=
    refreshPreview_eq (s := s.note _) (hs.tidy.find?_eq hp) e
  have hturn : IsTurn (.called k e sub) := trivial
  rw [hrefreshed]
  refine hs.turn hturn (hs.describes.called hdue hactive) (fun id hid => ?_)
    (fun id view format hmark => ?_) fun o ho => ?_
  · rw [hlistener] at hid
    obtain rfl := Listener.preview.inj hid
    rw [hs.knows.open_eq]
    exact List.mem_map_of_mem hp
  · unfold Moment.rendering
    dsimp only
    by_cases hid : p.id = id
    · subst hid
      obtain ⟨rfl, rfl⟩ := hs.knows.unique _ _ _ _ _ hopened hmark
      cases concerns s.views p.view e <;> simp [outputsOf, hlistener]
    · have hother : sub.listener.listener ≠ .preview id := fun heq =>
        hid (Listener.preview.inj (hlistener.symm.trans heq))
      cases concerns s.views p.view e <;> simp [outputsOf, hother, hid]
  · have hid : o.1 = p.id := by
      split at ho
      · rw [List.mem_singleton.1 ho]
      · exact absurd ho List.not_mem_nil
    exact ⟨p.view, p.format, hid ▸ hopened⟩

/-- What an open preview has subscribed is still subscribed. -/
theorem mem_of_open (hs : IsRecorded due s) (hmade : sub ∈ made s.history) {id : PreviewId}
    (hlistener : sub.listener.listener = .preview id) (hopen : id ∈ openPreviews s.history) :
    sub ∈ s.signal.subscriptions := by
  rw [hs.knows.open_eq] at hopen
  obtain ⟨p, hp, rfl⟩ := List.mem_map.1 hopen
  obtain ⟨i, j, hpair⟩ := hs.tidy.pair p hp
  have hpreview : sub.listener.listener.isPreview = true := by rw [hlistener]; rfl
  -- the preview holds a subscription with the same interest, and has made no other
  have hheld : ∃ other ∈ p.held, other.listener = sub.listener := by
    obtain ⟨id, ⟨topic, listener⟩⟩ := sub
    obtain rfl : listener = .preview p.id := hlistener
    rcases hs.knows.made_topic _ hmade hpreview with rfl | rfl
    · exact ⟨_, (mem_held_iff hpair).2 (Or.inl rfl), rfl⟩
    · exact ⟨_, (mem_held_iff hpair).2 (Or.inr rfl), rfl⟩
  obtain ⟨other, hother, heq⟩ := hheld
  have hmem := hs.tidy.mem_of_mem_held hp hother
  have hmade' : other ∈ made s.history := by
    rw [← hs.present_eq] at hmem
    exact (List.mem_filter.1 hmem).1
  rwa [← hs.knows.made_unique sub hmade other hmade' hpreview heq]

/-- Nobody is called whose subscription has ended. -/
theorem skipped (hs : IsRecorded due s) (hdue : due k = (e, sub) :: rest)
    (hactive : s.signal.isActive sub.id = false) :
    IsRecorded (Function.update due k rest) (s.note (.skipped k e sub)) := by
  refine hs.silentTurn trivial (hs.describes.skipped hdue hactive) (fun id hid hopen => ?_)
    fun _ _ _ => rfl
  have hmade := (hs.describes.turns.due_mem k e sub (hdue ▸ List.mem_cons_self)).2
  have hmem := hs.mem_of_open hmade hid hopen
  rw [← hs.present_eq, hs.describes.subscriptions.mem_present_iff hmade, hactive] at hmem
  exact Bool.noConfusion hmem

/-- An event is left out. -/
theorem lost_event (hs : IsRecorded due s) (e : Event) :
    IsRecorded due ({ s with overrun := true }.note (.noted (.lost e))) := by
  have hhistory : ({ s with overrun := true }.note (.noted (.lost e))).history
      = s.history ++ [.noted (.lost e)] := history_note _ _
  refine ⟨?_, hs.tidy, ?_, ?_, ?_, fun _ _ => rfl, hs.own_eq⟩
  · rw [hhistory]
    exact hs.describes.noted _
  · rw [hhistory]
    exact hs.spares.append (by simp [made]) (fun _ => rfl) fun _ => rfl
  · rw [hhistory]
    exact hs.knows.append rfl (fun _ hp => hp) (by simp) (by simp [made])
  · refine hs.tells.silent trivial (fun id view format heq => ?_) fun _ _ _ => rfl
    cases heq

/-! ## Several notes at once -/

theorem noted {xs : List (Happening Event Interest Mark)} {signal : Signal Interest}
    {views : List PlainView} (hs : IsRecorded due s) (hlost : ∀ e, .noted (.lost e) ∉ xs)
    (hmoments : s'.outside.moments = s.outside.moments ++ xs.map fun x => ⟨x, signal, views⟩)
    (hoverrun : s'.overrun = s.overrun)
    (hdescribes : Describes hears due (s.history ++ xs) s'.signal)
    (htidy : IsTidy s'.signal s'.own s'.previews) (hspares : SparesOthers (s.history ++ xs))
    (hknows : KnowsPreviews (s.history ++ xs) s'.previews s'.nextPreview)
    (htells : Tells (s.outside.moments ++ xs.map fun x => ⟨x, signal, views⟩) s'.outputs)
    (hown : s'.outside.started = false → s'.own = []) : IsRecorded due s' := by
  have hhistory : s'.history = s.history ++ xs := by
    unfold history
    rw [hmoments, List.map_append, List.map_map]
    exact congrArg _ (List.map_id xs)
  rw [← hmoments] at htells
  refine ⟨?_, htidy, ?_, ?_, htells, fun e he => ?_, hown⟩
  · rwa [hhistory]
  · rwa [hhistory]
  · rwa [hhistory]
  · rw [hhistory] at he
    exact hoverrun.trans (hs.lost e ((List.mem_append.1 he).resolve_right (hlost e)))

theorem listen (hs : IsRecorded due s) (topic : Topic) :
    IsRecorded due (s.listenNoted topic) := by
  unfold listenNoted
  rw [noteAll_eq]
  refine hs.noted (by simp) rfl rfl
    (hs.describes.subscribed _) (hs.tidy.listen topic) ?_ ?_ ?_ hs.own_eq
  · exact hs.spares.append (by simpa [made] using hs.hasEnded_next 0) (fun _ => rfl) fun _ => rfl
  · exact hs.knows.append rfl (fun _ hp => hp) (by simp) (by simp [made, Listener.isPreview])
  · exact hs.tells.aside (by simp [IsAside]) _ _

theorem ignore (hs : IsRecorded due s) (id : Nat) :
    IsRecorded due (s.ignoreNoted id) := by
  unfold ignoreNoted
  split
  · next houtside =>
    obtain ⟨sub, hsub, hsame⟩ := List.any_eq_true.1 houtside
    obtain ⟨rfl, hlistener⟩ : sub.id = id ∧ sub.listener.listener = .outside := by simpa using hsame
    have hdescribes := (hs.describes.ended (hs.lt_next hsub)).noted (.ignored sub.id)
    rw [List.append_assoc] at hdescribes
    rw [noteAll_eq]
    refine hs.noted (by simp) rfl rfl hdescribes
      (hs.tidy.ignore hs.nodup hsub hlistener) (hs.spares.ignore sub.id) ?_ ?_ hs.own_eq
    · exact hs.knows.append rfl (fun _ hp => hp) (by simp) (by simp [made])
    · exact hs.tells.aside (by simp [IsAside]) _ _
  · exact hs

theorem openPreview (hs : IsRecorded due s) (format : PreviewFormat) :
    IsRecorded due (s.openPreviewNoted format) := by
  cases hactive : s.active with
  | none =>
    rwa [openPreviewNoted_of_none hactive]
  | some view =>
    have hnew (p : PreviewState) (hp : p ∈ s.previews) : p.id ≠ s.nextPreview :=
      Nat.ne_of_lt (hs.knows.opened_lt _ _ _ (hs.knows.opened p hp))
    have hdescribes := ((hs.describes.noted (.opened s.nextPreview view format)).subscribed
      ⟨.changed, .preview s.nextPreview⟩).subscribed ⟨.selected, .preview s.nextPreview⟩
    rw [List.append_assoc, List.append_assoc] at hdescribes
    have hknows := hs.knows.openPreview
      ⟨s.nextPreview, view, format, [s.signal.next, s.signal.next + 1]⟩ rfl s.signal.next
    rw [openPreviewNoted_of_some hactive, openPreview_eq s format hactive, noteAll_eq]
    refine hs.noted (by simp) rfl rfl hdescribes (hs.tidy.openPreview hnew view format) ?_ hknows ?_
      hs.own_eq
    · refine hs.spares.append ?_ (by simp [hasEnded]) (by simp [hasIgnored])
      simpa [made, previewSubscriptions] using ⟨hs.hasEnded_next 0, hs.hasEnded_next 1⟩
    · refine hs.tells.openPreview (fun view' format' hmem => ?_) view format ?_ _ _
      · exact Nat.lt_irrefl _ (hs.knows.opened_lt _ view' format' hmem)
      · simp [IsAside, previewSubscriptions]

/-- The session ends some of its own subscriptions. -/
theorem ends (hs : IsRecorded due s) (ids : List Nat)
    (hids : ∀ id ∈ ids, ∃ sub ∈ s.signal.subscriptions,
      sub.id = id ∧ sub.listener.listener ≠ .outside)
    (mark : Mark) (hmark : ∀ id, mark ≠ .ignored id) :
    Describes hears due (s.history ++ (ids.map .ended ++ [.noted mark]))
      (ids.foldl Signal.unsubscribe s.signal) ∧
    SparesOthers (s.history ++ (ids.map .ended ++ [.noted mark])) := by
  rw [← List.append_assoc]
  constructor
  · refine (hs.describes.endedAll ids fun id hid => ?_).noted mark
    obtain ⟨sub, hsub, rfl, -⟩ := hids id hid
    exact hs.lt_next hsub
  · refine (hs.spares.endedAll ids fun sub hmade houtside hid => ?_).append (by simp [made])
      (fun _ => rfl) fun id => ?_
    · -- no number is used twice, so what ends is not one of the surroundings
      obtain ⟨other, hother, hsame, hnot⟩ := hids sub.id hid
      rw [← hs.present_eq] at hother
      have hmade' := (List.mem_filter.1 hother).1
      rw [hs.describes.subscriptions.eq_of_id_eq hmade' hmade hsame] at hnot
      exact hnot houtside
    · cases mark with
      | ignored other => exact absurd rfl (hmark other)
      | _ => rfl

theorem closePreview (hs : IsRecorded due s) (id : PreviewId) :
    IsRecorded due (s.closePreviewNoted id) := by
  cases hfind : s.previews.find? fun p => p.id = id with
  | none =>
    rwa [closePreviewNoted_of_none hfind]
  | some p =>
    have hp := List.mem_of_find?_eq_some hfind
    obtain rfl : p.id = id := by simpa using List.find?_some hfind
    obtain ⟨hdescribes, hspares⟩ := hs.ends p.subscriptions (fun id hid =>
      hs.tidy.exists_of_mem_stop (List.mem_append_right _ (List.mem_flatMap.2 ⟨p, hp, hid⟩)))
      (.closed p.id) nofun
    rw [closePreviewNoted_of_some hfind, noteAll_eq]
    refine hs.noted (by simp) rfl rfl hdescribes (hs.tidy.close hs.nodup hp) hspares ?_ ?_ hs.own_eq
    · refine hs.knows.append ?_ (fun q hq => (List.mem_filter.1 hq).1) (by simp) (by simp [made])
      rw [List.foldl_append, foldl_openNext_ended]
      simp [openNext, List.filter_map, Function.comp_def]
    · exact hs.tells.aside (by simp [IsAside, or_imp, forall_and]) _ _

theorem stop (hs : IsRecorded due s) : IsRecorded due s.stopNoted := by
  have hsubscriptions := hs.tidy.subscriptions_stop hs.nodup
  have htidy := hs.tidy.stop hs.nodup
  obtain ⟨hdescribes, hspares⟩ := hs.ends _ (fun id hid => hs.tidy.exists_of_mem_stop hid)
    .stopped nofun
  -- the subscriptions of the surroundings are left, by the signal and by the history alike
  have hpresent := hdescribes.subscriptions.present_eq
  have hothers := hspares.others_eq
  rw [hpresent, hsubscriptions, List.filter_filter] at hothers
  simp only [Bool.and_self] at hothers
  rw [← hsubscriptions] at hothers
  unfold stopNoted
  rw [stop_eq, noteAll_eq]
  refine hs.noted (by simp) rfl rfl hdescribes htidy hspares ?_ ?_ fun _ => rfl
  · refine hs.knows.append ?_ nofun (by simp) (by simp [made])
    rw [List.foldl_append, foldl_openNext_ended]
    rfl
  · exact hs.tells.stop hothers.symm hpresent s.views

/-- The session begins to listen. -/
theorem begin (hs : IsRecorded due s) (hstarted : s.outside.started = false) :
    IsRecorded due
      (noteAll { s with outside := { s.outside with started := true } }
        ((ownSubscriptions s.signal.next).map .subscribed)).begun := by
  have htidy := hs.tidy
  rw [hs.own_eq hstarted] at htidy
  have hdescribes := ((((hs.describes.subscribed ⟨.opened, .validation⟩).subscribed
    ⟨.changed, .validation⟩).subscribed ⟨.activated, .decoration⟩).subscribed
    ⟨.shown, .decoration⟩).subscribed ⟨.scrolled, .scrolling⟩
  simp only [List.append_assoc] at hdescribes
  rw [noteAll_eq]
  refine hs.noted (by simp) rfl rfl hdescribes htidy.begin ?_ ?_ ?_ nofun
  · refine hs.spares.append ?_ (by simp [hasEnded]) (by simp [hasIgnored])
    simpa [made, ownSubscriptions, ownInterests] using
      ⟨hs.hasEnded_next 0, hs.hasEnded_next 1, hs.hasEnded_next 2, hs.hasEnded_next 3,
        hs.hasEnded_next 4⟩
  · refine hs.knows.append rfl (fun _ hp => hp) (by simp) ?_
    simp [made, ownSubscriptions, ownInterests, Listener.isPreview]
  · exact hs.tells.aside (by simp [IsAside]) _ _

/-! ## Deliveries -/

theorem decorateView (hs : IsRecorded due s) (id : ViewId) :
    IsRecorded due (s.decorateView id) := by
  unfold Session.decorateView
  split
  · exact hs
  · exact hs.of_eq rfl rfl rfl rfl rfl rfl rfl rfl

theorem decorateVisible (hs : IsRecorded due s) : IsRecorded due s.decorateVisible :=
  List.foldlRecOn s.visible _ hs fun _ hs id _ => hs.decorateView id

section

variable {emit : Delivery PlainView Actors}
  (hemit : ∀ e s, IsRecorded due s → IsRecorded due (emit e s))

include hemit

theorem post (hs : IsRecorded due s) (path : Text) (fs : List Finding) :
    IsRecorded due (s.post emit path fs) :=
  hemit _ _ (hs.of_eq rfl rfl rfl rfl rfl rfl rfl rfl)

theorem validate (hs : IsRecorded due s) (path : Text) :
    IsRecorded due (s.validate emit path) := by
  unfold Session.validate
  split
  · exact hs
  · exact (hs.post hemit _ _).post hemit _ _

theorem start (hs : IsRecorded due s) : IsRecorded due (s.startNoted emit) := by
  unfold startNoted
  split
  · exact hs
  · next hstarted =>
    show IsRecorded due (Session.start emit _)
    rw [start_eq]
    refine IsRecorded.decorateVisible ?_
    exact List.foldlRecOn _ _ (hs.begin (Bool.eq_false_iff.2 hstarted)) fun _ hs d _ =>
      hs.validate hemit d.path

theorem reveal (hs : IsRecorded due s) (id : ViewId) (line : Int) :
    IsRecorded due (s.reveal emit id line) := by
  have hviews (views : List PlainView) : IsRecorded due { s with views } :=
    hs.of_eq rfl rfl rfl rfl rfl rfl rfl rfl
  unfold Session.reveal
  split
  · exact hs
  · dsimp only
    split
    · exact hviews _
    · exact hemit _ _ (hviews _)

theorem scrollLinked (hs : IsRecorded due s) (source : ViewId) (line : Int) :
    IsRecorded due (s.scrollLinked emit source line) := by
  unfold Session.scrollLinked
  split
  · exact hs
  · have hbegun : IsRecorded due { s with scroll := { s.scroll with inProgress := true } } :=
      hs.of_eq rfl rfl rfl rfl rfl rfl rfl rfl
    have hscrolled := List.foldlRecOn (motive := IsRecorded due) s.visible
      (fun s id => if id ≠ source && s.viewColumn id ≠ s.viewColumn source then
        s.reveal emit id line else s) hbegun fun s hs id _ => by
      split
      · exact hs.reveal hemit id line
      · exact hs
    dsimp only
    split <;> exact hscrolled.of_eq rfl rfl rfl rfl rfl rfl rfl rfl

end

/-- Neither is what else belongs to the session recorded, nor what is done to its views. -/
theorem isSteady (due : Nat → List (Event × Subscription Interest)) :
    IsSteady (IsRecorded due) where
  aside _ _ _ _ _ _ _ hs := hs.of_eq rfl rfl rfl rfl rfl rfl rfl rfl
  addView _ hs := hs.of_eq rfl rfl rfl rfl rfl rfl rfl rfl
  modifyView _ _ _ hs := hs.of_eq rfl rfl rfl rfl rfl rfl rfl rfl
  listen topic hs := hs.listen topic
  ignore id hs := hs.ignore id
  openPreview format hs := hs.openPreview format
  closePreview id hs := hs.closePreview id
  start hemit hs := hs.start hemit
  stop hs := hs.stop

/-- Whatever is not a preview notes nothing of its own. -/
theorem react {emit : Delivery PlainView Actors}
    (hemit : ∀ e s, IsRecorded due s → IsRecorded due (emit e s)) (hs : IsRecorded due s)
    {l : Listener} (hl : l.isPreview = false) (e : Event) :
    IsRecorded due (s.react emit l e) := by
  cases l with
  | validation =>
    cases e with
    | opened path => exact hs.validate hemit path
    | changed path => exact (hs.validate hemit path).decorateVisible
    | _ => exact hs
  | decoration => exact hs.decorateVisible
  | scrolling =>
    cases e with
    | scrolled view line => exact hs.scrollLinked hemit view line
    | _ => exact hs
  | preview id => exact Bool.noConfusion hl
  | outside => exact (isSteady due).hear hemit e hs

/-- A turn in a delivery, if events in its course keep what is noted. -/
theorem takeTurn {emit : Delivery PlainView Actors}
    (hemit : ∀ e s, IsRecorded (Function.update due k rest) s →
      IsRecorded (Function.update due k rest) (emit e s))
    (hs : IsRecorded due s) (hdue : due k = (e, sub) :: rest) :
    IsRecorded (Function.update due k rest) (Session.turn emit k e s sub) := by
  unfold Session.turn
  split
  · next hactive =>
    cases hlistener : sub.listener.listener with
    | preview id => exact hs.calledPreview hdue hactive hlistener
    | _ => exact (hs.called hdue hactive (by rw [hlistener]; rfl)).react hemit rfl e
  · next hgone => exact hs.skipped hdue (Bool.eq_false_iff.2 hgone)

end IsRecorded

section

variable {due : Nat → List (Event × Subscription Interest)} {s : Session PlainView Actors}

/-- **Every delivery keeps what is noted,** by induction on the nesting: nothing is due after it that
was not due before. -/
theorem isRecorded_recordNested (depth : Nat) (e : Event) (hs : IsRecorded due s) :
    IsRecorded due (recordNested depth e s) := by
  induction depth generalizing due e s with
  | zero => exact hs.lost_event e
  | succ depth ih =>
    have hlength : s.outside.moments.length = s.history.length := (List.length_map _).symm
    have hnone := hs.describes.turns.due_eq_nil (Nat.le_refl _)
    unfold recordNested
    rw [hlength]
    exact foldl_turns (fun due now sub rest hdue hnow => hnow.takeTurn (fun e s hs => ih e hs) hdue)
      (s.subscribers e.topic) hnone (hs.emitted e)

theorem isRecorded_record (e : Event) (hs : IsRecorded due s) :
    IsRecorded due (record e s) :=
  isRecorded_recordNested s.outside.room e hs

theorem isRecorded_course (acts : List Act) (hs : IsRecorded due s) :
    IsRecorded due (course record acts s) :=
  (IsRecorded.isSteady due).course (fun e _ hs => isRecorded_record e hs) acts hs

/-- From the beginning, everything is noted. -/
theorem isRecorded_new (disk : Disk) (referenceName : Text) (deferred : Bool)
    (plan : List (List Act)) (room : Nat) :
    IsRecorded (fun _ => []) { disk, referenceName, deferred, outside := { plan, room } } where
  describes := .nil hears
  tidy := ⟨rfl, rfl, nofun, List.nodup_nil⟩
  spares := .nil
  knows := .nil 0
  tells := .nil
  lost _ he := absurd he List.not_mem_nil
  own_eq _ := rfl

end

namespace IsRecorded

variable {s : Session PlainView Actors} {past rest : List Moment} {m : Moment}

/-- An event has one turn for each open preview that may be concerned. -/
theorem length_turns (hs : IsRecorded (fun _ => []) s)
    (heq : s.outside.moments = past ++ m :: rest) {e : Event} (he : m.happening = .emitted e)
    (id : PreviewId) :
    ((turns past.length s.history).filter fun t => t.2.listener.listener = .preview id).length
      = if id ∈ openPreviews (past.map (·.happening)) ∧
          (e.topic = .changed ∨ e.topic = .selected) then 1 else 0 := by
  have hhistory : s.history = past.map (·.happening) ++ .emitted e :: rest.map (·.happening) := by
    unfold history
    rw [heq, List.map_append, List.map_cons, he]
  have hturns := hs.describes.turns_eq hhistory
  have hfair := hs.tells.fair past m rest heq
  unfold Moment.IsFair at hfair
  rw [he] at hfair
  rw [List.length_map] at hturns
  rw [← hfair id, hturns, List.filter_map, List.length_map, List.filter_filter]
  refine congrArg List.length (List.filter_congr fun sub _ => ?_)
  exact Bool.and_comm _ _

end IsRecorded

/--
**A preview shows its view's selection when it is opened and at each change of its view's document
or of the selection while it is open,** and nothing else. A session that stops leaves the
subscriptions that there would be without it, and is not called any more. What is being done
meanwhile goes on to its end, but no later event affects the findings, the decorations or what its
previews have shown.
-/
theorem previews_show_while_open (disk : Disk) (referenceName : Text) (deferred : Bool)
    (plan : List (List Act)) (room : Nat) (acts : List Act) :
    let s₀ : Session PlainView Actors :=
      { disk, referenceName, deferred, outside := { plan, room } }
    let s := course record acts s₀
    Alike (course Session.emit acts s₀) s ∧
    (∀ past m rest, s.outside.moments = past ++ m :: rest →
      let earlier := past.map (·.happening)
      let later := rest.map (·.happening)
      (∀ id view format, m.happening = .noted (.opened id view format) →
        outputsOf s.outputs id = format.render (shownText m.views view) ::
          rest.filterMap (·.rendering id view format)) ∧
      (∀ e : Event, m.happening = .emitted e → ∀ id : PreviewId,
        ((turns past.length s.history).filter fun t =>
          t.2.listener.listener = .preview id).length
          = if id ∈ openPreviews earlier ∧ (e.topic = .changed ∨ e.topic = .selected)
            then 1 else 0) ∧
      (∀ k e sub, m.happening = .called k e sub → EmittedAt earlier k e ∧
        ∀ id, sub.listener.listener = .preview id → id ∈ openPreviews earlier) ∧
      (∀ k e sub, m.happening = .skipped k e sub → EmittedAt earlier k e ∧
        ∀ id, sub.listener.listener = .preview id → id ∉ openPreviews earlier) ∧
      (m.happening = .noted .stopped →
        m.signal.subscriptions = others (earlier ++ [m.happening]) ∧
        (∀ k e sub, .called k e sub ∈ later → sub.listener.listener ≠ .outside →
          .subscribed sub ∈ later) ∧
        ∀ now : Session PlainView Actors, now.signal = m.signal → now.outside.started = true →
          ∀ emit, IsDelivery emit → (∀ e, Unaffected now (emit e now)) ∧
            ∀ acts, Unaffected now (course emit acts now))) ∧
    (∀ o ∈ s.outputs, ∃ view format, .noted (.opened o.1 view format) ∈ s.history) ∧
    (s.overrun = false → ∀ e, .noted (.lost e) ∉ s.history) := by
  intro s₀ s
  have hs : IsRecorded (fun _ => []) s :=
    isRecorded_course acts (isRecorded_new disk referenceName deferred plan room)
  refine ⟨alike_course acts s₀, fun past m rest heq => ?_, hs.tells.shown,
    fun hroom e he => ?_⟩
  · have hhistory : s.history = past.map (·.happening) ++ m.happening :: rest.map (·.happening) := by
      unfold history
      rw [heq, List.map_append, List.map_cons]
    have hlawful := hs.describes.turns.lawful _ _ _ hhistory
    have hfair := hs.tells.fair past m rest heq
    unfold Moment.IsFair at hfair
    refine ⟨fun id view format hm => hs.tells.shows past m rest id view format heq hm,
      fun e he id => hs.length_turns heq he id, fun k e sub hm => ?_, fun k e sub hm => ?_,
      fun hm => ?_⟩
    · rw [hm] at hlawful hfair
      exact ⟨hlawful.1, hfair⟩
    · rw [hm] at hlawful hfair
      exact ⟨hlawful.1, hfair⟩
    · rw [hm] at hfair ⊢
      obtain ⟨hothers, hpresent⟩ := hfair
      have houtside (sub : Subscription Interest) (hsub : sub ∈ m.signal.subscriptions) :
          sub.listener.listener = .outside := by
        rw [hothers] at hsub
        have hkept := (List.mem_filter.1 hsub).2
        rw [Bool.and_eq_true, decide_eq_true_eq] at hkept
        exact hkept.1
      refine ⟨hothers, fun k e sub hcalled hinside => ?_, fun now hnow hstarted emit hemit => ?_⟩
      · -- what was present when the session stopped was outside
        rw [hm, List.append_cons] at hhistory
        refine (hs.describes.mem_present_or_subscribed hhistory hcalled).resolve_left fun hmem => ?_
        rw [hpresent] at hmem
        exact hinside (houtside sub hmem)
      · exact unaffected_of_outside (fun sub hsub => houtside sub (hnow ▸ hsub)) hstarted hemit
  · rw [hs.lost e he] at hroom
    exact Bool.noConfusion hroom

/-- While it is told of the second selection, the surroundings stop the session before it is the turn
of the preview. -/
example :
    let acts : List Act := [.addView { selection := "x" }, .setActive (some 0), .listen .selected,
      .start, .openPreview .raw, .select 0 "y", .select 0 "z"]
    let s := course Session.emit acts { outside := { plan := [[], [.stop]], room := 2 } }
    s.outputs = [(0, .text "x"), (0, .text "y")] ∧
      s.signal.subscriptions.map (·.listener) = [⟨.selected, .outside⟩] := by
  decide +kernel

end LangFile.Session

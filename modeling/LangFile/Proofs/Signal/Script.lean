import LangFile.Proofs.Signal.History
import LangFile.Signal.Script

/-!
# Scripts and what happens in their course

A script is carried out once more with everything written down that happens to the signal
(`record`). That leaves the same scene (`scene_record`), and the history describes the signal at every
moment, however deep emissions nest.

1. Recordings (`Recording`), and actions that are recorded.
2. What every action keeps of a recording (`IsFaithful`).
3. Whom an emission calls (`emissions_call_present`).
-/

namespace LangFile.Script

open History

variable {α : Type}

/-! ## Recordings -/

/-- What happened, and the signal right after it. -/
structure Moment (α : Type) where
  happening : Happening α (Listener α) Empty
  signal : Signal (Listener α)

/-- A scene, and how it came about. -/
structure Recording (α : Type) where
  scene : Scene α := {}
  moments : List (Moment α) := []

namespace Recording

/-- All that happened. -/
def history (r : Recording α) : History α (Listener α) Empty := r.moments.map (·.happening)

/-- Writes down what has just happened. -/
def note (r : Recording α) (x : Happening α (Listener α) Empty) : Recording α :=
  { r with moments := r.moments ++ [⟨x, r.scene.signal⟩] }

/-- Subscribes a listener. -/
def subscribe (r : Recording α) (l : Listener α) : Recording α :=
  { r with scene := r.scene.subscribe l }.note (.subscribed ⟨r.scene.signal.next, l⟩)

/-- Ends the subscription last made under a name. -/
def unsubscribe (r : Recording α) (name : Text) : Recording α :=
  match r.scene.find? name with
  | some id => { r with scene := r.scene.unsubscribe name }.note (.ended id)
  | none => r

/-- The listener writes its line. -/
def write (r : Recording α) (name : Text) (value : α) : Recording α :=
  { r with scene := { r.scene with log := r.scene.log ++ [(name, value)] } }

/-- A subscription has its turn in the delivery `k`. A listener that is called goes on as `run`
says. -/
def turn (run : List (Action α) → Recording α → Recording α) (k : Nat) (value : α)
    (r : Recording α) (sub : Subscription (Listener α)) : Recording α :=
  if r.scene.signal.isActive sub.id then
    run sub.listener.body ((r.write sub.listener.name value).note (.called k value sub))
  else r.note (.skipped k value sub)

/-- Delivers a value to the subscriptions that there are. -/
def deliver (run : List (Action α) → Recording α → Recording α) (value : α) (r : Recording α) :
    Recording α :=
  r.scene.signal.subscriptions.foldl (turn run r.moments.length value) (r.note (.emitted value))

/-- The listeners of the scene begin another log. -/
def clearLog (r : Recording α) : Recording α := { r with scene := { r.scene with log := [] } }

end Recording

/-- Carries out an action of a listener, which emits no more when the log holds `limit` lines. -/
def Recording.step (limit : Nat) (go : Action α → Recording α → Recording α) (r : Recording α)
    (a : Action α) : Recording α :=
  match a with
  | .emit _ => if limit ≤ r.scene.log.length then r else go a r
  | _ => go a r

/-- Carries out an action and writes down what happens. -/
def record (limit : Nat) : (depth : Nat) → Action α → Recording α → Recording α
  | _, .subscribe name body, r => r.subscribe ⟨name, body⟩
  | _, .unsubscribe name, r => r.unsubscribe name
  | 0, .emit value, r => r.note (.emitted value)
  | depth + 1, .emit value, r =>
    r.deliver (fun body r => body.foldl (Recording.step limit (record limit depth)) r) value

/-- Carries out an action with an empty log and writes down what happens. -/
def recordAct (limit : Nat) (r : Recording α) (a : Action α) : Recording α :=
  record limit (limit + 1) a r.clearLog

/-- Carries out a script from the start on and writes down what happens. -/
def recordScript (limit : Nat) (script : List (Action α)) : Recording α :=
  script.foldl (recordAct limit) {}

section

variable (limit depth : Nat) (r : Recording α)

theorem scene_unsubscribe (name : Text) : (r.unsubscribe name).scene = r.scene.unsubscribe name := by
  unfold Recording.unsubscribe
  cases hname : r.scene.find? name with
  | some id => rfl
  | none => simp [Scene.unsubscribe, hname]

/-- A recording is of what is done. -/
theorem scene_record (a : Action α) :
    (record limit depth a r).scene = perform limit depth a r.scene := by
  induction depth generalizing a r with
  | zero =>
    cases a with
    | subscribe | emit => rfl
    | unsubscribe name => exact scene_unsubscribe r name
  | succ depth ih =>
    cases a with
    | subscribe => rfl
    | unsubscribe name => exact scene_unsubscribe r name
    | emit value =>
      refine (List.foldl_hom Recording.scene fun now sub => ?_).symm
      unfold Recording.turn
      dsimp only
      split
      · show List.foldl _ ((now.write sub.listener.name value).note
          (.called r.moments.length value sub)).scene sub.listener.body = _
        refine List.foldl_hom Recording.scene fun now a => ?_
        unfold Recording.step
        cases a with
        | emit value =>
          dsimp only
          split
          · rfl
          · exact (ih now (.emit value)).symm
        | subscribe name body => exact (ih now (.subscribe name body)).symm
        | unsubscribe name => exact (ih now (.unsubscribe name)).symm
      · rfl

end

/-! ## What every action keeps -/

/-- The lines that the calls have written. -/
def lines (h : History α (Listener α) Empty) : List (Text × α) :=
  h.filterMap fun
    | .called _ value sub => some (sub.listener.name, value)
    | _ => none

/-- At every moment the signal is what the history says, and the log holds the lines of all calls but
those that stood in former logs; it has at least `n`. -/
structure IsFaithful (due : Nat → List (α × Subscription (Listener α))) (former : List (Text × α))
    (n : Nat) (r : Recording α) : Prop where
  describes : Describes (fun _ _ => true) due r.history r.scene.signal
  moments : ∀ past m rest, r.moments = past ++ m :: rest →
    Subscribes ((past ++ [m]).map (·.happening)) m.signal
  named_lt : ∀ p ∈ r.scene.named, p.2 < r.scene.signal.next
  lines_eq : lines r.history = former ++ r.scene.log
  le_length : n ≤ r.scene.log.length

namespace IsFaithful

variable {due due' : Nat → List (α × Subscription (Listener α))} {former : List (Text × α)}
  {n k : Nat} {value : α} {r r' : Recording α} {x : Happening α (Listener α) Empty}

theorem note (hr : IsFaithful due former n r) (scene : Scene α)
    (hdescribes : Describes (fun _ _ => true) due' (r.history ++ [x]) scene.signal)
    (hnamed : ∀ p ∈ scene.named, p.2 < scene.signal.next)
    (hlines : lines r.history ++ lines [x] = former ++ scene.log) {n' : Nat}
    (hn : n' ≤ scene.log.length) :
    IsFaithful due' former n' ({ r with scene }.note x) := by
  have hhistory : ({ r with scene }.note x).history = r.history ++ [x] :=
    List.map_append
  refine ⟨by rw [hhistory]; exact hdescribes, fun past m rest heq => ?_, hnamed, ?_, hn⟩
  · rcases append_singleton_eq heq with ⟨rfl, rfl⟩ | ⟨rest', hpast, -⟩
    · rw [List.map_append]
      exact hdescribes.subscriptions
    · exact hr.moments past m rest' hpast
  · rw [hhistory]
    exact List.filterMap_append.trans hlines

theorem le (hr : IsFaithful due former n r) {n' : Nat} (hn : n' ≤ n) :
    IsFaithful due former n' r :=
  ⟨hr.describes, hr.moments, hr.named_lt, hr.lines_eq, Nat.le_trans hn hr.le_length⟩

theorem subscribe (hr : IsFaithful due former n r) (l : Listener α) :
    IsFaithful due former n (r.subscribe l) := by
  refine hr.note (r.scene.subscribe l) (hr.describes.subscribed l) (fun p hp => ?_) ?_ hr.le_length
  · rcases List.mem_cons.1 hp with rfl | hold
    · exact Nat.lt_succ_self _
    · exact Nat.lt_succ_of_lt (hr.named_lt p (List.mem_filter.1 hold).1)
  · exact (List.append_nil _).trans hr.lines_eq

theorem unsubscribe (hr : IsFaithful due former n r) (name : Text) :
    IsFaithful due former n (r.unsubscribe name) := by
  unfold Recording.unsubscribe
  cases hname : r.scene.find? name with
  | none => exact hr
  | some id =>
    have hid : id < r.scene.signal.next := by
      unfold Scene.find? at hname
      obtain ⟨p, hp, rfl⟩ := Option.map_eq_some_iff.1 hname
      exact hr.named_lt p (List.mem_of_find?_eq_some hp)
    have hscene : r.scene.unsubscribe name
        = { r.scene with signal := r.scene.signal.unsubscribe id } := by
      rw [Scene.unsubscribe, hname]
    dsimp only
    rw [hscene]
    exact hr.note { r.scene with signal := r.scene.signal.unsubscribe id }
      (hr.describes.ended hid) hr.named_lt ((List.append_nil _).trans hr.lines_eq) hr.le_length

/-- A turn in a delivery, when a listener that is called keeps what every action keeps. -/
theorem turn {run : List (Action α) → Recording α → Recording α}
    {sub : Subscription (Listener α)} {rest : List (α × Subscription (Listener α))}
    (hrun : ∀ r', IsFaithful (Function.update due k rest) former (n + 1) r' →
      IsFaithful (Function.update due k rest) former (n + 1) (run sub.listener.body r'))
    (hdue : due k = (value, sub) :: rest) (hr : IsFaithful due former n r) :
    IsFaithful (Function.update due k rest) former n (r.turn run k value sub) := by
  unfold Recording.turn
  split
  · next hactive =>
    refine (hrun _ ?_).le (Nat.le_succ n)
    refine hr.note { r.scene with log := r.scene.log ++ [(sub.listener.name, value)] }
      (hr.describes.called hdue hactive) hr.named_lt ?_ ?_
    · rw [hr.lines_eq, List.append_assoc]
      rfl
    · rw [List.length_append]
      exact Nat.succ_le_succ hr.le_length
  · next hgone =>
    exact hr.note r.scene (hr.describes.skipped hdue (Bool.eq_false_iff.2 hgone)) hr.named_lt
      ((List.append_nil _).trans hr.lines_eq) hr.le_length

/-- A whole delivery: nothing is due after it that was not due before. -/
theorem deliver {run : List (Action α) → Recording α → Recording α}
    (hrun : ∀ due body r', IsFaithful due former (n + 1) r' →
      IsFaithful due former (n + 1) (run body r'))
    (value : α) (hr : IsFaithful due former n r) : IsFaithful due former n (r.deliver run value) := by
  have hlength : r.moments.length = r.history.length := (List.length_map _).symm
  have hemitted := hr.note r.scene (hr.describes.emitted value) hr.named_lt
    ((List.append_nil _).trans hr.lines_eq) hr.le_length
  have hall : r.scene.signal.subscriptions.filter (fun _ => true) = r.scene.signal.subscriptions :=
    List.filter_eq_self.2 fun _ _ => rfl
  rw [hall] at hemitted
  unfold Recording.deliver
  rw [hlength]
  have hnone := hr.describes.turns.due_eq_nil (Nat.le_refl _)
  exact foldl_turns (P := fun due r => IsFaithful due former n r)
    (fun due now sub rest hdue hnow => hnow.turn (hrun _ sub.listener.body) hdue) _ hnone hemitted

end IsFaithful

section

variable {limit : Nat} {due : Nat → List (α × Subscription (Listener α))}
  {former : List (Text × α)} {n : Nat} {r : Recording α}

/-- **Every action keeps a recording faithful.** Each delivery writes a line before it goes deeper, so
the depth is never used up. -/
theorem isFaithful_record (depth : Nat) (a : Action α) (hdepth : limit + 1 ≤ depth + n)
    (hemit : depth = 0 → ∀ value, a ≠ .emit value) (hr : IsFaithful due former n r) :
    IsFaithful due former n (record limit depth a r) := by
  induction depth generalizing due n r a with
  | zero =>
    cases a with
    | subscribe name body => exact hr.subscribe ⟨name, body⟩
    | unsubscribe name => exact hr.unsubscribe name
    | emit value => exact absurd rfl (hemit rfl value)
  | succ depth ih =>
    cases a with
    | subscribe name body => exact hr.subscribe ⟨name, body⟩
    | unsubscribe name => exact hr.unsubscribe name
    | emit value =>
      refine hr.deliver (fun due body r' hr' => ?_) value
      refine List.foldlRecOn body _ hr' fun now hnow a _ => ?_
      have hgo (hroom : depth = 0 → ∀ value, a ≠ .emit value) :
          IsFaithful due former (n + 1) (record limit depth a now) :=
        ih a (by omega) hroom hnow
      unfold Recording.step
      cases a with
      | emit value =>
        dsimp only
        split
        · exact hnow
        · next hlimit =>
          have hlength := hnow.le_length
          -- the log is not full, so some depth is left
          exact hgo fun hzero => by omega
      | subscribe name body => exact hgo fun _ => nofun
      | unsubscribe name => exact hgo fun _ => nofun

theorem isFaithful_recordAct (a : Action α) (hr : IsFaithful (fun _ => []) former n r) :
    IsFaithful (fun _ => []) (lines r.history) 0 (recordAct limit r a) := by
  have hclear : IsFaithful (fun _ => []) (lines r.history) 0 r.clearLog :=
    ⟨hr.describes, hr.moments, hr.named_lt, (List.append_nil _).symm, Nat.zero_le _⟩
  exact isFaithful_record (limit + 1) a (Nat.le_refl _) (fun hzero => nomatch hzero) hclear

theorem exists_isFaithful_recordScript (limit : Nat) (script : List (Action α)) :
    ∃ former, IsFaithful (fun _ => []) former 0 (recordScript limit script) := by
  refine List.foldlRecOn (motive := fun r => ∃ former, IsFaithful (fun _ => []) former 0 r)
    script _ ⟨[], ?_⟩ fun r hr a _ => ?_
  · exact ⟨.nil _, fun _ _ _ heq => absurd heq (by simp), fun _ hp => absurd hp List.not_mem_nil,
      rfl, Nat.le_refl 0⟩
  · obtain ⟨former, hr⟩ := hr
    exact ⟨_, isFaithful_recordAct a hr⟩

end

/--
**An emission calls those that were subscribed when it began and are subscribed when their turn
comes,** each of them once and in the order of their subscriptions; none is called after its
subscription has ended, and none that subscribes in the course of the emission. At every moment the
signal has as many subscriptions as are active. What is written to the log is what was called.
-/
theorem emissions_call_present (limit : Nat) (script : List (Action α)) :
    let r := recordScript limit script
    let h := r.history
    r.scene = script.foldl (fun s a => act limit a s) {} ∧
    (∀ past value rest, h = past ++ .emitted value :: rest →
      turns past.length h = (present past).map (fun sub => (value, sub)) ∧
      (calls past.length h).Sublist (present past) ∧ (calls past.length h).Nodup ∧
      ∀ sub, .subscribed sub ∈ rest → sub ∉ calls past.length h) ∧
    (∀ past k value sub rest, h = past ++ .called k value sub :: rest →
      EmittedAt past k value ∧ sub ∈ present past) ∧
    (∀ past k value sub rest, h = past ++ .skipped k value sub :: rest →
      EmittedAt past k value ∧ sub ∉ present past) ∧
    (∀ past id rest, h = past ++ .ended id :: rest →
      ∀ k value sub, .called k value sub ∈ rest → sub.id ≠ id) ∧
    (∀ past m rest, r.moments = past ++ m :: rest →
      let now := (past ++ [m]).map (·.happening)
      m.signal.size = (made now).countP (fun sub => m.signal.isActive sub.id) ∧
      ∀ sub ∈ made now, m.signal.isActive sub.id = !hasEnded now sub.id) ∧
    ∀ a, lines (recordAct limit r a).history = lines h ++ (act limit a r.scene).log := by
  intro r h
  obtain ⟨former, hr⟩ := exists_isFaithful_recordScript limit script
  have hd : Describes (fun _ _ => true) (fun _ => []) h r.scene.signal := hr.describes
  refine ⟨?_, fun past value rest heq => ?_, fun past k value sub rest heq => ?_,
    fun past k value sub rest heq => ?_, fun past id rest heq k value sub => hd.id_ne_of_ended heq,
    fun past m rest heq => ?_, fun a => ?_⟩
  · refine (List.foldl_hom Recording.scene fun r a => ?_).symm
    exact (scene_record limit (limit + 1) r.clearLog a).symm
  · have hcalls := hd.calls_sublist heq
    refine ⟨?_, hcalls, hcalls.nodup (hd.nodup_present heq), fun sub hsub hcalled => ?_⟩
    · simpa using hd.turns_eq heq
    · exact hd.not_mem_present heq (List.mem_cons_of_mem _ hsub) (hcalls.subset hcalled)
  · exact hd.turns.lawful past (.called k value sub) rest heq
  · exact hd.turns.lawful past (.skipped k value sub) rest heq
  · have hm := hr.moments past m rest heq
    exact ⟨hm.size_eq, fun sub hsub => hm.isActive_eq hsub⟩
  · have hact : IsFaithful _ (lines h) 0 (recordAct limit r a) := isFaithful_recordAct a hr
    rw [hact.lines_eq]
    exact congrArg _ (congrArg Scene.log (scene_record limit (limit + 1) r.clearLog a))

/-- The first listener ends the subscription of the second, adds a third, and emits again: this is for
the third as well, and the second is never called. -/
example :
    let script : List (Action Nat) := [
      .subscribe "a" [.unsubscribe "b", .subscribe "c" [], .emit 1], .subscribe "b" [], .emit 0]
    (script.foldl (fun s a => act 2 a s) {}).log
      = [(Text.ofString "a", 0), ("a", 1), ("c", 1)] := by
  decide +kernel

end LangFile.Script

import LangFile.Proofs.Session.LanguageFile
import LangFile.Proofs.Session.Quiet
import LangFile.Proofs.Skeleton

/-!
# The language file that is made

A command that succeeds has written the skeleton to the target and nothing else. An open document at
the target has the skeleton for its text then: it is read back from the file, and as a skeleton holds
no carriage return, what is read is what was written.

1. Skeletons hold no carriage return (`not_mem_build`), so their line ends are normal.
2. What a change of a document leaves alone (`node?_updateDocument`, `document?_updateDocument`).
3. What a successful command leaves behind (`newLanguageFile_successful`).
-/

namespace LangFile

/-! ## Line ends -/

theorem normalizeLineEndsFrom_eq {t : Text} (h : .scalar '\r' ∉ t) (done : Text) :
    normalizeLineEndsFrom done t = done.reverse ++ t := by
  induction t generalizing done with
  | nil => rw [normalizeLineEndsFrom, List.append_nil]
  | cons c cs ih =>
    obtain ⟨hc, hcs⟩ := not_or.1 (mt List.mem_cons.2 h)
    rw [normalizeLineEndsFrom, if_neg (Ne.symm hc), ih hcs, List.reverse_cons, List.append_assoc,
      List.singleton_append]
    rintro rest rfl
    exact fun _ => hc rfl

/-- The line ends of a text without carriage returns are normal. -/
theorem normalizeLineEnds_eq {t : Text} (h : .scalar '\r' ∉ t) : normalizeLineEnds t = t :=
  normalizeLineEndsFrom_eq h []

namespace Text

theorem mem_joinWith {sep : Text} {pieces : List Text} {c : CodePoint}
    (h : c ∈ joinWith sep pieces) : c ∈ sep ∨ ∃ piece ∈ pieces, c ∈ piece := by
  induction pieces with
  | nil => simp [joinWith] at h
  | cons piece rest ih =>
    cases rest with
    | nil => exact Or.inr ⟨piece, List.mem_cons_self, h⟩
    | cons next rest =>
      rw [joinWith, List.mem_append, List.mem_append] at h
      rcases h with (hpiece | hsep) | hrest
      · exact Or.inr ⟨piece, List.mem_cons_self, hpiece⟩
      · exact Or.inl hsep
      · rcases ih hrest with hsep | ⟨other, hother, hc⟩
        · exact Or.inl hsep
        · exact Or.inr ⟨other, List.mem_cons_of_mem _ hother, hc⟩

end Text

/-! ## Carriage returns -/

/-- What is written for a code point holds no carriage return. -/
theorem Json.not_mem_escape (c : CodePoint) : .scalar '\r' ∉ Json.escape c := by
  have hcontrol : ∀ n < 0x20, .scalar '\r' ∉ Text.ofString "\\u00" ++ Json.twoHex n := by decide
  unfold Json.escape
  split
  case h_8 hreturn _ _ _ =>
    split
    · next hlt => exact hcontrol _ hlt
    · intro h
      obtain rfl := List.mem_singleton.1 h
      exact hreturn rfl
  all_goals decide

namespace Skeleton

theorem not_mem_member (key : Text) : .scalar '\r' ∉ member key := by
  intro h
  rw [member, List.mem_append, List.mem_append] at h
  rcases h with (hindent | hkey) | hvalue
  · exact absurd hindent (by decide)
  · rw [Json.quote, List.cons_append, List.mem_cons, List.mem_append, List.mem_singleton] at hkey
    rcases hkey with hopen | hescaped | hclose
    · exact absurd hopen (by decide)
    · obtain ⟨c, -, hc⟩ := List.mem_flatMap.1 hescaped
      exact Json.not_mem_escape c hc
    · exact absurd hclose (by decide)
  · exact absurd hvalue (by decide)

/-- **A skeleton holds no carriage return.** -/
theorem not_mem_build {t s : Text} (h : build t = .ok s) : .scalar '\r' ∉ s := by
  rw [eq_ofKeys_of_build h, ofKeys]
  split
  · decide
  · rw [List.mem_append, List.mem_append]
    rintro ((hopen | hlines) | hclose)
    · exact absurd hopen (by decide)
    · rcases Text.mem_joinWith hlines with hsep | ⟨line, hline, hc⟩
      · exact absurd hsep (by decide)
      · obtain ⟨key, -, rfl⟩ := List.mem_map.1 hline
        exact not_mem_member key hc
    · exact absurd hclose (by decide)

end Skeleton

namespace Session

variable {V E : Type} [Host V E] [Host.Orderly V E] {s s' : Session V E} {target : Path}
  {overwrite : Bool} {reply : Reply}

/-! ## The change of the document -/

theorem disk_updateDocument (path text : Text) (s : Session V E) :
    (s.updateDocument Session.emit path text).disk = s.disk :=
  (updates_edit_emit (.updateDocument path text) s).disk

theorem document?_updateDocument (hquiet : s.budget = 0) (path text q : Text) :
    (s.updateDocument Session.emit path text).document? q
      = (s.document? q).map fun d => if q = path then d.setText text else d := by
  unfold updateDocument
  cases hd : s.document? path with
  | none =>
    by_cases hq : q = path
    · rw [hq, hd]
      rfl
    · simp [hq]
  | some d =>
    have hpath : (d.setText text).path = path :=
      (d.path_setText text).trans (path_of_document? hd)
    have hset : (s.setDocument (d.setText text)).document? q
        = (s.document? q).map fun old => if q = path then old.setText text else old := by
      rw [document?_setDocument, hpath]
      by_cases hq : q = path
      · rw [hq, hd]
        simp
      · simp [hq]
    dsimp only
    split
    · next hsame =>
      have hunchanged : d.setText text = d := if_pos hsame.symm
      by_cases hq : q = path
      · rw [hq, hd]
        simp [hunchanged]
      · simp [hq]
    · have hchanged : Event.changed path = .opened path ∨ Event.changed path = .changed path :=
        Or.inr rfl
      have hposts := posts_emit (s := s.setDocument (d.setText text)) hchanged hquiet rfl
      rw [hposts.2.document? q, hset]

/-! ## Commands that succeed -/

/--
**A command that succeeds has written the skeleton to the target, and nothing else.** When the
surroundings make no edits of their own, the document at the target has the skeleton for its text, if
it is open, and the other documents are as they were. A target that exists is not replaced unasked:
then nothing is changed.
-/
theorem newLanguageFile_successful (target : Path) (overwrite : Bool) (s : Session V E) :
    (∀ s' reply, s.newLanguageFile Session.emit target overwrite = .ok (s', reply) →
      reply.ok = true →
      ∃ source content bytes place,
        s.activeDocument? = some source ∧ Skeleton.build source.text = .ok content ∧
        Utf8.encode content = .ok bytes ∧ s.disk.openPlace target = .ok place ∧
        s'.disk.node? place = some (.file bytes) ∧
        (∀ l, l ≠ place → s'.disk.node? l = s.disk.node? l) ∧
        (s.budget = 0 →
          s'.document? target.toText = (s.document? target.toText).map (·.setText content) ∧
          (∀ d, s'.document? target.toText = some d → d.text = content) ∧
          ∀ path, path ≠ target.toText → s'.document? path = s.document? path)) ∧
    (s.disk.exists? target = .ok true → overwrite = false →
      ∃ reply, s.newLanguageFile Session.emit target overwrite = .ok (s, reply) ∧
        reply.ok = false) := by
  have hmaking := making_newLanguageFile Session.emit target overwrite s
  refine ⟨fun s' reply h hok => ?_, fun hthere hnot => ?_⟩
  · rw [h] at hmaking
    cases hmaking with
    | @made source content place bytes hsource _ hbuild hplace hbytes hwhole =>
      rw [normalizeLineEnds_eq (Skeleton.not_mem_build hbuild)]
      have hdisk := disk_updateDocument target.toText content
        { s with disk := s.disk.put place (.file bytes) }
      refine ⟨source, content, bytes, place, hsource, hbuild, hbytes, hplace, ?_, fun l hl => ?_,
        fun hquiet => ?_⟩
      · rw [hdisk]
        exact Disk.node?_put_self _ _ (Disk.isEmpty_names_of_openPlace hplace)
      · rw [hdisk]
        exact Disk.node?_put_of_ne _ _ hl
      · have hdocument := document?_updateDocument
          (s := { s with disk := s.disk.put place (.file bytes) }) hquiet target.toText content
        have htarget : Session.document? (updateDocument Session.emit target.toText content
              { s with disk := s.disk.put place (.file bytes) }) target.toText
            = (s.document? target.toText).map (·.setText content) := by
          refine (hdocument _).trans ?_
          simp only [if_pos]
          rfl
        refine ⟨htarget, fun d hd => ?_, fun path hpath => (hdocument path).trans ?_⟩
        · obtain ⟨old, -, rfl⟩ := Option.map_eq_some_iff.1 (htarget.symm.trans hd)
          exact old.text_setText content
        · simp only [if_neg hpath, Option.map_id']
          rfl
    | _ => simp at hok
  · generalize s.newLanguageFile Session.emit target overwrite = result at hmaking ⊢
    cases hmaking with
    | noDocument => exact ⟨_, rfl, rfl⟩
    | taken => exact ⟨_, rfl, rfl⟩
    | unknown _ hfault =>
      rw [hthere] at hfault
      simp at hfault
    | tooDeep _ hmay | unparsed _ hmay | blocked _ hmay | unencodable _ hmay | brokenOff _ hmay
    | made _ hmay =>
      obtain ⟨there, hthere', hmay⟩ := hmay
      obtain rfl := Except.ok.inj (hthere.symm.trans hthere')
      rw [hmay rfl] at hnot
      exact Bool.noConfusion hnot

/-- The session in which `en_us.json` is edited while `ko_kr.json` is open, too. -/
def editingBoth : ObservedSession :=
  { editing koreanDisk "\x7b\"a\": \"A\"\x7d" with
    documents := [.new "en_us.json" "\x7b\"a\": \"A\"\x7d", .new "ko_kr.json" "\x7b\x7d"] }

theorem newLanguageFile_successful_open :
    (∃ s' reply place bytes content,
      editingBoth.newLanguageFile Session.emit (.ofText "ko_kr.json") true = .ok (s', reply) ∧
      reply.ok = true ∧ Utf8.encode content = .ok bytes ∧
      s'.disk.node? place = some (.file bytes) ∧
      s'.document? "ko_kr.json" = (editingBoth.document? "ko_kr.json").map (·.setText content) ∧
      ∃ d, s'.document? "ko_kr.json" = some d ∧ d.text = content) ∧
    ∃ reply, editingBoth.newLanguageFile Session.emit (.ofText "ko_kr.json") false
      = .ok (editingBoth, reply) ∧ reply.ok = false := by
  have hmade : ((editingBoth.newLanguageFile Session.emit (.ofText "ko_kr.json") true).toOption.map
      fun made => made.2.ok) = some true := by decide +kernel
  refine ⟨?_, ?_⟩
  · cases h : editingBoth.newLanguageFile Session.emit (.ofText "ko_kr.json") true with
    | error e =>
      rw [h] at hmade
      simp [Except.toOption] at hmade
    | ok made =>
      obtain ⟨s', reply⟩ := made
      rw [h] at hmade
      have hok : reply.ok = true := Option.some.inj hmade
      obtain ⟨source, content, bytes, place, -, -, hbytes, -, hfile, -, hdocuments⟩ :=
        (newLanguageFile_successful (.ofText "ko_kr.json") true editingBoth).1 s' reply h hok
      obtain ⟨hset, htext, -⟩ := hdocuments rfl
      have hopen : s'.document? "ko_kr.json"
          = some (Document.setText (.new "ko_kr.json" "\x7b\x7d") content) := hset
      exact ⟨s', reply, place, bytes, content, rfl, hok, hbytes, hfile, hset, _, hopen,
        htext _ hopen⟩
  · exact (newLanguageFile_successful (.ofText "ko_kr.json") false editingBoth).2
      (by decide +kernel) rfl

end Session

end LangFile

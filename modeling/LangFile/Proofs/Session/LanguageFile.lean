import LangFile.Proofs.Disk.Existence
import LangFile.Proofs.Disk.ReadBack
import LangFile.Session.Recorder

/-!
# Making a language file

The command fails or succeeds at one of its steps, and each step leaves the session as it was but
those behind the opening of the target: it is empty then if the skeleton has no encoding, holds the
beginning of the skeleton if the write breaks off, and is written otherwise, which changes the
documents too. What was written is always read back, so the command does not fail behind that.

1. The steps at which the command ends (`Making`), and that it ends at one of them
   (`making_newLanguageFile`).
2. What a command leaves behind that does not succeed (`newLanguageFile_unsuccessful`).
3. When the command has no reply (`newLanguageFile_reply`).
-/

namespace LangFile.Session

variable {V E : Type} [Host V E] {s s' : Session V E} {emit : Delivery V E} {target : Path}
  {overwrite : Bool} {reply : Reply}

/-! ## Writing the skeleton -/

section

variable {d : Disk} {source content : Text} {place : Location}

theorem saveAndReadSkeleton_unparsed {e : Json.Error} (hbuild : Skeleton.build source = .error e) :
    saveAndReadSkeleton d source target = (d, .error (.source e)) := by
  simp [saveAndReadSkeleton, Disk.saveSkeleton, hbuild]

theorem saveAndReadSkeleton_blocked {e : FileError} (hbuild : Skeleton.build source = .ok content)
    (hplace : d.openPlace target = .error e) :
    saveAndReadSkeleton d source target = (d, .error (.file e)) := by
  simp [saveAndReadSkeleton, Disk.saveSkeleton, hbuild, Disk.writeText_refused hplace]

theorem saveAndReadSkeleton_unencodable {e : Utf8.EncodeError}
    (hbuild : Skeleton.build source = .ok content) (hplace : d.openPlace target = .ok place)
    (he : Utf8.encode content = .error e) :
    saveAndReadSkeleton d source target
      = (d.put place (.file []), .error (.file (.encoding e))) := by
  simp [saveAndReadSkeleton, Disk.saveSkeleton, hbuild, Disk.writeText_unencodable hplace he]

theorem saveAndReadSkeleton_broken {bytes : List UInt8} {b : BrokenWrite}
    (hbuild : Skeleton.build source = .ok content) (hplace : d.openPlace target = .ok place)
    (hbytes : Utf8.encode content = .ok bytes) (hbroken : d.broken? place bytes = some b) :
    saveAndReadSkeleton d source target
      = (d.put place (.file (bytes.take b.stored)), .error (.file (.writing b.fault))) := by
  simp [saveAndReadSkeleton, Disk.saveSkeleton, hbuild, Disk.writeText_broken hplace hbytes hbroken]

theorem saveAndReadSkeleton_made {bytes : List UInt8}
    (hbuild : Skeleton.build source = .ok content) (hplace : d.openPlace target = .ok place)
    (hbytes : Utf8.encode content = .ok bytes) (hwhole : d.broken? place bytes = none) :
    saveAndReadSkeleton d source target
      = (d.put place (.file bytes), .ok (normalizeLineEnds content)) := by
  simp [saveAndReadSkeleton, Disk.saveSkeleton, hbuild, Disk.writeText_stored hplace hbytes hwhole,
    Disk.readText_put hplace hbytes]

end

/-! ## The steps of the command -/

/-- Nothing stands at the target, or it may be replaced. -/
def MayWrite (s : Session V E) (target : Path) (overwrite : Bool) : Prop :=
  ∃ there, s.disk.exists? target = .ok there ∧ (there = true → overwrite = true)

/-- What comes of making a language file, by the step at which it ends. -/
inductive Making (emit : Delivery V E) (target : Path) (overwrite : Bool) (s : Session V E) :
    Except SkeletonError (Session V E × Reply) → Prop
  | noDocument :
      s.activeDocument? = none →
      Making emit target overwrite s (.ok (s, ⟨false, "No active JSON file found.", none⟩))
  | unknown {source : Document} {fault : PathFault} :
      s.activeDocument? = some source → s.disk.exists? target = .error fault →
      Making emit target overwrite s (.error (.file (.path fault target.toText)))
  | taken {source : Document} :
      s.activeDocument? = some source → s.disk.exists? target = .ok true → overwrite = false →
      Making emit target overwrite s
        (.ok (s, ⟨false, target.name ++ " already exists.", some target⟩))
  | tooDeep {source : Document} {rest : Text} :
      s.activeDocument? = some source → s.MayWrite target overwrite →
      Skeleton.build source.text = .error (.malformed .nesting rest) →
      Making emit target overwrite s (.error (.source (.malformed .nesting rest)))
  | unparsed {source : Document} {e : Json.Error} :
      s.activeDocument? = some source → s.MayWrite target overwrite →
      Skeleton.build source.text = .error e → (∀ rest, e ≠ .malformed .nesting rest) →
      Making emit target overwrite s (.ok (s, ⟨false, "Error creating file.", none⟩))
  | blocked {source : Document} {content : Text} {e : FileError} :
      s.activeDocument? = some source → s.MayWrite target overwrite →
      Skeleton.build source.text = .ok content → s.disk.openPlace target = .error e →
      Making emit target overwrite s (.ok (s, ⟨false, "Error creating file.", none⟩))
  | unencodable {source : Document} {content : Text} {place : Location} {n : Fin 2048} :
      s.activeDocument? = some source → s.MayWrite target overwrite →
      Skeleton.build source.text = .ok content → s.disk.openPlace target = .ok place →
      .surrogate n ∈ content →
      Making emit target overwrite s
        (.ok ({ s with disk := s.disk.put place (.file []) },
          ⟨false, "Error creating file.", none⟩))
  | brokenOff {source : Document} {content : Text} {place : Location} {bytes : List UInt8}
      {b : BrokenWrite} :
      s.activeDocument? = some source → s.MayWrite target overwrite →
      Skeleton.build source.text = .ok content → s.disk.openPlace target = .ok place →
      Utf8.encode content = .ok bytes → s.disk.broken? place bytes = some b →
      Making emit target overwrite s
        (.ok ({ s with disk := s.disk.put place (.file (bytes.take b.stored)) },
          ⟨false, "Error creating file.", none⟩))
  | made {source : Document} {content : Text} {place : Location} {bytes : List UInt8} :
      s.activeDocument? = some source → s.MayWrite target overwrite →
      Skeleton.build source.text = .ok content → s.disk.openPlace target = .ok place →
      Utf8.encode content = .ok bytes → s.disk.broken? place bytes = none →
      Making emit target overwrite s
        (.ok ({ s with disk := s.disk.put place (.file bytes) }.updateDocument emit target.toText
            (normalizeLineEnds content),
          ⟨true, "Created " ++ target.name, some target⟩))

/-- **The command ends at one of its steps.** -/
theorem making_newLanguageFile (emit : Delivery V E) (target : Path) (overwrite : Bool)
    (s : Session V E) :
    Making emit target overwrite s (s.newLanguageFile emit target overwrite) := by
  unfold newLanguageFile
  cases hsource : s.activeDocument? with
  | none => exact .noDocument hsource
  | some source =>
    cases hthere : s.disk.exists? target with
    | error fault => exact .unknown hsource hthere
    | ok there =>
      dsimp only
      split
      · next htaken =>
        obtain ⟨rfl, hnot⟩ : there = true ∧ overwrite = false := by simpa using htaken
        exact .taken hsource hthere hnot
      · next hfree =>
        have hmay : s.MayWrite target overwrite := by
          refine ⟨there, hthere, fun ht => ?_⟩
          simpa [ht] using hfree
        cases hbuild : Skeleton.build source.text with
        | error e =>
          rw [saveAndReadSkeleton_unparsed hbuild]
          dsimp only
          split
          · next rest he =>
            obtain rfl := SkeletonError.source.inj (Except.error.inj he)
            exact .tooDeep hsource hmay hbuild
          · next hnot he =>
            obtain rfl := Except.error.inj he
            exact .unparsed hsource hmay hbuild fun rest hrest => hnot rest (by rw [hrest])
          · next he => simp at he
        | ok content =>
          cases hplace : s.disk.openPlace target with
          | error e =>
            rw [saveAndReadSkeleton_blocked hbuild hplace]
            exact .blocked hsource hmay hbuild hplace
          | ok place =>
            cases hbytes : Utf8.encode content with
            | error e =>
              obtain ⟨n, hn⟩ := Utf8.exists_surrogate_of_encode hbytes
              rw [saveAndReadSkeleton_unencodable hbuild hplace hbytes]
              exact .unencodable hsource hmay hbuild hplace hn
            | ok bytes =>
              cases hbroken : s.disk.broken? place bytes with
              | some b =>
                rw [saveAndReadSkeleton_broken hbuild hplace hbytes hbroken]
                exact .brokenOff hsource hmay hbuild hplace hbytes hbroken
              | none =>
                rw [saveAndReadSkeleton_made hbuild hplace hbytes hbroken]
                exact .made hsource hmay hbuild hplace hbytes hbroken

/-! ## Commands that do not succeed -/

/-- The target is opened at a place for the skeleton of the active document. -/
def OpensFor (s : Session V E) (target : Path) (overwrite : Bool) (content : Text)
    (place : Location) : Prop :=
  ∃ source, s.activeDocument? = some source ∧ s.MayWrite target overwrite ∧
    Skeleton.build source.text = .ok content ∧ s.disk.openPlace target = .ok place

/-- The target is opened, and thereby emptied, for a skeleton that has no encoding. -/
def Empties (s : Session V E) (target : Path) (overwrite : Bool) (place : Location) : Prop :=
  ∃ content n, s.OpensFor target overwrite content place ∧ .surrogate n ∈ content

/-- The target is opened for a skeleton, and the write breaks off behind the first of its bytes. -/
def BreaksOff (s : Session V E) (target : Path) (overwrite : Bool) (place : Location)
    (first : List UInt8) : Prop :=
  ∃ content bytes b, s.OpensFor target overwrite content place ∧ Utf8.encode content = .ok bytes ∧
    s.disk.broken? place bytes = some b ∧ first = bytes.take b.stored

section

variable {source : Document} {content content' : Text} {place place' : Location}

theorem OpensFor.eq (h : s.OpensFor target overwrite content place)
    (h' : s.OpensFor target overwrite content' place') : content = content' ∧ place = place' := by
  obtain ⟨source, hsource, -, hbuild, hplace⟩ := h
  obtain ⟨source', hsource', -, hbuild', hplace'⟩ := h'
  obtain rfl := Option.some.inj (hsource.symm.trans hsource')
  exact ⟨Except.ok.inj (hbuild.symm.trans hbuild'), Except.ok.inj (hplace.symm.trans hplace')⟩

theorem OpensFor.eq_of_empties (h : s.OpensFor target overwrite content place)
    (h' : s.Empties target overwrite place') : place = place' := by
  obtain ⟨content', -, hopens, -⟩ := h'
  exact (h.eq hopens).2

theorem OpensFor.eq_of_breaksOff {first : List UInt8}
    (h : s.OpensFor target overwrite content place)
    (h' : s.BreaksOff target overwrite place' first) : place = place' := by
  obtain ⟨content', -, -, hopens, -⟩ := h'
  exact (h.eq hopens).2

/-- A skeleton whose write breaks off has an encoding. -/
theorem BreaksOff.not_empties {first : List UInt8} (h : s.BreaksOff target overwrite place first) :
    ¬ s.Empties target overwrite place := by
  rintro ⟨content', n, hopens', hn⟩
  obtain ⟨content, bytes, b, hopens, hbytes, -, -⟩ := h
  obtain ⟨rfl, -⟩ := hopens.eq hopens'
  exact Utf8.not_mem_of_encode hbytes n hn

end

/--
**A command that does not succeed leaves the session as it was,** its documents, its findings and
all that stands on the disk, but for a target that was opened for a skeleton: that is a file without
content from then on if the skeleton has no encoding, and one with the first bytes of the skeleton if
the write broke off.
-/
theorem newLanguageFile_unsuccessful
    (h : s.newLanguageFile emit target overwrite = .ok (s', reply)) (hfail : reply.ok = false) :
    ∃ disk, s' = { s with disk } ∧ ∀ l,
      (s.Empties target overwrite l → disk.node? l = some (.file [])) ∧
      (∀ first, s.BreaksOff target overwrite l first → disk.node? l = some (.file first)) ∧
      (¬ s.Empties target overwrite l → (∀ first, ¬ s.BreaksOff target overwrite l first) →
        disk.node? l = s.disk.node? l) := by
  -- the steps before the target is opened leave nothing behind
  have hunchanged (hnot : ∀ content l, ¬ s.OpensFor target overwrite content l) :
      ∃ disk, s = { s with disk } ∧ ∀ l,
        (s.Empties target overwrite l → disk.node? l = some (.file [])) ∧
        (∀ first, s.BreaksOff target overwrite l first → disk.node? l = some (.file first)) ∧
        (¬ s.Empties target overwrite l → (∀ first, ¬ s.BreaksOff target overwrite l first) →
          disk.node? l = s.disk.node? l) := by
    refine ⟨s.disk, rfl, fun l => ⟨?_, ?_, fun _ _ => rfl⟩⟩
    · rintro ⟨content, -, hopens, -⟩
      exact absurd hopens (hnot content l)
    · rintro first ⟨content, -, -, hopens, -⟩
      exact absurd hopens (hnot content l)
  have hmaking := making_newLanguageFile emit target overwrite s
  rw [h] at hmaking
  cases hmaking with
  | noDocument hsource =>
    refine hunchanged fun content l => ?_
    rintro ⟨source, hsource', -⟩
    rw [hsource] at hsource'
    simp at hsource'
  | taken _ hthere hnot =>
    refine hunchanged fun content l => ?_
    rintro ⟨-, -, ⟨there, hthere', hmay⟩, -⟩
    obtain rfl := Except.ok.inj (hthere.symm.trans hthere')
    rw [hmay rfl] at hnot
    exact Bool.noConfusion hnot
  | unparsed hsource _ hbuild =>
    refine hunchanged fun content l => ?_
    rintro ⟨source', hsource', -, hbuild', -⟩
    obtain rfl := Option.some.inj (hsource.symm.trans hsource')
    rw [hbuild] at hbuild'
    simp at hbuild'
  | blocked _ _ _ hplace =>
    refine hunchanged fun content l => ?_
    rintro ⟨-, -, -, -, hplace'⟩
    rw [hplace] at hplace'
    simp at hplace'
  | @unencodable source content place n hsource hmay hbuild hplace hn =>
    have hopens : s.OpensFor target overwrite content place :=
      ⟨source, hsource, hmay, hbuild, hplace⟩
    have hempties : s.Empties target overwrite place := ⟨content, n, hopens, hn⟩
    refine ⟨s.disk.put place (.file []), rfl, fun l => ⟨?_, ?_, fun hnot _ => ?_⟩⟩
    · intro hl
      obtain rfl := hopens.eq_of_empties hl
      exact Disk.node?_put_self _ _ (Disk.isEmpty_names_of_openPlace hplace)
    · intro first hbreaks
      obtain rfl := hopens.eq_of_breaksOff hbreaks
      exact absurd hempties hbreaks.not_empties
    · exact Disk.node?_put_of_ne _ _ fun hl => hnot (hl ▸ hempties)
  | @brokenOff source content place bytes b hsource hmay hbuild hplace hbytes hbroken =>
    have hopens : s.OpensFor target overwrite content place :=
      ⟨source, hsource, hmay, hbuild, hplace⟩
    have hbreaks : s.BreaksOff target overwrite place (bytes.take b.stored) :=
      ⟨content, bytes, b, hopens, hbytes, hbroken, rfl⟩
    refine ⟨s.disk.put place (.file (bytes.take b.stored)), rfl, fun l => ⟨?_, ?_, fun _ hnot => ?_⟩⟩
    · intro hempties
      obtain rfl := hopens.eq_of_empties hempties
      exact absurd hempties hbreaks.not_empties
    · rintro first ⟨content', bytes', b', hopens', hbytes', hbroken', rfl⟩
      obtain ⟨rfl, rfl⟩ := hopens.eq hopens'
      obtain rfl := Except.ok.inj (hbytes.symm.trans hbytes')
      obtain rfl := Option.some.inj (hbroken.symm.trans hbroken')
      exact Disk.node?_put_self _ _ (Disk.isEmpty_names_of_openPlace hplace)
    · exact Disk.node?_put_of_ne _ _ fun hl => hnot _ (hl ▸ hbreaks)
  | made => simp at hfail

/-- The session in which `en_us.json` is edited, with a text. -/
def editing (disk : Disk) (text : Text) : ObservedSession where
  disk
  documents := [.new "en_us.json" text]
  views := [{ document := some "en_us.json" }]
  active := some 0
  outside := {}

/-- An object whose one key is a lone surrogate, which has no encoding. -/
def loneSurrogate : Text := "\x7b\"\\ud83d\": \"x\"\x7d"

/-- The disk on which `ko_kr.json` holds an object without members. -/
def koreanDisk : Disk where
  entries := [(⟨.above 0, ["ko_kr.json"]⟩, .file [0x7b, 0x7d])]

theorem newLanguageFile_unsuccessful_surrogate :
    ∃ s' reply disk,
      (editing koreanDisk loneSurrogate).newLanguageFile Session.emit (.ofText "ko_kr.json") true
        = .ok (s', reply) ∧ reply.ok = false ∧
      s' = { editing koreanDisk loneSurrogate with disk } ∧
      disk.node? ⟨.above 0, ["ko_kr.json"]⟩ = some (.file []) ∧
      ∀ l, l ≠ ⟨.above 0, ["ko_kr.json"]⟩ → disk.node? l = koreanDisk.node? l := by
  have h : (editing koreanDisk loneSurrogate).newLanguageFile Session.emit
        (.ofText "ko_kr.json") true
      = .ok ({ editing koreanDisk loneSurrogate with
          disk := koreanDisk.put ⟨.above 0, ["ko_kr.json"]⟩ (.file []) },
        ⟨false, "Error creating file.", none⟩) := rfl
  obtain ⟨disk, hs', hdisk⟩ := newLanguageFile_unsuccessful h rfl
  have hopens : (editing koreanDisk loneSurrogate).OpensFor (.ofText "ko_kr.json") true
      (Skeleton.ofKeys [[.surrogate 0x3d]]) ⟨.above 0, ["ko_kr.json"]⟩ :=
    ⟨.new "en_us.json" loneSurrogate, rfl, ⟨true, rfl, fun _ => rfl⟩, rfl, rfl⟩
  refine ⟨_, _, disk, rfl, rfl, hs', (hdisk _).1 ⟨_, 0x3d, hopens, by decide⟩,
    fun l hl => (hdisk l).2.2 (fun h => hl ?_) fun first h => hl ?_⟩
  · exact (hopens.eq_of_empties h).symm
  · exact (hopens.eq_of_breaksOff h).symm

/-- **A command that does not succeed may destroy its target.** -/
theorem unsuccessful_empties_target :
    ∃ s' reply,
      (editing koreanDisk loneSurrogate).newLanguageFile Session.emit (.ofText "ko_kr.json") true
        = .ok (s', reply) ∧ reply.ok = false ∧
      koreanDisk.node? ⟨.above 0, ["ko_kr.json"]⟩ = some (.file [0x7b, 0x7d]) ∧
      s'.disk.node? ⟨.above 0, ["ko_kr.json"]⟩ = some (.file []) :=
  ⟨_, _, rfl, rfl, rfl, rfl⟩

/-! ## Commands without a reply -/

theorem eq_nameTooLong_of_exists? {d : Disk} {p : Path} {fault : PathFault}
    (h : d.exists? p = .error fault) : fault = .nameTooLong :=
  (Disk.tooLong_of_exists? h).1

/--
**A command has no reply in two cases only,** and any reply has a message: the existence test fails,
because a name of the target or its path is too long, or the source is without entries and nested
too deep.
-/
theorem newLanguageFile_reply (emit : Delivery V E) (target : Path) (overwrite : Bool)
    (s : Session V E) :
    (∀ s' reply, s.newLanguageFile emit target overwrite = .ok (s', reply) → reply.message ≠ []) ∧
    ∀ e, s.newLanguageFile emit target overwrite = .error e ↔
      ∃ source, s.activeDocument? = some source ∧
        ((s.disk.exists? target = .error .nameTooLong ∧
            e = .file (.path .nameTooLong target.toText)) ∨
          ∃ rest, s.MayWrite target overwrite ∧
            Skeleton.build source.text = .error (.malformed .nesting rest) ∧
            e = .source (.malformed .nesting rest)) := by
  have hmaking := making_newLanguageFile emit target overwrite s
  refine ⟨fun s' reply h => ?_, fun e => ⟨fun h => ?_, ?_⟩⟩
  · rw [h] at hmaking
    cases hmaking <;> simp [Text.ofString]
  · rw [h] at hmaking
    cases hmaking with
    | unknown hsource hthere =>
      obtain rfl := eq_nameTooLong_of_exists? hthere
      exact ⟨_, hsource, Or.inl ⟨hthere, rfl⟩⟩
    | tooDeep hsource hmay hbuild => exact ⟨_, hsource, Or.inr ⟨_, hmay, hbuild, rfl⟩⟩
  · rintro ⟨source, hsource, ⟨hthere, rfl⟩ | ⟨rest, ⟨there, hthere, hmay⟩, hbuild, rfl⟩⟩
    · simp [newLanguageFile, hsource, hthere]
    · have hfree : (there && !overwrite) = false := by
        cases there with
        | false => rfl
        | true => simp [hmay rfl]
      simp [newLanguageFile, hsource, hthere, hfree, saveAndReadSkeleton_unparsed hbuild]

theorem exists?_of_long_name (d : Disk) {p : Path} {name : Text} {rest : List Text}
    (hparts : p.parts = name :: rest) (hlong : Disk.nameLimit < Utf8.byteLength name)
    (hname : Disk.isNameable p = true) : d.exists? p = .error .nameTooLong := by
  have hup : name ≠ ".." := by
    rintro rfl
    exact absurd hlong (by decide)
  have hresolve : d.resolve p = .error .nameTooLong := by
    unfold Disk.resolve
    split
    · rfl
    · rw [hparts, Disk.follow, if_neg hup, if_pos hlong]
  simp [Disk.exists?, Disk.lookup, hname, hresolve, Except.map]

/-- **A name that is one byte too long leaves the command without a reply.** -/
theorem no_reply_to_long_name :
    (editing {} "\x7b\"a\": \"A\"\x7d").newLanguageFile Session.emit
        (.ofText (List.replicate 256 (.scalar 'x'))) false
      = .error (.file (.path .nameTooLong (List.replicate 256 (.scalar 'x')))) := by
  have hpath : Path.ofText (List.replicate 256 (.scalar 'x'))
      = ⟨.relative, [List.replicate 256 (.scalar 'x')]⟩ := by
    decide +kernel
  have hthere : Disk.exists? {} ⟨.relative, [List.replicate 256 (.scalar 'x')]⟩
      = .error .nameTooLong :=
    exists?_of_long_name {} rfl (by decide +kernel) (by decide +kernel)
  have hsource : (editing {} "\x7b\"a\": \"A\"\x7d").activeDocument?
      = some (.new "en_us.json" "\x7b\"a\": \"A\"\x7d") := rfl
  rw [hpath, newLanguageFile, hsource]
  simp only [editing, hthere]
  rfl

end LangFile.Session

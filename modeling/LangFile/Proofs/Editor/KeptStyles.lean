import LangFile.Proofs.Editor.History

/-!
# Styles that are kept

The styles of a line are computed once and kept, by row. An edit marks all as stale, and drawing
drops stale ones; new overlays drop all at once. So the styles that are kept are at any time those
of the present text and overlays, or marked as stale, and no drawing can tell which are kept.

1. Styles that are kept are those of the present text (`IsCoherent`), whatever the editor is asked
   (`Arises.isCoherent`).
2. Two runs side by side (`Alongside`).
3. Drawing with some styles kept, beside drawing with others (`render_alongside`).
4. Drawing does not depend on what is kept (`render_forgetStyles`).
-/

namespace LangFile.Editor

variable {e e' e₁ e₂ : Editor} {k : KeyPress}

/-! ## The present text -/

/-- The styles that are kept are those of the present text and overlays. -/
def KeepsStyles (e : Editor) : Prop := ∀ p ∈ e.lineStyles, e.computeStyles p.1 = .ok p.2

/-- Styles that are kept are those of the present text, unless they are marked as stale. -/
def IsCoherent (e : Editor) : Prop := e.stale = false → e.KeepsStyles

theorem keepsStyles_of_nil (h : e.lineStyles = []) : e.KeepsStyles := by
  intro p hp
  rw [h] at hp
  exact absurd hp List.not_mem_nil

theorem computeStyles_congr (hlines : e'.buffer.lines = e.buffer.lines)
    (hdecorations : e'.decorations = e.decorations) (hmarks : e'.marks = e.marks) (row : Int) :
    e'.computeStyles row = e.computeStyles row := by
  unfold computeStyles Buffer.line
  rw [hlines, hdecorations, hmarks]

theorem IsCoherent.of_stale (h : e.stale = true) : e.IsCoherent := by
  intro hfresh
  rw [h] at hfresh
  exact absurd hfresh Bool.noConfusion

theorem IsCoherent.pressed (h : e.IsCoherent) (hpressed : Pressed k e e') : e'.IsCoherent := by
  cases hpressed with
  | passed buffer anchor status top hlines =>
    intro hfresh p hp
    have hsame : { e with buffer, anchor, status, top }.computeStyles p.1
        = e.computeStyles p.1 := by
      apply computeStyles_congr
      · exact hlines
      · rfl
      · rfl
    rw [hsame]
    exact h hfresh p hp
  | edited => exact .of_stale rfl
  | undone _ _ _ hundo => rw [undoEdit_of_cons hundo]; exact .of_stale rfl
  | redone _ _ _ hredo => rw [redoEdit_of_cons hredo]; exact .of_stale rfl

theorem keepsStyles_dropStaleStyles (h : e.IsCoherent) : e.dropStaleStyles.KeepsStyles := by
  unfold dropStaleStyles
  by_cases hstale : e.stale = true
  · rw [if_pos hstale]
    exact keepsStyles_of_nil rfl
  · rw [if_neg hstale]
    exact h (by simpa using hstale)

/-! ## Side by side -/

section

variable {α β α' β' : Type} {R : α → β → Prop} {S : α' → β' → Prop}

/-- Two runs that end alike: with the same fault, or with results in a relation. -/
inductive Alongside (R : α → β → Prop) : Except Fault α → Except Fault β → Prop
  | error (fault : Fault) : Alongside R (.error fault) (.error fault)
  | ok {a : α} {b : β} : R a b → Alongside R (.ok a) (.ok b)

namespace Alongside

theorem exists_ok {a : α} {y : Except Fault β} (h : Alongside R (.ok a) y) :
    ∃ b, y = .ok b ∧ R a b := by
  cases h with
  | ok hab => exact ⟨_, rfl, hab⟩

theorem symm {x : Except Fault α} {y : Except Fault β} (h : Alongside R x y) :
    Alongside (fun b a => R a b) y x := by
  cases h with
  | error fault => exact .error fault
  | ok hab => exact .ok hab

theorem trans {γ : Type} {T : β → γ → Prop} {x : Except Fault α} {y : Except Fault β}
    {z : Except Fault γ} (h : Alongside R x y) (h' : Alongside T y z) :
    Alongside (fun a c => ∃ b, R a b ∧ T b c) x z := by
  cases h with
  | error fault =>
    cases h'
    exact .error fault
  | ok hab =>
    cases h' with
    | ok hbc => exact .ok ⟨_, hab, hbc⟩

theorem mono {R' : α → β → Prop} {x : Except Fault α} {y : Except Fault β} (h : Alongside R x y)
    (himp : ∀ a b, R a b → R' a b) : Alongside R' x y := by
  cases h with
  | error fault => exact .error fault
  | ok hab => exact .ok (himp _ _ hab)

theorem refl (x : Except Fault α) : Alongside (· = ·) x x := by
  cases x with
  | error fault => exact .error fault
  | ok a => exact .ok rfl

theorem bind {x : Except Fault α} {y : Except Fault β} {f : α → Except Fault α'}
    {g : β → Except Fault β'} (h : Alongside R x y)
    (hnext : ∀ a b, R a b → Alongside S (f a) (g b)) : Alongside S (x >>= f) (y >>= g) := by
  cases h with
  | error fault => exact .error fault
  | ok hab => exact hnext _ _ hab

theorem map_eq {γ : Type} {x : Except Fault α} {y : Except Fault β} {f : α → γ} {g : β → γ}
    (h : Alongside R x y) (heq : ∀ a b, R a b → f a = g b) : x.map f = y.map g := by
  cases h with
  | error fault => rfl
  | ok hab => exact congrArg Except.ok (heq _ _ hab)

end Alongside

end

/-! ## Drawing with other styles kept -/

/-- The editor without the styles that it keeps. -/
def forgetStyles (e : Editor) : Editor := { e with lineStyles := [] }

/-- The editors differ at most in the rows of which they keep the styles. -/
structure Alike (e₁ e₂ : Editor) : Prop where
  same : e₁.forgetStyles = e₂.forgetStyles
  left : e₁.KeepsStyles
  right : e₂.KeepsStyles

theorem exists_of_forgetStyles_eq (h : e₁.forgetStyles = e₂.forgetStyles) :
    ∃ lineStyles, e₂ = { e₁ with lineStyles } :=
  ⟨e₂.lineStyles, (congrArg (fun e : Editor => { e with lineStyles := e₂.lineStyles }) h).symm⟩

/-- Whether they are kept or not, the styles of a row are those of the present text. -/
theorem stylesOf_alongside (hkeeps : e.KeepsStyles) (row : Int) :
    Alongside (fun r styles => e.forgetStyles = r.1.forgetStyles ∧ r.1.KeepsStyles ∧ r.2 = styles)
      (e.stylesOf row) (e.computeStyles row) := by
  unfold stylesOf
  cases hfound : e.lineStyles.find? fun p => p.1 = row with
  | some p =>
    have hrow : p.1 = row := by simpa using List.find?_some hfound
    rw [← hrow, hkeeps p (List.mem_of_find?_eq_some hfound)]
    exact .ok ⟨rfl, hkeeps, rfl⟩
  | none =>
    cases hcomputed : e.computeStyles row with
    | error fault => exact .error fault
    | ok styles =>
      refine .ok ⟨rfl, fun p hp => ?_, rfl⟩
      rcases List.mem_cons.1 hp with rfl | hp
      · exact hcomputed
      · exact hkeeps p hp

theorem computeStyles_of_stylesOf {row : Int} {styles : List Style} (hkeeps : e.KeepsStyles)
    (h : e.stylesOf row = .ok (e', styles)) :
    e.computeStyles row = .ok styles ∧
      ∃ lineStyles, e' = { e with lineStyles } ∧ e'.KeepsStyles := by
  obtain ⟨computed, hcomputed, hsame, hkept, rfl⟩ := (h ▸ stylesOf_alongside hkeeps row).exists_ok
  obtain ⟨lineStyles, heq⟩ := exists_of_forgetStyles_eq hsame
  exact ⟨hcomputed, lineStyles, heq, hkept⟩

theorem Alike.stylesOf (h : Alike e₁ e₂) (row : Int) :
    Alongside (fun r r' => Alike r.1 r'.1 ∧ r.2 = r'.2) (e₁.stylesOf row) (e₂.stylesOf row) := by
  have hleft := stylesOf_alongside h.left row
  have hright := stylesOf_alongside h.right row
  obtain ⟨lineStyles, rfl⟩ := exists_of_forgetStyles_eq h.same
  have hsame : { e₁ with lineStyles }.computeStyles row = e₁.computeStyles row := by
    apply computeStyles_congr <;> rfl
  rw [hsame] at hright
  -- each side answers what is computed, and so both the same
  refine (hleft.trans hright.symm).mono fun r r' hrr' => ?_
  obtain ⟨styles, ⟨hleft, hkept, rfl⟩, hright, hkept', heq⟩ := hrr'
  exact ⟨⟨hleft.symm.trans (h.same.trans hright), hkept, hkept'⟩, heq.symm⟩

/-- **The lines are drawn alike,** whatever is kept of their styles. -/
theorem Alike.drawLines {avail lines row room : Nat} (h : Alike e₁ e₂) :
    Alongside (fun r r' => Alike r.1 r'.1 ∧ r.2 = r'.2)
      (drawLines avail lines row room e₁) (drawLines avail lines row room e₂) := by
  induction lines generalizing row room e₁ e₂ with
  | zero => exact .ok ⟨h, rfl⟩
  | succ lines ih =>
    unfold Editor.drawLines
    split
    · exact .ok ⟨h, rfl⟩
    · have hbuffer : e₁.buffer = e₂.buffer := congrArg (·.buffer) h.same
      rw [hbuffer]
      refine (Alongside.refl _).bind fun line _ hline => ?_
      subst hline
      refine (h.stylesOf row).bind fun r r' hstyled => ?_
      obtain ⟨styled, styles⟩ := r
      obtain ⟨styled', styles'⟩ := r'
      obtain ⟨hstyled, hstyles⟩ := hstyled
      dsimp only at hstyled hstyles
      subst hstyles
      -- nothing of a row but its styles is read from what is kept
      obtain ⟨lineStyles, heq⟩ := exists_of_forgetStyles_eq hstyled.same
      subst heq
      refine (Alongside.refl (styled.withSelection row styles)).bind fun selected _ hselected => ?_
      subst hselected
      refine (ih hstyled).bind fun r r' hdrawn => ?_
      obtain ⟨hdrawn, hrows⟩ := hdrawn
      exact .ok ⟨hdrawn, congrArg ((styled.lineRows avail row line selected).take room ++ ·) hrows⟩

theorem forgetStyles_dropStaleStyles (e : Editor) :
    e.dropStaleStyles.forgetStyles = { e.forgetStyles with stale := false } := by
  unfold dropStaleStyles
  by_cases hstale : e.stale = true
  · rw [if_pos hstale]
    rfl
  · have hfresh : e.stale = false := by simpa using hstale
    rw [if_neg hstale, ← hfresh]
    rfl

/-- **Drawing gives the same,** and leaves the same editor, whatever styles are kept. -/
theorem render_alongside (hsame : e₁.forgetStyles = e₂.forgetStyles) (h₁ : e₁.IsCoherent)
    (h₂ : e₂.IsCoherent) :
    Alongside (fun r r' => r.1.forgetStyles = r'.1.forgetStyles ∧ r.1.IsCoherent ∧ r.2 = r'.2)
      e₁.render e₂.render := by
  have hfresh : Alike e₁.dropStaleStyles e₂.dropStaleStyles :=
    ⟨by rw [forgetStyles_dropStaleStyles, forgetStyles_dropStaleStyles, hsame],
      keepsStyles_dropStaleStyles h₁, keepsStyles_dropStaleStyles h₂⟩
  have hheight : e₁.height = e₂.height := congrArg (·.height) hsame
  have hwidth : e₁.width = e₂.width := congrArg (·.width) hsame
  unfold Editor.render
  rw [hheight, hwidth]
  split
  · exact .ok ⟨hsame, h₁, rfl⟩
  · generalize e₁.dropStaleStyles = fresh₁ at hfresh
    generalize e₂.dropStaleStyles = fresh₂ at hfresh
    obtain ⟨lineStyles, rfl⟩ := exists_of_forgetStyles_eq hfresh.same
    let top := min fresh₁.top fresh₁.buffer.lastRow
    have htop : Alike { fresh₁ with top } { fresh₁ with top, lineStyles } :=
      ⟨rfl, hfresh.left, hfresh.right⟩
    refine htop.drawLines.bind fun r r' hdrawn => ?_
    obtain ⟨drawn, rows⟩ := r
    obtain ⟨drawn', rows'⟩ := r'
    obtain ⟨hdrawn, hrows⟩ := hdrawn
    dsimp only at hdrawn hrows
    subst hrows
    obtain ⟨lineStyles', heq⟩ := exists_of_forgetStyles_eq hdrawn.same
    subst heq
    exact .ok ⟨rfl, fun _ => hdrawn.left, rfl⟩

theorem IsCoherent.rendered (h : e.IsCoherent) {drawn : RichText}
    (hdrawn : e.render = .ok (e', drawn)) : e'.IsCoherent := by
  obtain ⟨_, -, -, hcoherent, -⟩ := (hdrawn ▸ render_alongside rfl h h).exists_ok
  exact hcoherent

/-! ## All states -/

/-- The states that arise, whatever an editor is asked: as in `Reachable`, but any key is pressed,
and columns are replaced at any place and by any text. -/
inductive Arises : Editor → Prop
  | new (t : Text) (document : Option Text) (column : Int) (readOnly focused : Bool)
    (width height : Nat) :
    Arises { ofText t with document, column, readOnly, width, height, focused }
  | pressKey {e e' : Editor} {messages : List EditorMessage} (k : KeyPress) :
    Arises e → e.pressKey k = .ok (e', messages) → Arises e'
  | replaceColumns {e e' : Editor} (row start stop : Int) (t : Text) :
    Arises e → e.replaceColumns row start stop t = .ok e' → Arises e'
  | loadText {e : Editor} (t : Text) : Arises e → Arises (e.loadText t)
  | scrollTo {e : Editor} (line : Int) : Arises e → Arises (e.scrollTo line).1
  | scrollBy {e : Editor} (delta : Int) : Arises e → Arises (e.scrollBy delta).1
  | showDecorations {e : Editor} (spans : StyledSpans) : Arises e → Arises (e.showDecorations spans)
  | setFindings {e : Editor} (findings : List Finding) : Arises e → Arises (e.setFindings findings)
  | resize {e : Editor} (width height : Nat) (focused : Bool) :
    Arises e → Arises { e with width, height, focused }
  | render {e e' : Editor} {drawn : RichText} :
    Arises e → e.render = .ok (e', drawn) → Arises e'

theorem Reachable.arises (h : e.Reachable) : e.Arises := by
  induction h with
  | new t document column readOnly focused width height => exact .new ..
  | pressKey name produced _ hpress ih => exact ih.pressKey _ hpress
  | replaceColumns _ _ _ _ hreplaced ih => exact ih.replaceColumns _ _ _ _ hreplaced
  | loadText t _ ih => exact ih.loadText t
  | scrollTo line _ ih => exact ih.scrollTo line
  | scrollBy delta _ ih => exact ih.scrollBy delta
  | showDecorations spans _ ih => exact ih.showDecorations spans
  | setFindings findings _ ih => exact ih.setFindings findings
  | resize width height focused _ ih => exact ih.resize width height focused
  | render _ hdrawn ih => exact ih.render hdrawn

/-- **In every state the styles that are kept are those of the present text.** -/
theorem Arises.isCoherent (h : e.Arises) : e.IsCoherent := by
  induction h with
  | new t document column readOnly focused width height => exact fun _ => keepsStyles_of_nil rfl
  | pressKey k _ hpress ih => exact ih.pressed (pressed_of_pressKey hpress)
  | replaceColumns row start stop t _ hreplaced ih =>
    unfold Editor.replaceColumns at hreplaced
    split at hreplaced
    · obtain rfl := Except.ok.inj hreplaced
      exact ih
    · obtain ⟨buffer, -, rfl⟩ := exists_of_map hreplaced
      exact .of_stale rfl
  | loadText t _ _ => exact .of_stale rfl
  | scrollTo line _ ih =>
    unfold Editor.scrollTo
    dsimp only
    split <;> exact ih
  | scrollBy delta _ ih =>
    unfold Editor.scrollBy Editor.scrollTo
    dsimp only
    split <;> exact ih
  | showDecorations spans _ _ | setFindings findings _ _ => exact fun _ => keepsStyles_of_nil rfl
  | resize width height focused _ ih => exact ih
  | render _ hdrawn ih => exact ih.rendered hdrawn

theorem Reachable.isCoherent (h : e.Reachable) : e.IsCoherent := h.arises.isCoherent

/--
**No drawing depends on what is kept of earlier ones.** In every state that arises the editor gives
the same picture, or the same fault, as without the styles that it keeps, and is the same afterwards
but for these.
-/
theorem render_forgetStyles (h : e.Arises) :
    e.forgetStyles.render.map (fun r => (r.1.forgetStyles, r.2))
      = e.render.map fun r => (r.1.forgetStyles, r.2) := by
  have hsame : e.forgetStyles.forgetStyles = e.forgetStyles := rfl
  have hforgot : e.forgetStyles.IsCoherent := fun _ => keepsStyles_of_nil rfl
  refine (render_alongside hsame hforgot h.isCoherent).map_eq fun r r' hsame => ?_
  obtain ⟨heditor, -, hpicture⟩ := hsame
  exact Prod.ext heditor hpicture

/-- A line is drawn, and broken. What is kept of its styles is no longer that of the text. -/
theorem render_forgetStyles_broken :
    let e : Editor := { ofText "ab\nc" with width := 20, height := 4 }
    ∃ drawn picture broken messages, e.render = .ok (drawn, picture) ∧
      drawn.pressKey (.ofName "enter" none) = .ok (broken, messages) ∧
      ¬broken.KeepsStyles ∧
      broken.forgetStyles.render.map (fun r => (r.1.forgetStyles, r.2))
        = broken.render.map fun r => (r.1.forgetStyles, r.2) := by
  intro e
  have hrun : (do
      let r ← e.render
      let r' ← r.1.pressKey (.ofName "enter" none)
      return decide (∀ p ∈ r'.1.lineStyles, r'.1.computeStyles p.1 = Except.ok p.2))
      = .ok false := by
    decide +kernel
  obtain ⟨⟨drawn, picture⟩, hdrawn, hrun⟩ := exists_of_bind hrun
  obtain ⟨⟨broken, messages⟩, hbroken, hrun⟩ := exists_of_bind hrun
  have hkeeps := of_decide_eq_false (Except.ok.inj hrun)
  have harises : broken.Arises :=
    ((Arises.new "ab\nc" none 0 false false 20 4).render hdrawn).pressKey _ hbroken
  exact ⟨drawn, picture, broken, messages, hdrawn, hbroken, hkeeps, render_forgetStyles harises⟩

end LangFile.Editor

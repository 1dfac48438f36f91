import LangFile.Preview.Page

/-!
# Reading markup

Markup is read piece by piece: a tag reaches from an angle bracket to the next one, and everything
else is characters. A text that was escaped is characters only, and they stand for the text when
their entities are replaced, so no text is ever read as a tag or as another entity.

1. Pieces (`Markup.pieces`), and markup that is read as some pieces whatever follows it (`Reads`).
2. Entities (`Markup.replaceEntities`), which undo `Preview.escapeMarkup`.
-/

namespace LangFile.Markup

/-! ## Pieces -/

/-- A piece of markup: a tag, by what stands between its angle brackets, or a character. -/
inductive Piece
  | tag (inside : Text)
  | character (c : CodePoint)
deriving DecidableEq

/-- The markup of a piece. -/
def Piece.markup : Piece → Text
  | tag inside => .scalar '<' :: inside ++ [.scalar '>']
  | character c => [c]

/-- Reads markup, of which `inside` was read of a tag that is still open, last character first.
There is no reading when an angle bracket belongs to no tag. -/
def piecesFrom (inside : Option Text) : Text → Option (List Piece)
  | [] => if inside = none then some [] else none
  | c :: t =>
    match inside with
    | none =>
      if c = .scalar '<' then piecesFrom (some []) t
      else if c = .scalar '>' then none
      else (piecesFrom none t).map (.character c :: ·)
    | some done =>
      if c = .scalar '>' then (piecesFrom none t).map (.tag done.reverse :: ·)
      else if c = .scalar '<' then none
      else piecesFrom (some (c :: done)) t

/-- The pieces of markup. -/
def pieces (t : Text) : Option (List Piece) := piecesFrom none t

/-- The text without its tags. -/
def characters (ps : List Piece) : Text :=
  ps.filterMap fun
    | .tag _ => none
    | .character c => some c

theorem eq_flatMap_of_piecesFrom {inside : Option Text} {t : Text} {ps : List Piece}
    (h : piecesFrom inside t = some ps) :
    (inside.elim [] fun done => .scalar '<' :: done.reverse) ++ t = ps.flatMap Piece.markup := by
  fun_induction piecesFrom inside t generalizing ps with
  | case1 =>
    obtain rfl := Option.some.inj h
    rfl
  | case2 => simp at h
  | case3 t ih => exact ih h
  | case4 => simp at h
  | case5 c t _ _ ih =>
    obtain ⟨qs, hqs, rfl⟩ := Option.map_eq_some_iff.1 h
    rw [List.flatMap_cons, ← ih hqs]
    rfl
  | case6 t done ih =>
    obtain ⟨qs, hqs, rfl⟩ := Option.map_eq_some_iff.1 h
    rw [List.flatMap_cons, ← ih hqs]
    simp [Piece.markup]
  | case7 => simp at h
  | case8 c t done _ _ ih =>
    rw [← ih h]
    simp

/-- **Markup is its pieces,** one behind the other. -/
theorem eq_flatMap_of_pieces {t : Text} {ps : List Piece} (h : pieces t = some ps) :
    t = ps.flatMap Piece.markup :=
  eq_flatMap_of_piecesFrom h

/-- No angle bracket is in the text. -/
def BracketFree (t : Text) : Prop := ∀ c ∈ t, c ≠ .scalar '<' ∧ c ≠ .scalar '>'

instance (t : Text) : Decidable (BracketFree t) :=
  inferInstanceAs (Decidable (∀ c ∈ t, c ≠ .scalar '<' ∧ c ≠ .scalar '>'))

/-- The markup is read as these pieces, whatever follows it. -/
def Reads (t : Text) (ps : List Piece) : Prop :=
  ∀ rest, piecesFrom none (t ++ rest) = (piecesFrom none rest).map (ps ++ ·)

theorem Reads.pieces_eq {t : Text} {ps : List Piece} (h : Reads t ps) : pieces t = some ps := by
  have hall := h []
  rw [List.append_nil] at hall
  simpa [pieces, piecesFrom] using hall

theorem reads_nil : Reads [] [] := by
  intro rest
  simp

theorem Reads.append {t u : Text} {ps qs : List Piece} (ht : Reads t ps) (hu : Reads u qs) :
    Reads (t ++ u) (ps ++ qs) := by
  intro rest
  rw [List.append_assoc, ht, hu, Option.map_map]
  simp [Function.comp_def]

theorem Reads.flatMap {α : Type} {f : α → Text} {g : α → List Piece} {l : List α}
    (h : ∀ a ∈ l, Reads (f a) (g a)) : Reads (l.flatMap f) (l.flatMap g) := by
  induction l with
  | nil => exact reads_nil
  | cons a l ih =>
    obtain ⟨ha, hl⟩ := List.forall_mem_cons.1 h
    exact ha.append (ih hl)

theorem reads_characters {t : Text} (h : BracketFree t) : Reads t (t.map .character) := by
  intro rest
  induction t with
  | nil => simp
  | cons c t ih =>
    obtain ⟨⟨hopen, hclose⟩, ht⟩ := List.forall_mem_cons.1 h
    rw [List.cons_append, piecesFrom]
    simp only [if_neg hopen, if_neg hclose]
    rw [ih ht, Option.map_map]
    rfl

theorem piecesFrom_tag {inside : Text} (h : BracketFree inside) (done rest : Text) :
    piecesFrom (some done) (inside ++ .scalar '>' :: rest)
      = (piecesFrom none rest).map (.tag (done.reverse ++ inside) :: ·) := by
  induction inside generalizing done with
  | nil => simp [piecesFrom]
  | cons c inside ih =>
    obtain ⟨⟨hopen, hclose⟩, hinside⟩ := List.forall_mem_cons.1 h
    rw [List.cons_append, piecesFrom]
    simp only [if_neg hopen, if_neg hclose]
    rw [ih hinside, List.reverse_cons, List.append_assoc, List.singleton_append]

/-- **A tag is read as such.** -/
theorem reads_tag {inside : Text} (h : BracketFree inside) :
    Reads (.scalar '<' :: inside ++ [.scalar '>']) [.tag inside] := by
  intro rest
  rw [List.append_assoc, List.cons_append, piecesFrom]
  simp only [if_true, List.singleton_append]
  rw [piecesFrom_tag h]
  rfl

theorem characters_append (ps qs : List Piece) :
    characters (ps ++ qs) = characters ps ++ characters qs := List.filterMap_append

theorem characters_map (t : Text) : characters (t.map .character) = t := by
  rw [characters, List.filterMap_map]
  exact List.filterMap_some

/-! ## Entities -/

/-- The text with the entities of angle brackets and of the ampersand replaced by these. -/
def replaceEntities : Text → Text
  | .scalar '&' :: .scalar 'l' :: .scalar 't' :: .scalar ';' :: t =>
    .scalar '<' :: replaceEntities t
  | .scalar '&' :: .scalar 'g' :: .scalar 't' :: .scalar ';' :: t =>
    .scalar '>' :: replaceEntities t
  | .scalar '&' :: .scalar 'a' :: .scalar 'm' :: .scalar 'p' :: .scalar ';' :: t =>
    .scalar '&' :: replaceEntities t
  | c :: t => c :: replaceEntities t
  | [] => []

/-- A character as it is escaped. -/
def entity (c : CodePoint) : Text :=
  if c = .scalar '&' then "&amp;"
  else if c = .scalar '<' then "&lt;"
  else if c = .scalar '>' then "&gt;"
  else [c]

/-- **The three passes of the escape do not meet:** each character is escaped by itself. -/
theorem escapeMarkup_eq_flatMap (t : Text) : Preview.escapeMarkup t = t.flatMap entity := by
  rw [Preview.escapeMarkup, Text.replaceAll, Text.replaceAll, Text.replaceAll, List.flatMap_assoc,
    List.flatMap_assoc]
  congr 1
  funext c
  unfold entity
  split
  · next hc =>
    subst hc
    decide
  · next hamp =>
    split
    · next hc =>
      subst hc
      decide
    · next hlt =>
      split
      · next hc =>
        subst hc
        decide
      · next hgt => simp [hlt, hgt]

theorem escapeMarkup_flatMap {α : Type} (f : α → Text) (l : List α) :
    Preview.escapeMarkup (l.flatMap f) = l.flatMap fun a => Preview.escapeMarkup (f a) := by
  simp only [escapeMarkup_eq_flatMap, List.flatMap_assoc]

theorem bracketFree_escapeMarkup (t : Text) : BracketFree (Preview.escapeMarkup t) := by
  rw [escapeMarkup_eq_flatMap]
  intro c hc
  obtain ⟨d, -, hd⟩ := List.mem_flatMap.1 hc
  unfold entity at hd
  split at hd
  · exact (show BracketFree "&amp;" by decide) c hd
  · split at hd
    · exact (show BracketFree "&lt;" by decide) c hd
    · next hlt =>
      split at hd
      · exact (show BracketFree "&gt;" by decide) c hd
      · next hgt =>
        obtain rfl := List.mem_singleton.1 hd
        exact ⟨hlt, hgt⟩

theorem replaceEntities_cons {c : CodePoint} (hc : c ≠ .scalar '&') (t : Text) :
    replaceEntities (c :: t) = c :: replaceEntities t := by
  rw [replaceEntities]
  all_goals
    intro _ hamp
    exact absurd hamp hc

theorem replaceEntities_entity (c : CodePoint) (t : Text) :
    replaceEntities (entity c ++ t) = c :: replaceEntities t := by
  unfold entity
  split
  · next hc =>
    subst hc
    rfl
  · next hamp =>
    split
    · next hc =>
      subst hc
      rfl
    · split
      · next hc =>
        subst hc
        rfl
      · exact replaceEntities_cons hamp t

/-- **Replacing the entities undoes the escape.** -/
theorem replaceEntities_escapeMarkup (t : Text) :
    replaceEntities (Preview.escapeMarkup t) = t := by
  rw [escapeMarkup_eq_flatMap]
  induction t with
  | nil => rfl
  | cons c t ih => rw [List.flatMap_cons, replaceEntities_entity, ih]

end LangFile.Markup

import LangFile.Decoration
import LangFile.Proofs.Format.Visible
import LangFile.Proofs.Json.Literals
import LangFile.Proofs.Text.Leftmost

/-!
# The search for marked literals

The search takes a literal only when it holds a section sign. From the opening quotation mark of any
other literal it goes on inside of it, so it tries every quotation mark there, escaped ones and the
closing one among them. In a JSON text none of these begins a match: what is read from an escaped
mark ends with the same literal, and what is read from a closing mark ends where the next literal
begins, and there is no section sign between two literals.

1. The bodies of JSON strings with a section sign (`Spells.hasBareMarker_iff`).
2. Literals without one (`noMatchIn_literal`) and with one (`markedLiteral_literal`).
3. The whole search (`LiteralsIn.matchesFrom`), and the runs that it leads to
   (`LiteralsIn.decoration_runs`).
-/

namespace LangFile

open Text Json Decoration

/-! ## Bare section signs -/

namespace Decoration

theorem hasBareMarker_cons {c : CodePoint} (hc : c ≠ .scalar '\\') (b : Text) :
    hasBareMarker (c :: b) = (decide (c = marker) || hasBareMarker b) := by
  rw [hasBareMarker]
  intro _ _ h
  exact absurd h hc

theorem hasBareMarker_pair (c : CodePoint) (b : Text) :
    hasBareMarker (.scalar '\\' :: c :: b) = hasBareMarker b := by
  rw [hasBareMarker]

theorem hasBareMarker_eq_false {b : Text} (h : marker ∉ b) : hasBareMarker b = false := by
  fun_induction hasBareMarker b with
  | case1 => rfl
  | case2 c rest ih => exact ih (List.not_mem_of_not_mem_cons (List.not_mem_of_not_mem_cons h))
  | case3 c rest _ ih =>
    rw [ih (List.not_mem_of_not_mem_cons h), Bool.or_false, decide_eq_false_iff_not]
    exact (List.ne_of_not_mem_cons h).symm

end Decoration

namespace Json

/-- Hexadecimal digits hold no section sign, and no backslash that could escape one. -/
theorem hasBareMarker_digits {ds : Text} {n : Nat} (h : unitValue? ds = some n) (b : Text) :
    hasBareMarker (ds ++ b) = hasBareMarker b ∧ marker ∉ ds := by
  obtain ⟨-, -, -, -, -, hds⟩ := unitValue?_eq_some h
  clear h
  induction ds with
  | nil => exact ⟨rfl, List.not_mem_nil⟩
  | cons c ds ih =>
    obtain ⟨hc, hds⟩ := List.forall_mem_cons.1 hds
    obtain ⟨hbare, hmem⟩ := ih hds
    have hbackslash : c ≠ .scalar '\\' := by
      rintro rfl
      exact hc (by decide)
    have hmarker : c ≠ marker := by
      rintro rfl
      exact hc (by decide)
    constructor
    · rw [List.cons_append, hasBareMarker_cons hbackslash, hbare, decide_eq_false hmarker,
        Bool.false_or]
    · rw [List.mem_cons, not_or]
      exact ⟨hmarker.symm, hmem⟩

/-- **In the body of a JSON string no section sign is escaped.** -/
theorem Spells.hasBareMarker_iff {raw s : Text} (h : Spells raw s) :
    hasBareMarker raw = true ↔ marker ∈ raw := by
  have hu : marker ≠ .scalar 'u' := by decide
  have hbackslash : marker ≠ .scalar '\\' := by decide
  induction h with
  | nil => simp [hasBareMarker]
  | plain _ hb _ _ ih =>
    simp only [hasBareMarker_cons hb, Bool.or_eq_true, decide_eq_true_eq, ih, List.mem_cons]
    exact or_congr eq_comm Iff.rfl
  | @simple c d raw s hd _ ih =>
    have hc : marker ≠ c := by
      rintro rfl
      have hnone : simpleEscape? marker = none := by decide
      rw [hnone] at hd
      simp at hd
    simp [hasBareMarker_pair, ih, hbackslash, hc]
  | unit hds _ _ ih =>
    obtain ⟨hbare, hmem⟩ := hasBareMarker_digits hds _
    rw [hasBareMarker_pair, hbare]
    simp [hu, hbackslash, hmem, ih]
  | @surrogates ds ds' n m raw s hds _ hds' _ _ ih =>
    obtain ⟨hbare, hmem⟩ := hasBareMarker_digits hds (.scalar '\\' :: .scalar 'u' :: (ds' ++ raw))
    obtain ⟨hbare', hmem'⟩ := hasBareMarker_digits hds' raw
    rw [hasBareMarker_pair, hbare, hasBareMarker_pair, hbare']
    simp [hu, hbackslash, hmem, hmem', ih]

end Json

/-! ## Literals at the start of a text -/

namespace Decoration

theorem markedLiteral_eq_none {t : Text}
    (h : ∀ b rest, quoted t = some (b, rest) → hasBareMarker b = false) :
    markedLiteral t = none := by
  unfold markedLiteral
  split
  · next b rest hread => rw [h b rest hread, if_neg Bool.false_ne_true]
  · rfl

theorem markedLiteral_cons {c : CodePoint} (hc : c ≠ .scalar '"') (t : Text) :
    markedLiteral (c :: t) = none := by
  have hnone : quoted (c :: t) = none :=
    quoted_eq_none_of_head fun _ h => hc (List.cons.inj h).1
  refine markedLiteral_eq_none fun b rest hread => ?_
  simp [hnone] at hread

/-- **A literal with a section sign is taken.** -/
theorem markedLiteral_literal {b : Text} (hb : IsBody b) (hm : hasBareMarker b = true)
    (rest : Text) : markedLiteral (literal b ++ rest) = some (b, (literal b).length) := by
  unfold markedLiteral
  rw [quoted_literal_append hb]
  dsimp only
  rw [if_pos hm, List.length_append, Nat.add_sub_cancel]

/-- A literal without a section sign is not taken. -/
theorem markedLiteral_unmarked {b : Text} (hb : IsBody b) (hm : marker ∉ b) (rest : Text) :
    markedLiteral (literal b ++ rest) = none := by
  refine markedLiteral_eq_none fun b' rest' hread => ?_
  rw [quoted_literal_append hb, Option.some.injEq, Prod.mk.injEq] at hread
  obtain ⟨rfl, -⟩ := hread
  exact hasBareMarker_eq_false hm

/-- What is read from outside of literals ends where the next one begins. -/
theorem hasBareMarker_of_quotedBody {pos : Nat} {t b rest : Text} {ls : List Literal}
    (h : LiteralsIn pos t ls) (hread : quotedBody t = some (b, rest)) :
    hasBareMarker b = false := by
  induction h generalizing b with
  | nil => simp [quotedBody] at hread
  | @outside pos c t ls hc _ ih =>
    obtain ⟨hquote, hbackslash, hmarker⟩ := hc
    rw [quotedBody_plain hquote hbackslash] at hread
    obtain ⟨⟨b', rest'⟩, hread', heq⟩ := Option.map_eq_some_iff.1 hread
    obtain ⟨rfl, rfl⟩ := Prod.mk.inj heq
    rw [hasBareMarker_cons hbackslash, ih hread', decide_eq_false hmarker, Bool.false_or]
  | item _ _ _ =>
    rw [literal_append, quotedBody, Option.some.injEq, Prod.mk.injEq] at hread
    obtain ⟨rfl, -⟩ := hread
    rfl

/-- **A closing mark opens no literal with a section sign.** -/
theorem markedLiteral_closing {pos : Nat} {t : Text} {ls : List Literal} (h : LiteralsIn pos t ls) :
    markedLiteral (.scalar '"' :: t) = none :=
  markedLiteral_eq_none fun _ _ hread => hasBareMarker_of_quotedBody h hread

/-- No match begins inside a body without a section sign. -/
theorem noMatchIn_body_of_unmarked {b : Text} (hb : IsBody b) (hm : marker ∉ b) (u : Text) :
    NoMatchIn markedLiteral b (.scalar '"' :: u) := by
  induction hb with
  | nil => exact noMatchIn_nil
  | plain hquote _ _ ih =>
    exact noMatchIn_cons (markedLiteral_cons hquote _) (ih (List.not_mem_of_not_mem_cons hm))
  | @escaped c b _ hb ih =>
    have hb' : marker ∉ b := List.not_mem_of_not_mem_cons (List.not_mem_of_not_mem_cons hm)
    refine noMatchIn_cons (markedLiteral_cons (by decide) _) (noMatchIn_cons ?_ (ih hb'))
    by_cases hc : c = .scalar '"'
    -- from an escaped mark the rest of the body is read
    · rw [hc, ← literal_append]
      exact markedLiteral_unmarked hb hb' u
    · exact markedLiteral_cons hc _

/-- **No match begins in a literal without a section sign.** -/
theorem noMatchIn_literal {pos : Nat} {b t : Text} {ls : List Literal} (hb : IsBody b)
    (hm : marker ∉ b) (ht : LiteralsIn pos t ls) : NoMatchIn markedLiteral (literal b) t := by
  have hclosing : NoMatchIn markedLiteral [.scalar '"'] t :=
    noMatchIn_cons (markedLiteral_closing ht) noMatchIn_nil
  refine noMatchIn_cons ?_ ((noMatchIn_body_of_unmarked hb hm t).append hclosing)
  have hopening := markedLiteral_unmarked hb hm t
  rwa [literal, List.cons_append] at hopening

end Decoration

/-! ## The search -/

/-- **The search finds the literals with a section sign,** and nothing else. -/
theorem Json.LiteralsIn.matchesFrom {pos : Nat} {t : Text} {ls : List Literal}
    (h : LiteralsIn pos t ls) :
    matchesFrom markedLiteral pos 0 t
      = (ls.filter fun l => marker ∈ l.body).map fun l => (l.start, l.body) := by
  induction h with
  | nil => rfl
  | @outside pos c t ls hc _ ih =>
    rw [Text.matchesFrom, markedLiteral_cons hc.1]
    exact ih
  | @item pos raw s t ls hs ht ih =>
    by_cases hm : marker ∈ raw
    · have hmatch := markedLiteral_literal hs.isBody (hs.hasBareMarker_iff.2 hm) t
      rw [matchesFrom_match hmatch (by rw [length_literal]; omega) (by simp [literal]),
        List.drop_left, ih, List.filter_cons_of_pos (by simpa using hm), List.map_cons]
    · rw [matchesFrom_gap (noMatchIn_literal hs.isBody hm ht), ih,
        List.filter_cons_of_neg (by simpa using hm)]

/-- **The styled runs of a text are those of its literals.** -/
theorem Json.LiteralsIn.decoration_runs {t : Text} {ls : List Literal} (h : LiteralsIn 0 t ls) :
    Decoration.runs t = ls.flatMap fun l => Run.runs l.body false (l.start + 1) := by
  rw [Decoration.runs, allMatches, h.matchesFrom, List.flatMap_map]
  clear h
  induction ls with
  | nil => rfl
  | cons l ls ih =>
    by_cases hm : marker ∈ l.body
    · rw [List.filter_cons_of_pos (by simpa using hm), List.flatMap_cons, List.flatMap_cons, ih]
    · rw [List.filter_cons_of_neg (by simpa using hm), ih, List.flatMap_cons, Run.runs,
        Run.runsFrom_eq_nil hm, List.nil_append]

end LangFile

import LangFile.Proofs.Decoration.Grouping
import LangFile.Proofs.Decoration.Search
import Mathlib.Data.List.Pairwise

/-!
# Decorating a JSON text

The styled spans of a JSON text are the styled characters of its literals, each literal read from
the default state at its opening quotation mark.

1. The runs of a text against its literals (`LiteralsIn.exists_run_iff`), and their order
   (`LiteralsIn.runs_pairwise`).
2. The spans of a text against its literals (`LiteralsIn.decorates`).
-/

namespace LangFile

open Text Json Decoration

/-! ## What a text is to be decorated with -/

/-- The span holds an offset. -/
def Span.Covers (a : Span) (o : Int) : Prop := a.start ≤ o ∧ o < a.stop

/-- The spans have no offset in common. -/
def Span.Disjoint (a b : Span) : Prop := ∀ o, ¬ (a.Covers o ∧ b.Covers o)

/-- A span listed under the style holds the offset. -/
def StyledSpans.Lists (spans : StyledSpans) (style : Style) (o : Int) : Prop :=
  ∃ list, (style, list) ∈ spans ∧ ∃ a ∈ list, a.Covers o

/-- A visible character of a literal stands at the offset, and the codes from the opening quotation
mark of the literal on lead to the state. -/
def Json.StateAt (ls : List Literal) (o : Int) (state : FormattingState) : Prop :=
  ∃ l ∈ ls, ∃ (i : Nat) (codes : List CodePoint), o = l.start + 1 + i ∧
    (places l.body)[i]? = some (.visible codes) ∧ Place.stateAfter codes = state

/-- The spans are the styled characters of the literals, by style. -/
structure Decorates (ls : List Literal) (spans : StyledSpans) : Prop where
  /-- A style lists the visible characters whose state is not the default one and has the style. -/
  listed : ∀ style o, spans.Lists style o ↔
    ∃ state, state ≠ .default ∧ StateAt ls o state ∧ style = .ofState state
  /-- The style of a state lists the characters in this state. States that codes lead to are
  canonical; any other state has the style of a canonical one. -/
  covers : ∀ state o, state.IsCanonical →
    (spans.Lists (.ofState state) o ↔ state ≠ .default ∧ StateAt ls o state)
  /-- No style comes twice. -/
  nodup : (spans.map Prod.fst).Nodup
  /-- No span is empty. -/
  bounds : ∀ e ∈ spans, ∀ a ∈ e.2, a.start < a.stop
  /-- The list of each style is increasing. -/
  increasing : ∀ e ∈ spans, e.2.Pairwise fun a b => a.stop < b.start
  /-- The spans of all styles are pairwise disjoint. -/
  disjoint : (spans.flatMap Prod.snd).Pairwise Span.Disjoint

theorem Json.StateAt.isCanonical {ls : List Literal} {o : Int} {state : FormattingState}
    (h : StateAt ls o state) : state.IsCanonical := by
  obtain ⟨_, -, _, codes, -, -, rfl⟩ := h
  exact Place.isCanonical_stateAfter codes

/-! ## Runs of literals -/

section

variable {t : Text} {ls : List Literal}

/-- A run in a state covers the characters of literals in this state. -/
theorem Json.LiteralsIn.exists_run_iff (h : LiteralsIn 0 t ls) {o : Int}
    {state : FormattingState} :
    (∃ r ∈ runs t, r.Covers o ∧ r.state = state) ↔ state ≠ .default ∧ StateAt ls o state := by
  rw [h.decoration_runs]
  simp only [List.mem_flatMap]
  constructor
  · rintro ⟨r, ⟨l, hl, hr⟩, hcovers⟩
    obtain ⟨hdefault, i, codes, ho, hplace, hstate⟩ := Run.exists_covers_iff.1 ⟨r, hr, hcovers⟩
    exact ⟨hdefault, l, hl, i, codes, ho, hplace, hstate⟩
  · rintro ⟨hdefault, l, hl, i, codes, ho, hplace, hstate⟩
    obtain ⟨r, hr, hcovers⟩ := Run.exists_covers_iff.2 ⟨hdefault, i, codes, ho, hplace, hstate⟩
    exact ⟨r, ⟨l, hl, hr⟩, hcovers⟩

theorem Json.LiteralsIn.runs_bounds (h : LiteralsIn 0 t ls) : ∀ r ∈ runs t, r.start < r.stop := by
  intro r hr
  rw [h.decoration_runs] at hr
  obtain ⟨l, -, hr⟩ := List.mem_flatMap.1 hr
  exact (Run.bounds_of_mem_runs hr).2.1

/-- **The runs are in order,** in each literal and from one literal to the next. -/
theorem Json.LiteralsIn.runs_pairwise (h : LiteralsIn 0 t ls) :
    (runs t).Pairwise fun r s => r.stop < s.start := by
  rw [h.decoration_runs, List.pairwise_flatMap]
  refine ⟨fun l _ => Run.pairwise_runs _ _, h.alternates.pairwise.2.imp fun {a b} hab r hr s hs => ?_⟩
  have hstop := (Run.bounds_of_mem_runs hr).2.2
  have hstart := (Run.bounds_of_mem_runs hs).1
  rw [length_literal] at hab
  omega

end

/-! ## Spans -/

theorem lists_grouped_iff {rs : List Run} {style : Style} {o : Int} :
    (grouped rs).Lists style o ↔ ∃ r ∈ rs, r.style = style ∧ r.Covers o := by
  simp only [StyledSpans.Lists, mem_grouped]
  constructor
  · rintro ⟨_, ⟨-, rfl⟩, a, ha, hcovers⟩
    obtain ⟨r, hr, rfl⟩ := List.mem_map.1 ha
    obtain ⟨hr, hstyle⟩ := List.mem_filter.1 hr
    exact ⟨r, hr, of_decide_eq_true hstyle, hcovers⟩
  · rintro ⟨r, hr, hstyle, hcovers⟩
    have hmem : r ∈ rs.filter fun r => r.style = style :=
      List.mem_filter.2 ⟨hr, decide_eq_true hstyle⟩
    exact ⟨_, ⟨⟨r, hr, hstyle⟩, rfl⟩, r.span, List.mem_map_of_mem hmem, hcovers⟩

/-- Spans of runs one behind the other have no offset in common, in whatever lists they are. -/
theorem disjoint_grouped {rs : List Run} (h : rs.Pairwise fun r s => r.stop < s.start) :
    ((grouped rs).flatMap Prod.snd).Pairwise Span.Disjoint := by
  have hsymm : Std.Symm fun r s : Run => r.span.Disjoint s.span :=
    ⟨fun _ _ hrs o hboth => hrs o hboth.symm⟩
  have hdisjoint : rs.Pairwise fun r s => r.span.Disjoint s.span := by
    refine h.imp fun {r s} hlt o ⟨hr, hs⟩ => ?_
    have hstop : o < r.stop := hr.2
    have hstart : s.start ≤ o := hs.1
    omega
  rw [grouped, List.flatMap_map, List.pairwise_flatMap]
  refine ⟨fun style _ => List.pairwise_map.2 (hdisjoint.filter _), ?_⟩
  -- runs with different styles are different runs
  refine (nodup_eraseDups _).imp fun {style style'} hne a ha b hb => ?_
  obtain ⟨r, hr, rfl⟩ := List.mem_map.1 ha
  obtain ⟨s, hs, rfl⟩ := List.mem_map.1 hb
  obtain ⟨hr, hstyle⟩ := List.mem_filter.1 hr
  obtain ⟨hs, hstyle'⟩ := List.mem_filter.1 hs
  refine hdisjoint.forall hr hs ?_
  rintro rfl
  exact hne ((of_decide_eq_true hstyle).symm.trans (of_decide_eq_true hstyle'))

/-- **The spans of the runs of a text are the styled characters of its literals.** -/
theorem Json.LiteralsIn.decorates {t : Text} {ls : List Literal} (h : LiteralsIn 0 t ls) :
    Decorates ls (grouped (runs t)) := by
  have hlisted (style : Style) (o : Int) : (grouped (runs t)).Lists style o ↔
      ∃ state, state ≠ .default ∧ StateAt ls o state ∧ style = .ofState state := by
    rw [lists_grouped_iff]
    constructor
    · rintro ⟨r, hr, rfl, hcovers⟩
      obtain ⟨hdefault, hstate⟩ := h.exists_run_iff.1 ⟨r, hr, hcovers, rfl⟩
      exact ⟨r.state, hdefault, hstate, rfl⟩
    · rintro ⟨state, hdefault, hstate, rfl⟩
      obtain ⟨r, hr, hcovers, rfl⟩ := h.exists_run_iff.2 ⟨hdefault, hstate⟩
      exact ⟨r, hr, rfl, hcovers⟩
  refine ⟨hlisted, fun state o hcanonical => ?_, nodup_grouped _, fun e he a ha => ?_,
    fun e he => ?_, disjoint_grouped h.runs_pairwise⟩
  · rw [hlisted]
    constructor
    · rintro ⟨state', hdefault, hstate, hstyle⟩
      rw [Style.ofState_injective hcanonical hstate.isCanonical hstyle]
      exact ⟨hdefault, hstate⟩
    · rintro ⟨hdefault, hstate⟩
      exact ⟨state, hdefault, hstate, rfl⟩
  · obtain ⟨-, hlist⟩ := mem_grouped.1 he
    rw [hlist] at ha
    obtain ⟨r, hr, rfl⟩ := List.mem_map.1 ha
    exact h.runs_bounds r (List.mem_filter.1 hr).1
  · obtain ⟨-, hlist⟩ := mem_grouped.1 he
    rw [hlist]
    exact List.pairwise_map.2 (h.runs_pairwise.filter _)

/--
**The styled spans of a JSON text are the styled characters of its literals.** A text that the
strict reader accepts, however deep it nests, is written by the grammar with one list of literals.
A style lists an offset exactly when a visible character of such a literal stands there and the
codes from the opening quotation mark on lead to a state with this style, other than the default
one. The list of each style is increasing, no two spans have an offset in common, and what the
handle table holds makes no difference.
-/
theorem decorate_literals {t : Text} {v : Json} (h : parse t = .ok v)
    (handles handles' : StyleHandles) :
    ∃ ls, JsonText t ls ∧ (∀ ls', JsonText t ls' → ls' = ls) ∧
      Decorates ls (decorate t handles).1 ∧
      (decorate t handles).1 = (decorate t handles').1 := by
  obtain ⟨ls, hls⟩ := exists_jsonText_of_parse h
  refine ⟨ls, hls, fun ls' hls' => hls.unique hls', ?_, ?_⟩
  · rw [decorate_fst]
    exact hls.literalsIn.decorates
  · rw [decorate_fst, decorate_fst]

/-- A literal without a section sign that holds an escaped mark, before styled ones. -/
def marked : Text := "\x7b\"\\\"\": [\"§lx\\\"§r\", \x7b\"b\": \"§ly\"\x7d]\x7d"

/-- The literals of `marked`. -/
def markedLiterals : List Literal :=
  [⟨1, "\\\""⟩, ⟨8, "§lx\\\"§r"⟩, ⟨20, "b"⟩, ⟨25, "§ly"⟩]

/-- The handle table that another text has left. -/
def usedHandles : StyleHandles := (decorate "\"§cx\"" {}).2

theorem decorate_literals_marked :
    (∃ v, parse marked = .ok v) ∧ JsonText marked markedLiterals ∧
      Decorates markedLiterals (decorate marked usedHandles).1 ∧
      (decorate marked usedHandles).1 = (decorate marked {}).1 := by
  have hparse : parse marked = .ok (.object [("\"",
      .array [.string "§lx\"§r", .object [("b", .string "§ly")]])]) := by
    rfl
  obtain ⟨ls, hls, -, hdecorates, hsame⟩ := decorate_literals hparse usedHandles {}
  have hliterals : ls = markedLiterals := by
    rw [hls.literalsIn.eq_literalsFrom]
    decide
  rw [hliterals] at hls hdecorates
  exact ⟨⟨_, hparse⟩, hls, hdecorates, hsame⟩

-- The escaped mark of the second literal is drawn in bold as well.
example : (decorate marked usedHandles).1
    = [(.ofState { bold := true }, [⟨11, 14⟩, ⟨28, 29⟩])] := by
  decide

end LangFile

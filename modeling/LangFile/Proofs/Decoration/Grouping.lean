import LangFile.Decoration
import LangFile.Proofs.Entry.Distinct

/-!
# Grouping runs by style

Decorating takes one run after another and lists its span under the style that the handle table has
for its state. Whatever the table holds, that is the style made for the state, so the lists are
those of the runs with the style, in their order.
-/

namespace LangFile

/-- The style that a run is drawn in. -/
def Run.style (r : Run) : Style := .ofState r.state

/-- The offsets that a run covers. -/
def Run.span (r : Run) : Span := ⟨r.start, r.stop⟩

namespace Decoration

/-- The styles of runs, each once and where a run first has it, with the spans of all runs that have
it. -/
def grouped (rs : List Run) : StyledSpans :=
  (rs.map Run.style).eraseDups.map fun style =>
    (style, (rs.filter fun r => r.style = style).map Run.span)

/-- A span comes last in the list of its style, and a new style comes last of all. -/
theorem addSpan_map {styles : List Style} (h : styles.Nodup) {lists : Style → List Span}
    {style : Style} (hlist : style ∉ styles → lists style = []) (span : Span) :
    addSpan (styles.map fun s => (s, lists s)) style span
      = (if style ∈ styles then styles else styles ++ [style]).map fun s =>
        (s, lists s ++ if style = s then [span] else []) := by
  induction styles with
  | nil => simp [addSpan, hlist List.not_mem_nil]
  | cons s styles ih =>
    obtain ⟨hs, hstyles⟩ := List.nodup_cons.1 h
    rw [List.map_cons, addSpan]
    by_cases heq : s = style
    · subst heq
      -- no other style of the list has the span
      have hothers : ∀ s' ∈ styles,
          (s', lists s') = (s', lists s' ++ if s = s' then [span] else []) := by
        intro s' hs'
        have hne : s ≠ s' := fun heq => hs (by rwa [heq])
        rw [if_neg hne, List.append_nil]
      rw [if_pos rfl, if_pos List.mem_cons_self, List.map_cons, if_pos rfl,
        List.map_congr_left hothers]
    · have hne : style ≠ s := Ne.symm heq
      have hlist' : style ∉ styles → lists style = [] := fun hmem => hlist (by simp [hne, hmem])
      rw [if_neg heq, ih hstyles hlist']
      by_cases hmem : style ∈ styles
      · simp [hmem, hne]
      · simp [hmem, hne]

/-- **One step:** one more run of the group. -/
theorem addSpan_grouped (rs : List Run) (r : Run) :
    addSpan (grouped rs) r.style r.span = grouped (rs ++ [r]) := by
  have hlist : r.style ∉ (rs.map Run.style).eraseDups →
      (rs.filter fun r' => r'.style = r.style).map Run.span = [] := by
    intro hnot
    rw [List.mem_eraseDups, List.mem_map] at hnot
    simpa using fun r' hr' heq => hnot ⟨r', hr', heq⟩
  rw [grouped, addSpan_map (nodup_eraseDups _) hlist, grouped, List.map_append, List.map_singleton,
    eraseDups_concat]
  simp only [List.mem_eraseDups]
  refine List.map_congr_left fun style _ => ?_
  rw [List.filter_append, List.map_append]
  by_cases hstyle : r.style = style
  · simp [hstyle]
  · simp [hstyle]

/-- The handle table does not enter what is drawn. -/
theorem addRun_fst (drawn : StyledSpans × StyleHandles) (r : Run) :
    (addRun drawn r).1 = addSpan drawn.1 r.style r.span := by
  rw [addRun]
  dsimp only
  rw [StyleHandles.get_fst]
  rfl

/-- **The spans of a text are those of its runs, grouped,** whatever the handle table holds. -/
theorem decorate_fst (t : Text) (handles : StyleHandles) :
    (decorate t handles).1 = grouped (runs t) := by
  rw [decorate]
  induction runs t using List.reverseRecOn with
  | nil => rfl
  | append_singleton rs r ih =>
    rw [List.foldl_append, List.foldl_cons, List.foldl_nil, addRun_fst, ih, addSpan_grouped]

theorem mem_grouped {rs : List Run} {style : Style} {list : List Span} :
    (style, list) ∈ grouped rs ↔
      (∃ r ∈ rs, r.style = style) ∧ list = (rs.filter fun r => r.style = style).map Run.span := by
  simp only [grouped, List.mem_map, List.mem_eraseDups, Prod.mk.injEq]
  constructor
  · rintro ⟨_, hstyle, rfl, rfl⟩
    exact ⟨hstyle, rfl⟩
  · rintro ⟨hstyle, rfl⟩
    exact ⟨style, hstyle, rfl, rfl⟩

/-- No style is listed twice. -/
theorem nodup_grouped (rs : List Run) : ((grouped rs).map Prod.fst).Nodup := by
  rw [grouped, List.map_map]
  simpa [Function.comp_def] using nodup_eraseDups (rs.map Run.style)

end Decoration

end LangFile

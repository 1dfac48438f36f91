import LangFile.Proofs.Format.Visible

/-!
# Texts without codes

The visible text is the text without the two characters of each code. A section sign is left only
where nothing follows it, at the end; so the characters that are left make no code among themselves,
and a visible text is visible as it is.

1. The visible text as a part of the text (`visibleText_eq_filter`), and how much is taken out of it
   (`length_visible_add`).
2. Texts that are visible as they are (`visibleText_eq_self_iff`).
3. Both together (`visibleText_stripped`).
-/

namespace LangFile

/-! ## What is left -/

/-- The position is that of a visible character. -/
def Place.isVisible : Place → Bool
  | visible _ => true
  | _ => false

theorem map_fst_visibleBehind (codes : List CodePoint) (t : Text) :
    (visibleBehind codes t).map Prod.fst
      = ((t.zip (placesBehind codes t)).filter fun v => v.2.isVisible).map Prod.fst := by
  rw [visibleBehind, List.map_filterMap, ← List.filterMap_eq_map, ← List.filterMap_eq_filter,
    List.filterMap_filterMap]
  congr 1
  funext v
  obtain ⟨c, p⟩ := v
  cases p <;> rfl

/-- **The visible text is what stands at the visible positions,** in order. -/
theorem visibleText_eq_filter (t : Text) :
    visibleText t = ((t.zip (places t)).filter fun v => v.2.isVisible).map Prod.fst := by
  rw [visibleText_eq_map]
  exact map_fst_visibleBehind [] t

theorem visibleText_sublist (t : Text) : (visibleText t).Sublist t := by
  have hzip : (t.zip (places t)).map Prod.fst = t :=
    List.map_fst_zip (Nat.le_of_eq (length_placesBehind [] t).symm)
  have hsublist : (visibleText t).Sublist ((t.zip (places t)).map Prod.fst) := by
    rw [visibleText_eq_filter]
    exact List.filter_sublist.map Prod.fst
  rwa [hzip] at hsublist

/-- Each code takes two characters. -/
theorem length_visible_add (codes : List CodePoint) (t : Text) :
    (visibleBehind codes t).length + 2 * (placesBehind codes t).count .sign = t.length := by
  fun_induction placesBehind codes t with
  | case1 => rfl
  | case2 => rfl
  | case3 codes d rest ih =>
    rw [visibleBehind_code, List.count_cons_self, List.count_cons_of_ne (by decide)]
    simp only [List.length_cons]
    omega
  | case4 codes c d rest hc ih =>
    rw [visibleBehind_cons hc, List.count_cons_of_ne Place.noConfusion]
    simp only [List.length_cons] at ih ⊢
    omega

/-! ## Texts without codes -/

/-- A section sign is visible only at the end. -/
theorem marker_not_mem_dropLast (codes : List CodePoint) (t : Text) :
    marker ∉ ((visibleBehind codes t).map Prod.fst).dropLast := by
  fun_induction placesBehind codes t with
  | case1 => exact List.not_mem_nil
  | case2 => exact List.not_mem_nil
  | case3 codes d rest ih =>
    rw [visibleBehind_code]
    exact ih
  | case4 codes c d rest hc ih =>
    rw [visibleBehind_cons hc, List.map_cons]
    -- `c` is no section sign, so it may stand before whatever is visible behind it.
    cases hrest : (visibleBehind codes (d :: rest)).map Prod.fst with
    | nil => exact List.not_mem_nil
    | cons e u =>
      rw [hrest] at ih
      exact List.not_mem_cons_of_ne_of_not_mem (Ne.symm hc) ih

/-- Without a section sign that something follows, every character is visible. -/
theorem map_fst_visibleBehind_eq_self {codes : List CodePoint} {t : Text}
    (h : marker ∉ t.dropLast) : (visibleBehind codes t).map Prod.fst = t := by
  fun_induction placesBehind codes t with
  | case1 => rfl
  | case2 => rfl
  | case3 => exact absurd List.mem_cons_self h
  | case4 codes c d rest hc ih =>
    rw [visibleBehind_cons hc, List.map_cons, ih (List.not_mem_of_not_mem_cons h)]

/-- **The texts that are visible as they are** have a section sign at most at the end. -/
theorem visibleText_eq_self_iff (t : Text) : visibleText t = t ↔ marker ∉ t.dropLast := by
  rw [visibleText_eq_map]
  constructor
  · intro h
    rw [← h]
    exact marker_not_mem_dropLast [] t
  · exact map_fst_visibleBehind_eq_self

/-! ## Both -/

/--
**The visible text has no codes.** Taking the codes out of it once more changes nothing, and it holds
a section sign at most as its last character. Two characters are taken out of a text for each of its
codes, and what is left is what stands at the visible positions, in order.
-/
theorem visibleText_stripped (t : Text) :
    visibleText (visibleText t) = visibleText t ∧ marker ∉ (visibleText t).dropLast ∧
      (visibleText t).length + 2 * (places t).count .sign = t.length ∧
      visibleText t = ((t.zip (places t)).filter fun v => v.2.isVisible).map Prod.fst ∧
      (visibleText t).Sublist t := by
  have hlast : marker ∉ (visibleText t).dropLast := by
    rw [visibleText_eq_map]
    exact marker_not_mem_dropLast [] t
  refine ⟨(visibleText_eq_self_iff _).2 hlast, hlast, ?_, visibleText_eq_filter t,
    visibleText_sublist t⟩
  rw [visibleText_eq_map, List.length_map]
  exact length_visible_add [] t

-- Two signs are a code; of three, the last is read with what follows it, if anything does.
example : visibleText "a§§b§§§c§" = "ab§" ∧ visibleText "§§§" = "§" := by
  decide

end LangFile

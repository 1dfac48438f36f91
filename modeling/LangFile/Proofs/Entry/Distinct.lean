import LangFile.Entry.Keys
import Mathlib.Data.List.Induction

/-!
# Each name once

A parsed object and the keys of a language file both keep a name where it first occurs. The object
overwrites the value of a name that comes again, the keys leave the later entry out; the names that
remain are the same.
-/

namespace LangFile

/-! ## Lists without repetitions -/

theorem nodup_eraseDups {α : Type} [BEq α] [LawfulBEq α] (l : List α) : l.eraseDups.Nodup := by
  induction hn : l.length using Nat.strongRecOn generalizing l with
  | _ n ih =>
    cases l with
    | nil => simp
    | cons a l =>
      rw [List.eraseDups_cons, List.nodup_cons]
      refine ⟨by simp [List.mem_eraseDups], ih _ ?_ _ rfl⟩
      rw [← hn]
      exact Nat.lt_succ_of_le (List.length_filter_le _ l)

/-- One more element comes last, unless it is there already. -/
theorem eraseDups_concat {α : Type} [BEq α] [LawfulBEq α] (l : List α) (a : α) :
    (l ++ [a]).eraseDups = if a ∈ l then l.eraseDups else l.eraseDups ++ [a] := by
  rw [List.eraseDups_append]
  by_cases ha : a ∈ l
  · simp [List.removeAll, ha]
  · simp [List.removeAll, List.eraseDups_cons, ha]

namespace Json

/-! ## Members -/

theorem map_name_setMember (members : List (Text × Json)) (name : Text) (value : Json) :
    (setMember members name value).map (·.1)
      = if name ∈ members.map (·.1) then members.map (·.1) else members.map (·.1) ++ [name] := by
  induction members with
  | nil => rfl
  | cons m members ih =>
    obtain ⟨n, v⟩ := m
    rw [setMember]
    by_cases hn : n = name
    · simp [hn]
    · rw [if_neg hn, List.map_cons, ih]
      by_cases hname : name ∈ members.map (·.1)
      · simp [hname]
      · simp [hname, Ne.symm hn]

/-- **An object has the name of each member that is written once, where it first occurs.** -/
theorem map_name_collectMembers (ws : List (Text × Json)) :
    (collectMembers ws).map (·.1) = (ws.map (·.1)).eraseDups := by
  -- the last member either leaves the names as they are or comes behind them
  induction ws using List.reverseRecOn with
  | nil => rfl
  | append_singleton ws w ih =>
    have hset : collectMembers (ws ++ [w]) = setMember (collectMembers ws) w.1 w.2 :=
      List.foldl_append
    rw [hset, map_name_setMember, ih, List.map_append, List.map_singleton, eraseDups_concat]
    simp only [List.mem_eraseDups]

theorem nodup_name_collectMembers (ws : List (Text × Json)) :
    ((collectMembers ws).map (·.1)).Nodup := by
  rw [map_name_collectMembers]
  exact nodup_eraseDups _

theorem setMember_of_not_mem {members : List (Text × Json)} {name : Text}
    (h : name ∉ members.map (·.1)) (value : Json) :
    setMember members name value = members ++ [(name, value)] := by
  induction members with
  | nil => rfl
  | cons m members ih =>
    obtain ⟨n, v⟩ := m
    obtain ⟨hn, hmembers⟩ := not_or.1 (mt List.mem_cons.2 h)
    rw [setMember, if_neg (Ne.symm hn), ih hmembers, List.cons_append]

/-- Members with different names are the members of their object. -/
theorem collectMembers_eq_self {ws : List (Text × Json)} (h : (ws.map (·.1)).Nodup) :
    collectMembers ws = ws := by
  induction ws using List.reverseRecOn with
  | nil => rfl
  | append_singleton ws w ih =>
    rw [List.map_append, List.map_singleton, List.nodup_append] at h
    obtain ⟨hws, -, hdisjoint⟩ := h
    have hset : collectMembers (ws ++ [w]) = setMember (collectMembers ws) w.1 w.2 :=
      List.foldl_append
    rw [hset, ih hws]
    refine setMember_of_not_mem (fun hw => ?_) w.2
    exact hdisjoint _ hw _ (List.mem_singleton_self _) rfl

end Json

namespace Key

/-! ## Keys -/

theorem map_name_dedupFrom (seen : List Text) (ks : List Key) :
    (dedupFrom seen ks).map (·.name) = ((ks.map (·.name)).removeAll seen).eraseDups := by
  induction ks generalizing seen with
  | nil => rfl
  | cons k ks ih =>
    rw [dedupFrom, List.map_cons, List.cons_removeAll]
    by_cases hk : seen.contains k.name = true
    · rw [if_pos hk, if_neg (ne_false_of_eq_true hk), ih]
    · rw [if_neg hk, if_pos (eq_false_of_ne_true hk), List.map_cons, ih, List.eraseDups_cons,
        List.removeAll_cons]
      simp only [List.removeAll, List.filter_filter, Bool.and_comm]

/-- **The keys of entries have each key once, where it first occurs.** -/
theorem map_name_ofEntries (es : List Entry) :
    (ofEntries es).map (·.name) = (es.map Entry.key).eraseDups := by
  rw [ofEntries, map_name_dedupFrom, List.removeAll_nil, List.map_map]
  rfl

end Key

end LangFile

import LangFile.Proofs.Entry.Decomposition

/-!
# Pairs with free text around them

A layout is a list of pairs with a text before the first and a text behind each, none of which has a
quotation mark: braces, commas, comments, values that are not quoted, or any other filling. Scanning
gives the pairs back in their order, so the filling decides about nothing but the offsets.
-/

namespace LangFile

open Text Entry

/-- A pair with the white space around its colon. -/
structure Layout.Item where
  key : Text
  beforeColon : Text
  afterColon : Text
  value : Option Text
  isBody_key : IsBody key := by decide
  allBlank_beforeColon : AllBlank beforeColon := by decide
  allBlank_afterColon : AllBlank afterColon := by decide
  isBody_value : ∀ v ∈ value, IsBody v := by decide

namespace Layout

/-- The text of a pair: of a pair without a value, up to the white space behind the colon. -/
def Item.text (i : Item) : Text :=
  literal i.key ++ i.beforeColon ++ .scalar ':' :: i.afterColon ++ (i.value.map literal).getD []

/-- The text of pairs, each with the filling behind it. -/
def body : List (Item × Text) → Text
  | [] => []
  | (i, filling) :: items => i.text ++ (filling ++ body items)

/-- The fillings have no quotation mark, and behind a pair without a value comes, after white space,
no quotation mark either: another character, or the end of the text. -/
def IsSpaced : List (Item × Text) → Prop
  | [] => True
  | (i, filling) :: items =>
    .scalar '"' ∉ filling ∧
    (i.value = none → (trimLeft (filling ++ body items)).head? ≠ some (.scalar '"')) ∧
    IsSpaced items

instance decidableIsSpaced : (items : List (Item × Text)) → Decidable (IsSpaced items)
  | [] => .isTrue trivial
  | (i, filling) :: items =>
    have := decidableIsSpaced items
    inferInstanceAs (Decidable (.scalar '"' ∉ filling ∧
      (i.value = none → (trimLeft (filling ++ body items)).head? ≠ some (.scalar '"')) ∧
      IsSpaced items))

/-- The entries of pairs that stand at offset `pos`. -/
def entriesFrom (pos : Nat) : List (Item × Text) → List Entry
  | [] => []
  | (i, filling) :: items =>
    ⟨i.key, pos, i.value⟩ :: entriesFrom (pos + i.text.length + filling.length) items

end Layout

/-- Pairs with fillings around them. -/
structure Layout where
  lead : Text
  items : List (Layout.Item × Text)
  quoteFree_lead : .scalar '"' ∉ lead := by decide
  isSpaced : Layout.IsSpaced items := by decide

namespace Layout

def text (l : Layout) : Text := l.lead ++ body l.items

/-- The entry of each pair, at the offset of its key's literal. -/
def entries (l : Layout) : List Entry := entriesFrom l.lead.length l.items

/-- The pairs without the fillings. -/
def pairs (l : Layout) : List Item := l.items.map Prod.fst

/-! ## Scanning a layout -/

theorem Item.isPair (i : Item) : IsPair i.key i.value i.text := by
  unfold text
  cases h : i.value with
  | some v =>
    exact .valued i.isBody_key i.allBlank_beforeColon i.allBlank_afterColon (i.isBody_value v h)
  | none =>
    rw [Option.map_none, Option.getD_none, List.append_nil]
    exact .bare i.isBody_key i.allBlank_beforeColon i.allBlank_afterColon

theorem lacksValue_of_head? {t : Text} (h : (trimLeft t).head? ≠ some (.scalar '"')) :
    LacksValue t := by
  rw [lacksValue_iff]
  refine quoted_eq_none_of_head fun r hr => h ?_
  rw [hr, List.head?_cons]

/-- **The pairs of a layout are scanned one after another.** -/
theorem scanFrom_body {items : List (Item × Text)} (h : IsSpaced items) (pos : Nat) :
    scanFrom pos (body items) = entriesFrom pos items := by
  induction items generalizing pos with
  | nil => rfl
  | cons x items ih =>
    obtain ⟨i, filling⟩ := x
    obtain ⟨hfilling, hv, hrest⟩ := h
    -- the pair is read, and the filling behind it is a gap
    rw [body, scanFrom_pair i.isPair (fun hnone => lacksValue_of_head? (hv hnone)),
      scanFrom_gap (noMatchIn_of_quoteFree hfilling _), ih hrest, entriesFrom]

theorem scan_text_eq_entries (l : Layout) : scan l.text = l.entries := by
  rw [scan_eq_scanFrom, text, scanFrom_gap (noMatchIn_of_quoteFree l.quoteFree_lead _),
    scanFrom_body l.isSpaced, Nat.zero_add, entries]

/-- What the entries of a layout hold apart from their offsets does not depend on the fillings. -/
theorem map_entriesFrom (pos : Nat) (items : List (Item × Text)) :
    (entriesFrom pos items).map (fun e => (e.rawKey, e.value))
      = (items.map Prod.fst).map fun i => (i.key, i.value) := by
  induction items generalizing pos with
  | nil => rfl
  | cons x items ih =>
    obtain ⟨i, filling⟩ := x
    rw [entriesFrom, List.map_cons, ih, List.map_cons, List.map_cons]

/--
**Scanning a layout gives its pairs back.** Each has one entry, in their order, with its key, its
value and the span of its key's literal; and whatever other fillings are put around the same pairs,
nothing but the offsets changes.
-/
theorem scan_layout (l : Layout) :
    scan l.text = l.entries ∧
      (∀ e ∈ scan l.text, l.text.slice e.start e.stop = literal e.rawKey) ∧
      ∀ l' : Layout, l'.pairs = l.pairs →
        (scan l'.text).map (fun e => (e.rawKey, e.value))
          = (scan l.text).map fun e => (e.rawKey, e.value) := by
  refine ⟨scan_text_eq_entries l, fun e he => slice_of_mem_scan he, ?_⟩
  intro l' h
  unfold pairs at h
  rw [scan_text_eq_entries, scan_text_eq_entries, entries, entries, map_entriesFrom,
    map_entriesFrom, h]

/-- A braced object whose first value is a number, with a comment. -/
def commented : Layout where
  lead := "\x7b "
  items := [({ key := "a", beforeColon := [], afterColon := " ", value := none }, "1, // one\n"),
    ({ key := "b\\n", beforeColon := " ", afterColon := [], value := some [] }, " \x7d")]

/-- The same pairs on lines of their own. -/
def unbraced : Layout where
  lead := []
  items := [({ key := "a", beforeColon := [], afterColon := " ", value := none }, "= one:\n"),
    ({ key := "b\\n", beforeColon := " ", afterColon := [], value := some [] }, [])]

theorem scan_commented :
    unbraced.pairs = commented.pairs ∧
      (scan commented.text).map (·.start) = [2, 17] ∧ (scan unbraced.text).map (·.start) = [0, 12] ∧
      (scan unbraced.text).map (fun e => (e.rawKey, e.value))
        = (scan commented.text).map fun e => (e.rawKey, e.value) :=
  ⟨rfl, by decide, by decide, (scan_layout commented).2.2 unbraced rfl⟩

end Layout

end LangFile

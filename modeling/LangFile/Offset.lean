/-!
# Signed offsets

An offset into a list counts from the start when it is not negative, and from the end when it is: of
`n` elements, `-1` stands for the last and `-n` for the first. As a cut between elements every
offset is good, and one that lies beyond an end stands for that end. As the place of an element it
has to lie inside.

## Main statements

* `cut_natCast`, `element?_natCast` and so on: an offset that is not negative is an ordinary one.
* `before_append_after`: a cut divides a list.
-/

namespace LangFile.Offset

variable {α : Type}

/-- The number of elements before a cut, among `n`. -/
def cut (n : Nat) (i : Int) : Nat := if i < 0 then (n + i).toNat else min i.toNat n

/-- The number of elements before the element at an offset, if there is one among `n`. -/
def element? (n : Nat) (i : Int) : Option Nat :=
  if i < 0 then if 0 ≤ n + i then some (n + i).toNat else none
  else if i < n then some i.toNat else none

/-- The element at an offset. -/
def get? (l : List α) (i : Int) : Option α := (element? l.length i).bind fun k => l[k]?

/-- The list with another element at an offset; unchanged when there is none. -/
def set (l : List α) (i : Int) (a : α) : List α :=
  match element? l.length i with
  | some k => l.set k a
  | none => l

/-- The list without the element at an offset; unchanged when there is none. -/
def erase (l : List α) (i : Int) : List α :=
  match element? l.length i with
  | some k => l.eraseIdx k
  | none => l

/-- What lies before a cut. -/
def before (l : List α) (i : Int) : List α := l.take (cut l.length i)

/-- What lies behind a cut. -/
def after (l : List α) (i : Int) : List α := l.drop (cut l.length i)

/-- What lies behind one cut and before another. -/
def between (l : List α) (i j : Int) : List α := (before l j).drop (cut l.length i)

/-- The list with what lies between two cuts replaced; the second is moved up to the first when it
lies before it. -/
def replace (l : List α) (i j : Int) (new : List α) : List α :=
  before l i ++ new ++ l.drop (max (cut l.length i) (cut l.length j))

/-- The list with an element put in at a cut. -/
def insert (l : List α) (i : Int) (a : α) : List α := before l i ++ a :: after l i

theorem cut_natCast (n k : Nat) : cut n k = min k n := by
  unfold cut
  split <;> omega

theorem cut_le (n : Nat) (i : Int) : cut n i ≤ n := by
  unfold cut
  split <;> omega

theorem element?_natCast (n k : Nat) : element? n k = if k < n then some k else none := by
  unfold element?
  rw [if_neg (by omega)]
  simp

theorem element?_lt {n k : Nat} {i : Int} (h : element? n i = some k) : k < n := by
  unfold element? at h
  split at h <;> split at h <;> simp at h <;> omega

theorem get?_natCast (l : List α) (k : Nat) : get? l k = l[k]? := by
  unfold get?
  rw [element?_natCast]
  split
  · rfl
  · next h => simp [List.getElem?_eq_none (Nat.le_of_not_lt h)]

theorem set_natCast (l : List α) (k : Nat) (a : α) : set l k a = l.set k a := by
  unfold set
  rw [element?_natCast]
  split
  · next h => split at h <;> simp_all
  · next h => split at h <;> simp_all [List.set_eq_of_length_le]

theorem before_natCast (l : List α) (k : Nat) : before l k = l.take k := by
  simp [before, cut_natCast, List.take_eq_take_iff]

theorem after_natCast (l : List α) (k : Nat) : after l k = l.drop k := by
  unfold after
  rw [cut_natCast]
  rcases Nat.le_total k l.length with h | h
  · rw [Nat.min_eq_left h]
  · rw [Nat.min_eq_right h, List.drop_length, List.drop_eq_nil_of_le h]

theorem between_natCast (l : List α) (i j : Nat) : between l i j = (l.take j).drop i := by
  unfold between
  rw [before_natCast, cut_natCast]
  rcases Nat.le_total i l.length with h | h
  · rw [Nat.min_eq_left h]
  · rw [Nat.min_eq_right h, List.drop_eq_nil_of_le (List.length_take_le' _ _),
      List.drop_eq_nil_of_le (Nat.le_trans (List.length_take_le' _ _) h)]

theorem replace_natCast (l : List α) {i j : Nat} (h : i ≤ j) (new : List α) :
    replace l i j new = l.take i ++ new ++ l.drop j := by
  have hcut : max (cut l.length i) (cut l.length j) = cut l.length j := by
    rw [cut_natCast, cut_natCast]
    omega
  have hafter : l.drop (cut l.length j) = l.drop j := after_natCast l j
  unfold replace
  rw [hcut, hafter, before_natCast]

theorem insert_natCast (l : List α) (k : Nat) (a : α) :
    insert l k a = l.take k ++ a :: l.drop k := by
  unfold insert
  rw [before_natCast, after_natCast]

theorem erase_natCast (l : List α) (k : Nat) : erase l k = l.eraseIdx k := by
  unfold erase
  rw [element?_natCast]
  split
  · next h => split at h <;> simp_all
  · next h => split at h <;> simp_all [List.eraseIdx_of_length_le]

theorem before_append_after (l : List α) (i : Int) : before l i ++ after l i = l :=
  List.take_append_drop _ _

end LangFile.Offset

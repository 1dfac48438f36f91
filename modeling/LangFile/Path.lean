import LangFile.Text.CodePoint

/-!
# Paths

A path is normalised when it is read: repeated slashes, steps to the same directory and a trailing
slash vanish, while a step to the parent directory stays. Exactly two leading slashes are a root of
their own.
-/

namespace LangFile

/-- Where a path starts: at the working directory, at `/`, or at `//`. -/
inductive PathRoot
  | relative
  | slash
  | doubleSlash
deriving DecidableEq

/-- The text of a root. -/
def PathRoot.toText : PathRoot → Text
  | relative => ""
  | slash => "/"
  | doubleSlash => "//"

/-- A normalised path: no part is empty or a single dot, and none holds a slash. -/
structure Path where
  root : PathRoot := .relative
  parts : List Text := []
deriving DecidableEq

namespace Path

/-- The root that a path's text begins with. -/
def rootOf : Text → PathRoot
  | .scalar '/' :: .scalar '/' :: .scalar '/' :: _ => .slash
  | .scalar '/' :: .scalar '/' :: _ => .doubleSlash
  | .scalar '/' :: _ => .slash
  | _ => .relative

/-- The part names a step: it is neither empty nor a single dot. -/
def isStep (part : Text) : Bool := part ≠ [] && part ≠ [.scalar '.']

/-- Reads a path. -/
def ofText (t : Text) : Path := ⟨rootOf t, (Text.splitOn '/' t).filter isStep⟩

/-- The text of a path; the working directory is a dot. -/
def toText (p : Path) : Text :=
  if p.root = .relative && p.parts.isEmpty then "."
  else p.root.toText ++ Text.joinWith "/" p.parts

/-- The last part, or nothing for a root and the working directory. -/
def name (p : Path) : Text := p.parts.getLast?.getD []

/-- The path without its last part. -/
def parent (p : Path) : Path := { p with parts := p.parts.dropLast }

/-- `q` as seen from `p`; an absolute `q` stands for itself. -/
def join (p q : Path) : Path :=
  if q.root = .relative then { p with parts := p.parts ++ q.parts } else q

/-- The path of `t` as seen from the directory of `p`. -/
def sibling (p : Path) (t : Text) : Path := p.parent.join (ofText t)

/-- Puts parts behind those of `done`, which stand last first. A step up takes the part before it
away; one with no part before it stays, and is void at a root. -/
def collapseOnto (atRoot : Bool) (done : List Text) : List Text → List Text
  | [] => done.reverse
  | part :: rest =>
    if part = ".." then
      match done with
      | [] => collapseOnto atRoot (if atRoot then [] else [part]) rest
      | last :: before =>
        collapseOnto atRoot (if last = ".." then part :: done else before) rest
    else collapseOnto atRoot (part :: done) rest

/-- The path with steps up carried out on the text: whether the parts that they leave exist does not
matter. -/
def collapse (p : Path) : Path :=
  { p with parts := collapseOnto (p.root ≠ .relative) [] p.parts }

/-- A name cut at its last dot, when that is neither its first nor its last character. -/
def splitName (name : Text) : Text × Text :=
  let ending := (name.reverse.takeWhile (· ≠ .scalar '.')).reverse
  let stem := name.take (name.length - ending.length - 1)
  if ending.isEmpty || stem.isEmpty || ending.length = name.length then (name, [])
  else (stem, .scalar '.' :: ending)

/-- The name's ending from its last dot on. -/
def suffix (p : Path) : Text := (splitName p.name).2

/-- The name without its ending. -/
def stem (p : Path) : Text := (splitName p.name).1

theorem stem_append_suffix (p : Path) : p.stem ++ p.suffix = p.name := by
  unfold stem suffix splitName
  generalize p.name = n
  simp only
  split
  · simp
  · next h =>
    simp only [Bool.or_eq_true, List.isEmpty_iff, decide_eq_true_eq, not_or] at h
    obtain ⟨⟨-, -⟩, hlen⟩ := h
    have key : n = (n.reverse.dropWhile (· ≠ .scalar '.')).reverse ++
        (n.reverse.takeWhile (· ≠ .scalar '.')).reverse := by
      rw [← List.reverse_append, List.takeWhile_append_dropWhile, List.reverse_reverse]
    generalize hd : n.reverse.dropWhile (· ≠ .scalar '.') = d at key
    generalize he : n.reverse.takeWhile (· ≠ .scalar '.') = e at key hlen ⊢
    cases d with
    | nil => rw [key] at hlen; simp at hlen
    | cons x xs =>
      have hx : x = .scalar '.' := by
        have := List.head?_dropWhile_not (fun c => decide (c ≠ CodePoint.scalar '.')) n.reverse
        rw [hd] at this
        simpa using this
      subst hx
      rw [key]
      have hn : xs.length + (e.length + 1) - e.length - 1 = xs.length := by omega
      simp only [List.reverse_cons, List.append_assoc, List.cons_append, List.nil_append,
        List.length_append, List.length_reverse, List.length_cons, hn]
      rw [← List.length_reverse, List.take_left]

end Path

end LangFile

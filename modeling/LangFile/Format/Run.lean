import LangFile.Format.State

/-!
# Styled runs

A text is cut by its formatting codes into runs of visible text, each with the state in effect. A
section sign and the character after it are never visible, recognised or not; a section sign at the
very end of the text is.
-/

namespace LangFile

/-- The visible text from `start` up to `stop`, drawn in one state. -/
structure Run where
  start : Int
  stop : Int
  state : FormattingState
deriving DecidableEq

namespace Run

/-- The part of `source` that the run covers, where `source` begins at offset `base`. -/
def textIn (run : Run) (source : Text) (base : Int) : Text :=
  source.slice (run.start - base).toNat (run.stop - base).toNat

/-- Runs in this state are asked for: those in the default state only on demand. -/
def isWanted (keepDefault : Bool) (state : FormattingState) : Bool :=
  keepDefault || !state.isDefault

/-- Where the run behind a code begins, when it is asked for. -/
def opened (keepDefault : Bool) (state : FormattingState) (pos : Int) : Option Int :=
  if isWanted keepDefault state then some pos else none

/-- The open run up to `pos`, if there is one and it is not empty. -/
def close (state : FormattingState) (start : Option Int) (pos : Int) : List Run :=
  match start with
  | some s => if s < pos then [⟨s, pos, state⟩] else []
  | none => []

/-- The open run up to the end of the text at `pos`, when it is asked for. -/
def closeLast (keepDefault : Bool) (state : FormattingState) (start : Option Int) (pos : Int) :
    List Run :=
  if isWanted keepDefault state then close state start pos else []

@[simp] theorem opened_true (state : FormattingState) (pos : Int) :
    opened true state pos = some pos := rfl

@[simp] theorem closeLast_true (state : FormattingState) (start : Option Int) (pos : Int) :
    closeLast true state start pos = close state start pos := rfl

/-- The runs of the text that follows offset `pos`, where the open run began at `start`; nothing is
open behind a code that leads to a state that is not asked for. -/
def runsFrom (keepDefault : Bool) (state : FormattingState) (start : Option Int) (pos : Int) :
    Text → List Run
  | [] => closeLast keepDefault state start pos
  | [_] => closeLast keepDefault state start (pos + 1)
  | c :: d :: rest =>
    if c = marker then
      close state start pos ++
        runsFrom keepDefault (state.applyChar d) (opened keepDefault (state.applyChar d) (pos + 2))
          (pos + 2) rest
    else runsFrom keepDefault state start (pos + 1) (d :: rest)

/-- The runs of a text that begins at offset `base`, in order; those in the default state only on
demand. -/
def runs (text : Text) (keepDefault : Bool := false) (base : Int := 0) : List Run :=
  runsFrom keepDefault .default (if keepDefault then some base else none) base text

end Run

/-- The visible text: what is left when the formatting codes are taken out. -/
def visibleText (text : Text) : Text :=
  (Run.runs text true).flatMap fun run => run.textIn text 0

end LangFile

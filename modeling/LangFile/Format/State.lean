import LangFile.Format.Code

/-!
# The state that formatting codes build up

A colour and five modifiers. A colour code clears the modifiers, so the state depends only on the
codes from the last colour or reset on. Codes set colours in capitals; the states that they lead to
are canonical, while a state that is written down may hold a colour in another spelling.
-/

namespace LangFile

/-- The joint effect of the codes read so far. -/
structure FormattingState where
  color : Option HexColor := none
  bold : Bool := false
  italic : Bool := false
  strikethrough : Bool := false
  underline : Bool := false
  obfuscated : Bool := false
deriving DecidableEq

namespace FormattingState

/-- The state before any code. -/
def default : FormattingState := {}

/-- No code is in effect. -/
def isDefault (s : FormattingState) : Bool := s = default

/-- The state after one more code. -/
def apply (s : FormattingState) (code : FormattingCode) : FormattingState :=
  match code with
  | .reset => default
  | .bold => { s with bold := true }
  | .italic => { s with italic := true }
  | .strikethrough => { s with strikethrough := true }
  | .underline => { s with underline := true }
  | .obfuscated => { s with obfuscated := true }
  | code => { color := code.color.map .ofRgb }

/-- The state after the code that `c` stands for; an unknown character changes nothing. -/
def applyChar (s : FormattingState) (c : CodePoint) : FormattingState :=
  match FormattingCode.lookup c with
  | some code => s.apply code
  | none => s

theorem apply_of_isColor {code : FormattingCode} (h : code.isColor = true) (s : FormattingState) :
    s.apply code = { color := code.color.map .ofRgb } := by
  cases code <;> first | rfl | simp [FormattingCode.isColor, FormattingCode.color] at h

theorem apply_reset (s : FormattingState) : s.apply .reset = default := rfl

/-- The colour, if there is one, is written in capitals. -/
def IsCanonical (s : FormattingState) : Prop := ∀ c ∈ s.color, c = .ofRgb c.rgb

theorem isCanonical_default : default.IsCanonical := by simp [IsCanonical, default]

theorem IsCanonical.apply {s : FormattingState} (h : s.IsCanonical) (code : FormattingCode) :
    (s.apply code).IsCanonical := by
  cases code <;> first
    | exact h
    | exact isCanonical_default
    | simp [IsCanonical, FormattingState.apply, FormattingCode.color, HexColor.rgb_ofRgb]

theorem IsCanonical.applyChar {s : FormattingState} (h : s.IsCanonical) (c : CodePoint) :
    (s.applyChar c).IsCanonical := by
  unfold FormattingState.applyChar
  split
  · exact h.apply _
  · exact h

end FormattingState

end LangFile

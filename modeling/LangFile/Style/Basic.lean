import LangFile.Format.State

/-!
# Terminal styles

A style sets colours and attributes. Styles are added: the colours of the second win where it sets
them, and the attributes are united, so the null style is neutral.
-/

namespace LangFile

/-- A colour of the terminal's palette. -/
inductive PaletteColor
  | white | cyan | green | yellow | magenta | red | blue | darkBlue | darkGreen | grey37
deriving DecidableEq

/-- The palette's name of the colour. -/
def PaletteColor.name : PaletteColor → String
  | white => "white" | cyan => "cyan" | green => "green" | yellow => "yellow"
  | magenta => "magenta" | red => "red" | blue => "blue" | darkBlue => "dark_blue"
  | darkGreen => "dark_green" | grey37 => "grey37"

/-- A colour of a style. -/
inductive Color
  | palette (c : PaletteColor)
  | rgb (c : Rgb)
deriving DecidableEq

/-- The colour's name: a palette name, or `#rrggbb`. -/
def Color.name : Color → String
  | palette c => c.name
  | rgb c => c.hex.toLower

/-- How characters are drawn. -/
structure Style where
  foreground : Option Color := none
  background : Option Color := none
  bold : Bool := false
  dim : Bool := false
  italic : Bool := false
  underline : Bool := false
  strike : Bool := false
  reverse : Bool := false
deriving DecidableEq

namespace Style

/-- The style that sets nothing. -/
def null : Style := {}

/-- The style sets nothing. -/
def isNull (s : Style) : Bool := s = null

/-- The first style with the second laid over it, as Rich adds styles: a colour that the second sets
takes the place of that of the first, and an attribute is on when either turns it on. Rich's styles
can turn attributes off as well, and hold links and metadata; no style here does. -/
def add (a b : Style) : Style where
  foreground := b.foreground.or a.foreground
  background := b.background.or a.background
  bold := a.bold || b.bold
  dim := a.dim || b.dim
  italic := a.italic || b.italic
  underline := a.underline || b.underline
  strike := a.strike || b.strike
  reverse := a.reverse || b.reverse

instance : Add Style := ⟨add⟩

theorem add_null (s : Style) : s + null = s := by
  cases s; simp [HAdd.hAdd, Add.add, add, null]

theorem null_add (s : Style) : null + s = s := by
  cases s; simp [HAdd.hAdd, Add.add, add, null]

theorem add_assoc (a b c : Style) : a + b + c = a + (b + c) := by
  simp [HAdd.hAdd, Add.add, add, Bool.or_assoc, Option.or_assoc]

/-- The style's parts by name, in a fixed order. -/
def parts (s : Style) : List String :=
  (s.foreground.map fun c => "fg=" ++ c.name).toList ++
  (s.background.map fun c => "bg=" ++ c.name).toList ++
  [(s.bold, "bold"), (s.dim, "dim"), (s.italic, "italic"), (s.underline, "underline"),
    (s.strike, "strike"), (s.reverse, "reverse")].filterMap
    fun part => if part.1 then some part.2 else none

/-- The style that draws in one colour. -/
def ofForeground (c : Color) : Style := { foreground := some c }

/-- The background that marks obfuscated text. -/
def obfuscationMark : Color := .rgb ⟨0x58, 0x58, 0x58⟩

/-- The style of text in a formatting state. -/
def ofState (s : FormattingState) : Style where
  foreground := s.color.map fun c => .rgb c.rgb
  background := if s.obfuscated then some obfuscationMark else none
  bold := s.bold
  italic := s.italic
  strike := s.strikethrough
  underline := s.underline

/-- Different canonical states are drawn in different styles. -/
theorem ofState_injective {s t : FormattingState} (hs : s.IsCanonical) (ht : t.IsCanonical)
    (h : ofState s = ofState t) : s = t := by
  cases s with | mk c b i k u o =>
  cases t with | mk c' b' i' k' u' o' =>
  simp only [FormattingState.IsCanonical] at hs ht
  simp only [ofState, mk.injEq] at h
  obtain ⟨hc, ho, rfl, -, rfl, rfl, rfl, -⟩ := h
  have hc' : c = c' := by
    cases c with
    | none =>
      cases c' with
      | none => rfl
      | some y => simp at hc
    | some x =>
      cases c' with
      | none => simp at hc
      | some y =>
        have hr : x.rgb = y.rgb := by simpa using hc
        rw [hs x rfl, ht y rfl, hr]
  have ho' : o = o' := by cases o <;> cases o' <;> simp at ho ⊢
  subst hc' ho'
  rfl

end Style

end LangFile

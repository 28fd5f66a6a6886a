import LineScript.Failure

/-!
# Terminal styles

Text for a terminal can be coloured and made bold by escape sequences. Where styling is off,
text is left as it is.

## Main definitions

* `Style.styled`: a text between an escape sequence and the reset sequence
* `Style.paint`, `Style.bold`: colours of the sixteen-colour palette, bold type
* `Failure.describe`: a failure as a terminal user sees it
-/

namespace LineScript

namespace Style

/-- The escape sequence with the given parameters. -/
def sequence (parameters : Text) : Text :=
  utf8 "\x1b[" ++ parameters ++ utf8 "m"

/-- A text between the sequence with the given parameters and the reset sequence. -/
def styled (enabled : Bool) (parameters text : Text) : Text :=
  if enabled then sequence parameters ++ text ++ sequence (utf8 "0") else text

/-- The parameter of a foreground colour: the eight plain colours start at 30, the eight
bright ones at 90. -/
def foreground (color : Int) : Int :=
  if color < 8 then 30 + color else 82 + color

/-- A text in a colour of the palette. -/
def paint (enabled : Bool) (color : Int) (text : Text) : Text :=
  styled enabled (Decimal.ofInt (foreground color)) text

/-- A text in the colour of a decimal palette number; other names of colours have no effect. -/
def paintNamed (enabled : Bool) (color text : Text) : Text :=
  match Decimal.int64? color with
  | some n => paint enabled n.toInt text
  | none => text

/-- A text in bold type. -/
def bold (enabled : Bool) (text : Text) : Text :=
  styled enabled (utf8 "1") text

/-- Cyan, for places. -/
def cyan (enabled : Bool) (text : Text) : Text := paint enabled 6 text

/-- Gray, for quoted source. -/
def gray (enabled : Bool) (text : Text) : Text := paint enabled 8 text

/-- Bright red, for errors. -/
def red (enabled : Bool) (text : Text) : Text := paint enabled 9 text

/-- An error message for a terminal. -/
def error (enabled : Bool) (message : Text) : Text :=
  red enabled (utf8 "Error: ") ++ message

/-- An error message for a terminal that shows the program line it is about. -/
def errorAtLine (enabled : Bool) (line : Int) (source message : Text) : Text :=
  red enabled (bold enabled (utf8 "Error")) ++ utf8 " at "
    ++ cyan enabled (utf8 "line " ++ Decimal.ofInt line) ++ utf8 ": " ++ message
    ++ utf8 "\n    " ++ gray enabled source

@[simp] theorem styled_false (parameters text : Text) : styled false parameters text = text := rfl

end Style

/-- A failure as a terminal user sees it: with the program line, if it names one. -/
def Failure.describe (enabled : Bool) (failure : Failure) : Text :=
  match failure.line? with
  | some (line, source, cause) => Style.errorAtLine enabled line source cause.message
  | none => Style.error enabled failure.message

end LineScript

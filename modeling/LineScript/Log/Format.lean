import LineScript.Log.Record
import LineScript.Terminal.Style
import LineScript.Text.Blank

/-!
# The form of log lines

A record is one line: level, program, message, and `key=value` for each field. Values are put
between quotes where they would be misread; a value of several lines is written below the
message, each line behind a bar.

## Main definitions

* `Log.Format`: which records are written, and whether in colour
* `Log.Format.line`: the text of a record
* `Log.Format.ofEvents`: the log of some events
-/

namespace LineScript.Log

/-- Which records are written, and whether in colour. -/
structure Format where
  /-- Are records below warnings written too? -/
  verbose : Bool
  colored : Bool
  deriving DecidableEq, Repr

/-- The four letters that stand for a level. -/
def Level.label : Level → Text
  | debug => utf8 "DEBU"
  | info => utf8 "INFO"
  | warn => utf8 "WARN"
  | error => utf8 "ERRO"
  | fatal => utf8 "FATA"

/-- The colour of a level in the palette of 256. -/
def Level.color : Level → Nat
  | debug => 63
  | info => 86
  | warn => 192
  | error => 204
  | fatal => 134

/-! ## Values -/

/-- A glyph that keeps a value from being written bare. -/
def needsQuotes : Glyph → Bool
  | .stray _ => true
  | .char c =>
    c == '"' || c == '=' || c == '\uFFFD' || isBlankChar c || !isPrintable c

/-- A glyph that cannot be written as it is between quotes. -/
def needsEscape : Glyph → Bool
  | .stray _ => false
  | .char c => c == '"' || !isPrintable c

/-- A glyph of a value in which something is escaped. -/
def escapedGlyph (quotes : Bool) : Glyph → Text
  | .stray _ => utf8 "\uFFFD"
  | .char c =>
    if quotes && c == '"' then utf8 "\\\""
    else if isPrintable c then String.utf8EncodeChar c
    else Escape.char (fun n => decide (n < 0x20)) c

/-- A value with everything escaped that does not print, and with `quotes` also the quotes in
it. A value in which there is nothing to escape stays as it is, down to its stray bytes; in any
other value these become replacement characters. -/
def escaped (quotes : Bool) (value : Text) : Text :=
  if value.glyphs.any needsEscape then value.glyphs.flatMap (escapedGlyph quotes) else value

/-- A value of a single line. -/
def inlineValue (value : Text) : Text :=
  if value.isEmpty then utf8 "\"\""
  else if value.glyphs.any needsQuotes then utf8 "\"" ++ escaped true value ++ utf8 "\""
  else value

namespace Format

/-- Faint text, for what surrounds the values. -/
def faint (f : Format) (text : Text) : Text :=
  Style.styled f.colored (utf8 "2") text

/-- The lines of a value, each behind a bar. The last one, if it is empty, is left out, and
ends with a newline only if more fields follow. -/
def blockValue (f : Format) (more : Bool) (value : Text) : Text :=
  let bar := f.faint (utf8 "  │ ")
  let pieces := value.splitLines
  let last := pieces.getLast?.getD []
  let above := pieces.dropLast.flatMap fun piece => bar ++ escaped false piece ++ [Text.newline]
  if last.isEmpty then above
  else above ++ bar ++ escaped false last ++ (if more then [Text.newline] else [])

/-- A field of a record. -/
def field (f : Format) (more : Bool) (key value : Text) : Text :=
  if key.isEmpty then []
  else if value.contains Text.newline then
    utf8 "\n  " ++ f.faint key ++ f.faint (utf8 "=") ++ utf8 "\n" ++ f.blockValue more value
  else utf8 " " ++ f.faint key ++ f.faint (utf8 "=") ++ inlineValue value

/-- The fields of a record. -/
def fields (f : Format) : List (Text × Text) → Text
  | [] => []
  | (key, value) :: rest => f.field (!rest.isEmpty) key value ++ f.fields rest

/-- A message, with tabs widened to four spaces. -/
def message (text : Text) : Text :=
  text.flatMap fun b => if b = 9 then utf8 "    " else [b]

/-- The text of a record. -/
def line (f : Format) (r : Record) : Text :=
  Style.styled f.colored (utf8 "1;38;5;" ++ Decimal.ofNat r.level.color) r.level.label
    ++ utf8 " " ++ Style.styled f.colored (utf8 "1;2") (utf8 "KIZHI:")
    ++ utf8 " " ++ message r.message ++ f.fields r.fields ++ utf8 "\n"

/-- Is a record of this level written? -/
def shows (f : Format) (level : Level) : Bool :=
  f.verbose || decide (Level.warn.weight ≤ level.weight)

/-- The log of a record: its text, if it is written. -/
def ofRecord (f : Format) (r : Record) : Text :=
  if f.shows r.level then f.line r else []

/-- The log of some events. -/
def ofEvents (f : Format) (events : List Event) : Text :=
  events.flatMap fun
    | .note n => f.ofRecord n.record
    | _ => []

end Format

end LineScript.Log

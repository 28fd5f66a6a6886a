import LineScript.Text.Printable

/-!
# Quoted texts

Messages show names and lines between double quotes, with every byte that would not print
made visible. The escapes are shared with the log, which chooses differently only for the
character U+007F and for stray bytes.

## Main definitions

* `Escape.hex`: a number in lower-case hexadecimal digits
* `Escape.char`: the escape of a character that does not print
* `Text.quoted`: a text between quotes
-/

namespace LineScript

namespace Escape

/-- The byte of a hexadecimal digit below sixteen, in lower case. -/
def hexDigit (n : Nat) : UInt8 :=
  UInt8.ofNat (if n < 10 then 48 + n else 87 + n)

/-- The last `width` hexadecimal digits of `n`. -/
def hex : (width : Nat) → (n : Nat) → Text
  | 0, _ => []
  | width + 1, n => hex width (n / 16) ++ [hexDigit (n % 16)]

/-- The characters with an escape of a single letter. -/
def letter? (n : Nat) : Option Text :=
  match n with
  | 7 => some (utf8 "\\a")
  | 8 => some (utf8 "\\b")
  | 9 => some (utf8 "\\t")
  | 10 => some (utf8 "\\n")
  | 11 => some (utf8 "\\v")
  | 12 => some (utf8 "\\f")
  | 13 => some (utf8 "\\r")
  | _ => none

/-- A byte by its two hexadecimal digits. -/
def byte (n : Nat) : Text :=
  utf8 "\\x" ++ hex 2 n

/-- The escape of a character: by a letter if it has one, by two digits if `narrow` says so,
and otherwise by four digits or, beyond U+FFFF, eight. -/
def char (narrow : Nat → Bool) (c : Char) : Text :=
  let n := c.toNat
  match letter? n with
  | some t => t
  | none =>
    if narrow n then byte n
    else if n < 0x10000 then utf8 "\\u" ++ hex 4 n
    else utf8 "\\U" ++ hex 8 n

end Escape

namespace Glyph

/-- A glyph inside quotes: the quote and the backslash get a backslash, printable characters
stand for themselves, and everything else, stray bytes included, is escaped. -/
def quoted : Glyph → Text
  | .stray b => Escape.byte b.toNat
  | .char c =>
    if c = '"' ∨ c = '\\' then utf8 "\\" ++ String.utf8EncodeChar c
    else if isPrintable c then String.utf8EncodeChar c
    else Escape.char (fun n => n < 0x20 || n == 0x7F) c

end Glyph

/-- A text between double quotes, so that every byte of it can be read off. -/
def Text.quoted (t : Text) : Text :=
  utf8 "\"" ++ t.glyphs.flatMap Glyph.quoted ++ utf8 "\""

end LineScript

import LineScript.Text.Glyph

/-!
# White space and words

White space is Unicode's: a line may be indented, and its words separated, by any of its
twenty-five characters. Only well-formed encodings count; the bytes `0x85` and `0xA0` on
their own are ordinary.

## Main definitions

* `Glyph.isBlank`: is the glyph a white-space character?
* `Text.startsBlank`: does the text start with white space?
* `Text.words`: the maximal runs of other glyphs
* `Text.trim`: the text without white space at its ends
-/

namespace LineScript

/-- The white-space characters. -/
def isBlankChar (c : Char) : Bool :=
  let n := c.toNat
  (9 ≤ n && n ≤ 13) || n == 0x20 || n == 0x85 || n == 0xA0 || n == 0x1680
    || (0x2000 ≤ n && n ≤ 0x200A) || n == 0x2028 || n == 0x2029 || n == 0x202F
    || n == 0x205F || n == 0x3000

namespace Glyph

/-- White space is a property of characters; a stray byte is never blank. -/
def isBlank : Glyph → Bool
  | char c => isBlankChar c
  | stray _ => false

end Glyph

namespace Text

/-- Does the text start with white space? -/
def startsBlank (t : Text) : Bool :=
  (decode? t).any isBlankChar

@[simp] theorem startsBlank_nil : startsBlank [] = false := rfl

/-- Puts a finished word in front of others, unless it is empty. -/
def closeWord (word : Text) (words : List Text) : List Text :=
  if word.isEmpty then words else word :: words

/-- One step of the splitting, from right to left: `word` is the word that the glyph
continues or ends, `words` are those after it. -/
def prependGlyph (g : Glyph) : Text × List Text → Text × List Text
  | (word, words) =>
    if g.isBlank then ([], closeWord word words) else (g.bytes ++ word, words)

/-- The words of a text: the maximal runs of glyphs that are not blank. -/
def words (t : Text) : List Text :=
  let (word, words) := t.glyphs.foldr prependGlyph ([], [])
  closeWord word words

@[simp] theorem words_nil : words [] = [] := rfl

/-- The text without the white space at its two ends. -/
def trim (t : Text) : Text :=
  let front := t.glyphs.dropWhile Glyph.isBlank
  let both := (front.reverse.dropWhile Glyph.isBlank).reverse
  both.flatMap Glyph.bytes

end Text

end LineScript

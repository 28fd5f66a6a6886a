import LineScript.Text.Basic

/-!
# Characters of a text

A text is read as UTF-8 where it is well formed. `Text.decode?` gives the character whose
encoding starts a text; overlong forms, surrogates, truncated sequences and stray continuation
bytes start none. `Text.glyphs` cuts a whole text into characters and stray bytes.

## Main definitions

* `Text.decode?`: the character at the start of a text
* `Glyph`: a character, or a byte that belongs to none
* `Text.glyphs`: the glyphs of a text, which concatenate to the text
* `Text.chars?`: the characters of a text that is well formed throughout
-/

namespace LineScript

namespace Text

/-- The six bits that a continuation byte contributes. -/
def continuation? (b : UInt8) : Option Nat :=
  if 0x80 ≤ b.toNat ∧ b.toNat < 0xC0 then some (b.toNat - 0x80) else none

/-- The character with code point `value`, provided it is a Unicode scalar value and is not
below `least`, the first one that needs an encoding of this length. -/
def scalar? (least value : Nat) : Option Char :=
  if least ≤ value ∧ value.isValidChar then some (Char.ofNat value) else none

/-- The character whose UTF-8 encoding starts the text, if one does. -/
def decode? : Text → Option Char
  | [] => none
  | a :: t =>
    if a.toNat < 0x80 then some (Char.ofNat a.toNat)
    else if a.toNat < 0xC0 then none
    else if a.toNat < 0xE0 then
      match t with
      | b :: _ => do
        let x ← continuation? b
        scalar? 0x80 ((a.toNat - 0xC0) * 64 + x)
      | _ => none
    else if a.toNat < 0xF0 then
      match t with
      | b :: c :: _ => do
        let x ← continuation? b
        let y ← continuation? c
        scalar? 0x800 (((a.toNat - 0xE0) * 64 + x) * 64 + y)
      | _ => none
    else if a.toNat < 0xF8 then
      match t with
      | b :: c :: d :: _ => do
        let x ← continuation? b
        let y ← continuation? c
        let z ← continuation? d
        scalar? 0x10000 ((((a.toNat - 0xF0) * 64 + x) * 64 + y) * 64 + z)
      | _ => none
    else none

end Text

/-- What a text is made of: characters, and bytes that belong to no character. -/
inductive Glyph where
  | char (c : Char)
  | stray (b : UInt8)
  deriving DecidableEq, Repr

namespace Glyph

/-- The bytes a glyph stands for. -/
def bytes : Glyph → Text
  | char c => String.utf8EncodeChar c
  | stray b => [b]

end Glyph

namespace Text

/-- The glyphs of a text, the first `skip` bytes of which are the rest of a character that has
been read already. -/
def glyphsFrom : (skip : Nat) → Text → List Glyph
  | _, [] => []
  | skip + 1, _ :: t => glyphsFrom skip t
  | 0, b :: t =>
    match decode? (b :: t) with
    | some c => .char c :: glyphsFrom (c.utf8Size - 1) t
    | none => .stray b :: glyphsFrom 0 t

/-- The glyphs of a text, from left to right. -/
def glyphs (t : Text) : List Glyph :=
  glyphsFrom 0 t

@[simp] theorem glyphs_nil : glyphs [] = [] := rfl

/-- The characters of a text, if all of it is well-formed UTF-8. -/
def chars? (t : Text) : Option (List Char) :=
  t.glyphs.mapM fun
    | .char c => some c
    | .stray _ => none

/-- The UTF-8 encoding of a sequence of characters. -/
def ofChars (cs : List Char) : Text :=
  cs.flatMap String.utf8EncodeChar

end Text

end LineScript

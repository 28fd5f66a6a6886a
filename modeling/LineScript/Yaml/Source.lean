import LineScript.Text.Glyph

/-!
# Sources

A document is read from bytes in blocks, and a block is decoded when its first character is
needed. What cannot be decoded, or holds a control character, is noticed only with its block.
So a source is the characters of the blocks before the first one that cannot be read.

## Main definitions

* `Yaml.Encoding`: how characters are encoded
* `Yaml.Source`: the characters that can be read, and whether that is all of them
* `Yaml.Source.ofText`: the source of a text
-/

namespace LineScript.Yaml

/-- How characters are encoded. -/
inductive Encoding where
  | utf8
  | utf16 (bigEndian : Bool)
  deriving DecidableEq, Repr

/-- What a text starts with. -/
inductive Piece where
  | char (c : Char) (width : Nat)
  /-- The first bytes of what may be a character. -/
  | unfinished
  | invalid
  deriving DecidableEq, Repr

namespace Encoding

/-- The number of bytes in a UTF-8 character that starts with the byte. -/
def width? (b : UInt8) : Option Nat :=
  let n := b.toNat
  if n < 0x80 then some 1
  else if n < 0xC0 then none
  else if n < 0xE0 then some 2
  else if n < 0xF0 then some 3
  else if n < 0xF8 then some 4
  else none

/-- The first UTF-8 character of a text. -/
def nextUtf8 (b : UInt8) (t : Text) : Piece :=
  match width? b with
  | none => .invalid
  | some width =>
    if ((b :: t).drop (width - 1)).isEmpty then .unfinished
    else
      match Text.decode? (b :: t) with
      | some c => .char c width
      | none => .invalid

/-- The code unit of two bytes. -/
def unit (bigEndian : Bool) (a b : UInt8) : Nat :=
  if bigEndian then a.toNat * 256 + b.toNat else b.toNat * 256 + a.toNat

/-- The first UTF-16 character of a text. -/
def nextUtf16 (bigEndian : Bool) : Text → Piece
  | a :: b :: t =>
    let high := unit bigEndian a b
    if high < 0xD800 ∨ 0xE000 ≤ high then .char (Char.ofNat high) 2
    else if 0xDC00 ≤ high then .invalid
    else
      match t with
      | c :: d :: _ =>
        let low := unit bigEndian c d
        if 0xDC00 ≤ low ∧ low < 0xE000 then
          .char (Char.ofNat (0x10000 + (high - 0xD800) * 0x400 + (low - 0xDC00))) 4
        else .invalid
      | _ => .unfinished
  | _ => .unfinished

/-- The first character of a text that is not empty. -/
def next (e : Encoding) (b : UInt8) (t : Text) : Piece :=
  match e with
  | utf8 => nextUtf8 b t
  | utf16 bigEndian => nextUtf16 bigEndian (b :: t)

/-- The encoding that a byte order mark announces, and the number of its bytes. -/
def detect : Text → Encoding × Nat
  | 0xFF :: 0xFE :: _ => (utf16 false, 2)
  | 0xFE :: 0xFF :: _ => (utf16 true, 2)
  | 0xEF :: 0xBB :: 0xBF :: _ => (utf8, 3)
  | _ => (utf8, 0)

end Encoding

/-- The characters that a document may hold: no controls but tab and line ends. -/
def isAllowed (c : Char) : Bool :=
  let n := c.toNat
  n = 9 || n = 10 || n = 13 || (0x20 ≤ n && n ≤ 0x7E) || n = 0x85 || (0xA0 ≤ n && n ≤ 0xFFFD)
    || 0x10000 ≤ n

/-- The characters that can be read. -/
structure Source where
  chars : List Char
  /-- Are these all characters? If not, something unreadable follows. -/
  complete : Bool
  deriving DecidableEq, Repr

namespace Source

/-- The number of bytes in a block. -/
def blockSize : Nat := 512

/-- The characters of a block, the first `skip` bytes of which are the rest of a character that
has been read already, and the bytes of a character that goes on behind the block. -/
def block (e : Encoding) : (skip : Nat) → Text → Option (List Char × Text)
  | _, [] => some ([], [])
  | skip + 1, _ :: t => block e skip t
  | 0, b :: t =>
    match e.next b t with
    | .char c width =>
      if isAllowed c then (block e (width - 1) t).map fun (cs, rest) => (c :: cs, rest) else none
    | .unfinished => some ([], b :: t)
    | .invalid => none

/-- The source of a text whose first block has the given size. The fuel bounds the number of
blocks. -/
def blocks (e : Encoding) : (fuel : Nat) → (size : Nat) → Text → Source
  | 0, _, _ => ⟨[], false⟩
  | fuel + 1, size, t =>
    match block e 0 (t.take size) with
    | none => ⟨[], false⟩
    | some (cs, rest) =>
      match t.drop size with
      | [] => ⟨cs, rest.isEmpty⟩
      | more =>
        let source := blocks e fuel blockSize (rest ++ more)
        ⟨cs ++ source.chars, source.complete⟩

/-- The source of a text. A byte order mark is part of the first block. -/
def ofText (t : Text) : Source :=
  let (e, mark) := Encoding.detect t
  blocks e (t.length + 1) (blockSize - mark) (t.drop mark)

end Source

end LineScript.Yaml

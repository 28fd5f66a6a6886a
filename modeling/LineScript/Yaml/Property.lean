import LineScript.Yaml.Plain
import LineScript.Yaml.Token

/-!
# Anchors, tags and directives

A node can have an anchor, by which it is referred to elsewhere, and a tag, which tells its type.
A tag is a handle and a suffix; directives before a document tell what handles stand for.

## Main definitions

* `Yaml.Cursor.name`: the name of an anchor
* `Yaml.Cursor.tag`: a tag
* `Yaml.Cursor.directive`: a directive
-/

namespace LineScript.Yaml

/-- Can a name end before this character? -/
def endsName (c : Char) : Bool :=
  isWordEnd c || c = '?' || c = ':' || c = ',' || c = ']' || c = '}' || c = '%' || c = '@'
    || c = '\x60'

/-- The characters of tags besides those of names and escapes. -/
def isTagChar (c : Char) : Bool :=
  isNameChar c || c = ';' || c = '/' || c = '?' || c = ':' || c = '@' || c = '&' || c = '='
    || c = '+' || c = '$' || c = ',' || c = '.' || c = '!' || c = '~' || c = '*'
    || c = apostrophe || c = '(' || c = ')' || c = '[' || c = ']'

namespace Cursor

/-- The name behind the mark of an anchor, and the place behind it. -/
def name (p : Cursor) : Option (Text × Cursor) := do
  guard (p.skip.has 1)
  let (name, p) := p.skip.run isNameChar
  guard (p.has 1)
  guard (!name.isEmpty && endsName p.head)
  some (Text.ofChars name, p)

/-! ## Tags -/

/-- The byte of an escape in a tag. -/
def tagByte? (p : Cursor) : Option UInt8 := do
  guard (p.has 3 && p.head = '%')
  let high ← hexDigit? (p.look 1)
  let low ← hexDigit? (p.look 2)
  some (UInt8.ofNat (16 * high + low))

/-- So many further bytes of an escaped character. -/
def tagBytes : (count : Nat) → Cursor → Option (Text × Cursor)
  | 0, p => some ([], p)
  | count + 1, p => do
    let b ← p.tagByte?
    guard (0x80 ≤ b.toNat ∧ b.toNat < 0xC0)
    let (rest, p) ← tagBytes count (p.skipMany 3)
    some (b :: rest, p)

/-- The characters of a tag from this place on after the text `done`, whose last byte comes
first. -/
def tagFrom : (fuel : Nat) → (done : Text) → Cursor → Option (Text × Cursor)
  | 0, _, _ => none
  | fuel + 1, done, p =>
    if !p.has 1 then none
    else if p.head = '%' then do
      let b ← p.tagByte?
      let width ← Encoding.width? b
      let (more, p) ← tagBytes (width - 1) (p.skipMany 3)
      tagFrom fuel ((b :: more).reverse ++ done) p
    else if isTagChar p.head then
      tagFrom fuel ((String.utf8EncodeChar p.head).reverse ++ done) p.skip
    else some (done.reverse, p)

/-- The handle at this place: an exclamation mark, or a name between two of them. A name without
the second one is given as it is. -/
def handle (p : Cursor) : Option (Text × Cursor) := do
  guard (p.has 1 && p.head = '!')
  guard (p.skip.has 1)
  let (name, p) := p.skip.run isNameChar
  guard (p.has 1)
  if p.head = '!' then some (Text.ofChars ('!' :: name ++ ['!']), p.skip)
  else some (Text.ofChars ('!' :: name), p)

/-- Is a text a name between exclamation marks? -/
def isNamedHandle (t : Text) : Bool := 1 < t.length && t.getLast? = some 33

/-- The handle and the suffix of the tag at this place, and the place behind it. -/
def tag (fuel : Nat) (p : Cursor) : Option (Text × Text × Cursor) := do
  guard (p.has 2)
  let (handle, suffix, p) ←
    if p.look 1 = '<' then do
      let (suffix, p) ← tagFrom fuel [] (p.skipMany 2)
      guard (!suffix.isEmpty && p.head = '>')
      some ([], suffix, p.skip)
    else do
      let (handle, p) ← p.handle
      if isNamedHandle handle then do
        let (suffix, p) ← tagFrom fuel [] p
        guard (!suffix.isEmpty)
        some (handle, suffix, p)
      else do
        let (suffix, p) ← tagFrom fuel (handle.drop 1).reverse p
        some (if suffix.isEmpty then ([], handle, p) else (handle.take 1, suffix, p))
  guard (p.has 1 && isWordEnd p.head)
  some (handle, suffix, p)

/-! ## Directives -/

/-- A number of one or two digits, and the place behind it. -/
def versionNumber (p : Cursor) : Option (Nat × Cursor) := do
  guard (p.has 1)
  let (digits, p) := p.run fun c => (digit? c).isSome
  guard (p.has 1 && digits.length ≤ 2)
  match digits.mapM digit? with
  | some [a] => some (a, p)
  | some [a, b] => some (10 * a + b, p)
  | _ => none

/-- The content of a directive with the given name, and the place behind it. -/
def directiveContent (fuel : Nat) (name : List Char) (p : Cursor) : Option (Symbol × Cursor) := do
  let p := p.skipWhile isBlank
  guard (p.has 1)
  if name = ['Y', 'A', 'M', 'L'] then do
    let (major, p) ← p.versionNumber
    guard (p.head = '.')
    let (minor, p) ← p.skip.versionNumber
    some (.version major minor, p)
  else if name = ['T', 'A', 'G'] then do
    let (handle, p) ← p.handle
    guard (handle = [33] || isNamedHandle handle)
    guard (p.has 1 && isBlank p.head)
    let p := p.skipWhile isBlank
    guard (p.has 1)
    let (text, p) ← tagFrom fuel [] p
    guard (!text.isEmpty && isWordEnd p.head)
    some (.handle handle text, p)
  else none

/-- The directive at this place, which fills its line, and the place behind that line. -/
def directive (fuel : Nat) (p : Cursor) : Option (Symbol × Cursor) := do
  guard (p.skip.has 1)
  let (name, p) := p.skip.run isNameChar
  guard (p.has 1 && !name.isEmpty && isWordEnd p.head)
  let (symbol, p) ← p.directiveContent fuel name
  let p := p.skipWhile isBlank
  guard (p.has 1)
  let p := if p.head = '#' then p.skipToLineEnd else p
  guard (p.has 1 && isLineEnd p.head)
  guard (!isBreak p.head || p.has 2)
  some (symbol, if isBreak p.head then p.skipLine else p)

end Cursor

end LineScript.Yaml

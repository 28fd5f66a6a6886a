import LineScript.Yaml.Source

/-!
# Cursors

A cursor is a place in a source. It knows how many characters and lines lie before it. Behind
the last character of a complete source there is no end of nulls, which occur nowhere else;
behind that of an incomplete one nothing can be looked at.

## Main definitions

* `Yaml.Cursor`: a place in a source
* `Yaml.Cursor.has`: can so many characters be looked at?
* `Yaml.Cursor.skip`, `Yaml.Cursor.skipLine`, `Yaml.Cursor.skipWhile`: further places
* `Yaml.Cursor.comments`, `Yaml.Cursor.lineComment`: the place behind comments
* `Yaml.Cursor.toToken`: the place of the next token
-/

namespace LineScript.Yaml

/-! ## Characters -/

/-- What is seen behind the last character. -/
def endMark : Char := '\x00'

/-- Blanks separate the parts of a line. -/
def isBlank (c : Char) : Bool := c = ' ' || c = '\t'

/-- The characters that end a line. -/
def isBreak (c : Char) : Bool :=
  c = '\n' || c = '\r' || c = '\u0085' || c = '\u2028' || c = '\u2029'

/-- Does a line end here? -/
def isLineEnd (c : Char) : Bool := isBreak c || c = endMark

/-- Does a word end here? -/
def isWordEnd (c : Char) : Bool := isBlank c || isLineEnd c

/-- The characters of names: letters, digits, underscore and dash, all ASCII. -/
def isNameChar (c : Char) : Bool :=
  let n := c.toNat
  (48 ≤ n && n ≤ 57) || (65 ≤ n && n ≤ 90) || (97 ≤ n && n ≤ 122) || c = '_' || c = '-'

/-- The value of a decimal digit. -/
def digit? (c : Char) : Option Nat :=
  if 48 ≤ c.toNat ∧ c.toNat ≤ 57 then some (c.toNat - 48) else none

/-- The value of a hexadecimal digit. -/
def hexDigit? (c : Char) : Option Nat :=
  let n := c.toNat
  if 48 ≤ n ∧ n ≤ 57 then some (n - 48)
  else if 97 ≤ n ∧ n ≤ 102 then some (n - 87)
  else if 65 ≤ n ∧ n ≤ 70 then some (n - 55)
  else none

/-! ## Places -/

/-- A place in a source. -/
structure Cursor where
  /-- The characters from here on. -/
  rest : List Char
  complete : Bool
  /-- The number of characters before this place. -/
  index : Nat
  /-- The number of lines before this one. -/
  line : Nat
  /-- The number of characters before this place on its line. -/
  column : Nat
  deriving DecidableEq, Repr

namespace Cursor

/-- The start of a source. -/
def ofSource (s : Source) : Cursor := ⟨s.chars, s.complete, 0, 0, 0⟩

/-- The character at this place. -/
def head (p : Cursor) : Char := p.rest.headD endMark

/-- The character `n` places further on. -/
def look (p : Cursor) (n : Nat) : Char := p.rest.getD n endMark

/-- Can `n` characters be looked at? -/
def has (p : Cursor) (n : Nat) : Bool :=
  p.complete || n = 0 || !(p.rest.drop (n - 1)).isEmpty

/-- Is this the end? -/
def atEnd (p : Cursor) : Bool := p.head = endMark

/-- The place behind one character. -/
def skip (p : Cursor) : Cursor :=
  { p with rest := p.rest.tail, index := p.index + 1, column := p.column + 1 }

/-- The place behind `n` characters of one line. -/
def skipMany (p : Cursor) (n : Nat) : Cursor :=
  { p with rest := p.rest.drop n, index := p.index + n, column := p.column + n }

/-- The place behind a line end. CR LF ends one line. -/
def skipLine (p : Cursor) : Cursor :=
  match p.rest with
  | '\r' :: '\n' :: rest =>
    { p with rest := rest, index := p.index + 2, line := p.line + 1, column := 0 }
  | _ :: rest => { p with rest := rest, index := p.index + 1, line := p.line + 1, column := 0 }
  | [] => p

/-- What a line end stands for in a scalar. -/
def lineBreak (p : Cursor) : Char :=
  if p.head = '\u2028' || p.head = '\u2029' then p.head else '\n'

/-- The characters of one line from here on that satisfy `f`, and the place behind them. -/
def run (p : Cursor) (f : Char → Bool) : List Char × Cursor :=
  let (taken, rest) := p.rest.span f
  (taken, { p with
    rest := rest, index := p.index + taken.length, column := p.column + taken.length })

/-- The place behind the characters of one line that satisfy `f`. -/
def skipWhile (p : Cursor) (f : Char → Bool) : Cursor := (p.run f).2

/-- The place behind everything on this line. -/
def skipToLineEnd (p : Cursor) : Cursor := p.skipWhile fun c => !isLineEnd c

/-- The place with the given index, further on. -/
def skipTo (target : Nat) : (fuel : Nat) → Cursor → Cursor
  | 0, p => p
  | fuel + 1, p =>
    if target ≤ p.index then p
    else skipTo target fuel (if isBreak p.head then p.skipLine else p.skip)

/-- Does a line start here with three dashes or three dots, alone or before a blank? -/
def atMarker (p : Cursor) : Bool :=
  p.column = 0 && isWordEnd (p.look 3) &&
    (['-', '-', '-'].isPrefixOf p.rest || ['.', '.', '.'].isPrefixOf p.rest)

/-! ## Comments -/

/-- How far comments are looked for ahead. -/
def commentReach : Nat := 512

/-- The number of characters at the start that satisfy `f`, up to a limit. -/
def countWhile (f : Char → Bool) : (limit : Nat) → List Char → Nat
  | limit + 1, c :: cs => if f c then countWhile f limit cs + 1 else 0
  | _, _ => 0

/-- The place behind the comment that starts here and all comments that follow it with only
blanks and line ends between. -/
def comments : (fuel : Nat) → Cursor → Option Cursor
  | 0, _ => none
  | fuel + 1, p => do
    let p := p.skipToLineEnd
    guard (p.has 1)
    if p.head = '\n' || p.head = '\r' then
      let isGap := fun c => isBlank c || c = '\n' || c = '\r'
      let n := countWhile isGap (commentReach - 1) p.rest.tail + 1
      guard (p.has (min (n + 1) commentReach))
      if n < commentReach && p.look n = '#' then
        comments fuel (skipTo (p.index + n) n p)
      else some p
    else do
      guard (p.has 2)
      some p

/-- The place behind a comment on the same line, if only blanks stand before it. -/
def lineComment (p : Cursor) : Option Cursor := do
  let n := countWhile isBlank commentReach p.rest
  guard (p.has (min (n + 1) commentReach))
  if n < commentReach && p.look n = '#' then
    let p := (p.skipMany n).skipToLineEnd
    guard (p.has 1)
    some p
  else some p

/-! ## Tokens -/

/-- The place of the next token, behind blanks, comments and line ends. In block context a tab
does not count as a blank where a key may start, and a key may start on every new line. -/
def toToken (flow : Bool) : (fuel : Nat) → (keyAllowed : Bool) → Cursor → Option (Bool × Cursor)
  | 0, _, _ => none
  | fuel + 1, keyAllowed, p => do
    guard (p.has 1)
    let p := if p.index = 0 && p.head = '\uFEFF' then p.skip else p
    guard (p.has 1)
    let p := p.skipWhile fun c => c = ' ' || ((flow || !keyAllowed) && c = '\t')
    guard (p.has 1)
    let p ← if p.head = '#' then comments fuel p else some p
    if isBreak p.head then do
      guard (p.has 2)
      toToken flow fuel (keyAllowed || !flow) p.skipLine
    else some (keyAllowed, p)

end Cursor

end LineScript.Yaml

import LineScript.Yaml.Gap

/-!
# Plain scalars

A plain scalar has no delimiters. It goes on, also over line ends, until a colon before a blank,
a comment, a mark of a flow collection inside one, or a line that is not indented enough.

## Main definitions

* `Yaml.startsPlain`: can a plain scalar start here?
* `Yaml.Cursor.plain`: the plain scalar at a place
-/

namespace LineScript.Yaml

/-- The single quote. -/
def apostrophe : Char := '\x27'

/-- The characters that end a plain scalar in a flow collection. -/
def isFlowMark (c : Char) : Bool :=
  c = ',' || c = '[' || c = ']' || c = '{' || c = '}' || c = '?'

/-- The characters that start no plain scalar. -/
def isIndicator (c : Char) : Bool :=
  c = ',' || c = '[' || c = ']' || c = '{' || c = '}' || c = '#' || c = '&' || c = '*'
    || c = '!' || c = '|' || c = '>' || c = apostrophe || c = '"' || c = '%' || c = '@'
    || c = '\x60'

/-- Can a plain scalar start with `c` before `d`? A dash can start one if no blank follows, and
so can, outside flow collections, a question mark and a colon. -/
def startsPlain (flow : Bool) (c d : Char) : Bool :=
  if isWordEnd c || isIndicator c then false
  else if c = '-' then !isBlank d
  else if c = '?' || c = ':' then !flow && !isWordEnd d
  else true

/-- A word of a plain scalar, and what follows it. -/
def plainWord (flow : Bool) : List Char → List Char × List Char
  | [] => ([], [])
  | c :: rest =>
    if isWordEnd c || (c = ':' && isWordEnd (rest.headD endMark)) || (flow && isFlowMark c) then
      ([], c :: rest)
    else
      let (word, rest) := plainWord flow rest
      (c :: word, rest)

namespace Cursor

/-- The words of a plain scalar from this place on, after the text `done`, whose last character
comes first, and the gap `g`. Tells also whether lines end behind the last word. -/
def plainFrom (flow : Bool) (limit : Nat) :
    (fuel : Nat) → (done : List Char) → Gap → Cursor → Option (List Char × Bool × Cursor)
  | 0, _, _, _ => none
  | fuel + 1, done, g, p =>
    if !p.has 4 then none
    else if p.atMarker || p.head = '#' then some (done.reverse, g.folded, p)
    else
      let (word, rest) := plainWord flow p.rest
      if word.isEmpty then some (done.reverse, g.folded, p)
      else
        let n := word.length
        let p := { p with rest := rest, index := p.index + n, column := p.column + n }
        let done := word.reverseAux (g.text.reverseAux done)
        if !p.has 2 then none
        else if isBlank p.head || isBreak p.head then do
          let (g, p) ← p.gap limit fuel .empty
          if !flow && p.column < limit then some (done.reverse, g.folded, p)
          else plainFrom flow limit fuel done g p
        else some (done.reverse, false, p)

/-- The plain scalar at this place, whether lines end behind it, and the place behind it. In block
context its further lines are indented by `limit` at least. -/
def plain (flow : Bool) (limit fuel : Nat) (p : Cursor) : Option (List Char × Bool × Cursor) :=
  plainFrom flow limit fuel [] .empty p

end Cursor

end LineScript.Yaml

import LineScript.Yaml.Plain

/-!
# Quoted scalars

A scalar between single quotes holds a quote by writing it twice. One between double quotes has
escapes. Both may go on over line ends.

## Main definitions

* `Yaml.escape?`: the escapes
* `Yaml.Cursor.quoted`: the quoted scalar at a place
-/

namespace LineScript.Yaml

/-- The escapes of a single letter. -/
def letterEscape? (c : Char) : Option Char :=
  match c with
  | '0' => some '\x00'
  | 'a' => some '\x07'
  | 'b' => some '\x08'
  | 't' => some '\t'
  | '\t' => some '\t'
  | 'n' => some '\n'
  | 'v' => some '\x0b'
  | 'f' => some '\x0c'
  | 'r' => some '\r'
  | 'e' => some '\x1b'
  | ' ' => some ' '
  | '"' => some '"'
  | '\x27' => some '\x27'
  | '\\' => some '\\'
  | 'N' => some '\u0085'
  | '_' => some '\u00A0'
  | 'L' => some '\u2028'
  | 'P' => some '\u2029'
  | _ => none

/-- The number of hexadecimal digits after a letter that announces them. -/
def escapeWidth? (c : Char) : Option Nat :=
  match c with
  | 'x' => some 2
  | 'u' => some 4
  | 'U' => some 8
  | _ => none

/-- The number that hexadecimal digits spell after others that spell `n`. -/
def hexFrom? (n : Nat) : List Char → Option Nat
  | [] => some n
  | c :: rest => do hexFrom? (16 * n + (← hexDigit? c)) rest

namespace Cursor

/-- The character of the escape at this place, and the place behind it. -/
def escape? (p : Cursor) : Option (Char × Cursor) :=
  match letterEscape? (p.look 1) with
  | some c => some (c, p.skipMany 2)
  | none => do
    let width ← escapeWidth? (p.look 1)
    let p := p.skipMany 2
    guard (p.has width)
    let digits := p.rest.take width
    let n ← hexFrom? 0 digits
    if digits.length = width ∧ n.isValidChar then some (Char.ofNat n, p.skipMany width) else none

/-- The characters of a quoted scalar up to a blank, a line end or the closing quote, after the
text `done`, whose last character comes first. Tells also whether the line end is escaped. -/
def quotedWord (single : Bool) :
    (fuel : Nat) → (done : List Char) → Cursor → Option (List Char × Bool × Cursor)
  | 0, _, _ => none
  | fuel + 1, done, p =>
    let c := p.head
    if isWordEnd c then some (done, false, p)
    else if single && c = apostrophe then
      if p.look 1 = apostrophe then
        let p := p.skipMany 2
        if p.has 2 then quotedWord single fuel (apostrophe :: done) p else none
      else some (done, false, p)
    else if !single && c = '"' then some (done, false, p)
    else if !single && c = '\\' then
      if isBreak (p.look 1) then
        if p.has 3 then some (done, true, p.skip.skipLine) else none
      else
        match p.escape? with
        | some (e, p) => if p.has 2 then quotedWord single fuel (e :: done) p else none
        | none => none
    else
      let p := p.skip
      if p.has 2 then quotedWord single fuel (c :: done) p else none

/-- The rest of a quoted scalar after the text `done`, whose last character comes first. -/
def quotedFrom (single : Bool) :
    (fuel : Nat) → (done : List Char) → Cursor → Option (List Char × Cursor)
  | 0, _, _ => none
  | fuel + 1, done, p =>
    if !p.has 4 || p.atMarker || p.atEnd then none
    else do
      let (done, escaped, p) ← p.quotedWord single fuel done
      guard (p.has 1)
      if p.head = (if single then apostrophe else '"') then some (done.reverse, p.skip)
      else
        let (g, p) ← p.gap 0 fuel (if escaped then .joined else .empty)
        let between := if escaped then g.joinedText else g.text
        quotedFrom single fuel (between.reverseAux done) p

/-- The quoted scalar at this place, and the place behind it. -/
def quoted (single : Bool) (fuel : Nat) (p : Cursor) : Option (List Char × Cursor) :=
  p.skip.quotedFrom single fuel []

end Cursor

end LineScript.Yaml

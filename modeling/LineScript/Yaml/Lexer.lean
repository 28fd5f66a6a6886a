import LineScript.Yaml.Block
import LineScript.Yaml.Property
import LineScript.Yaml.Quoted

/-!
# From a source to tokens

Tokens are found from left to right. Indentation opens and closes block collections. Whether a
node is a key is known only at the colon behind it, on the same line and not too far away: the
marks for the key are then put in front of the node.

A reader of tokens looks at two tokens behind the one it is at, and as far as needed to tell
whether that one starts a key. Only then are these tokens found. So an error is noticed only by a
reader who gets close to it, and the tokens of a source with an error end where a reader would
notice it. At an empty flow collection a reader does not wait for a colon; if one comes after the
reader has gone on, it is too late for the marks in front.

## Main definitions

* `Yaml.KeyMark`: a place where a key may have started
* `Yaml.Lexer`: what is known between two tokens
* `Yaml.Lexer.fetch`: the next token
* `Yaml.tokens`: the tokens of a source
-/

namespace LineScript.Yaml

/-- A place where a key may have started. -/
structure KeyMark where
  /-- The number of tokens before the node. -/
  number : Nat
  /-- Must this be a key, since the indentation says so? -/
  required : Bool
  index : Nat
  line : Nat
  column : Nat
  /-- Does a reader wait here to see whether it is a key? -/
  awaited : Bool
  deriving DecidableEq, Repr

namespace KeyMark

/-- The greatest distance of the colon from the start of a key. -/
def reach : Nat := 1024

/-- Is it too late for the colon? -/
def isExpired (k : KeyMark) (p : Cursor) : Bool :=
  k.line < p.line || k.index + reach < p.index

end KeyMark

/-- What is known between two tokens. -/
structure Lexer where
  cursor : Cursor
  /-- The columns of the open block collections, the innermost first. -/
  columns : List Nat
  /-- Where a key may have started in the innermost flow collection, or outside all of them. -/
  mark : Option KeyMark
  /-- The number of tokens before the last place where one may have started, or else before the
  start of the collection. -/
  latest : Nat
  /-- The same for the collections around it; there are as many as open flow collections. -/
  outer : List (Option KeyMark × Nat)
  /-- May a key start here? -/
  keyAllowed : Bool
  /-- The number of tokens. -/
  count : Nat
  /-- The tokens, the last one first. -/
  tokens : List Token

namespace Lexer

/-- The lexer at the start of a source. -/
def ofSource (s : Source) : Lexer where
  cursor := .ofSource s
  columns := []
  mark := none
  latest := 0
  outer := []
  keyAllowed := true
  count := 0
  tokens := []

/-- How deep collections can be nested. -/
def maxDepth : Nat := 10000

/-- Is this place in a flow collection? -/
def inFlow (s : Lexer) : Bool := !s.outer.isEmpty

/-- Adds a token. -/
def emit (s : Lexer) (line : Nat) (symbol : Symbol) : Lexer :=
  { s with count := s.count + 1, tokens := ⟨line, symbol⟩ :: s.tokens }

/-- Puts a token in front of the one with the given number. -/
def insert (s : Lexer) (number line : Nat) (symbol : Symbol) : Lexer :=
  let (later, earlier) := s.tokens.splitAt (s.count - number)
  { s with count := s.count + 1, tokens := later ++ ⟨line, symbol⟩ :: earlier }

/-! ## Keys -/

/-- Gives up the key that may have started, unless there must be one. -/
def dropMark (s : Lexer) : Option Lexer :=
  match s.mark with
  | some k => if k.required then none else some { s with mark := none }
  | none => some s

/-- Notes that a key may start here, if that is allowed. -/
def setMark (s : Lexer) : Option Lexer :=
  if s.keyAllowed then do
    let p := s.cursor
    let required := !s.inFlow && s.columns.head? = some p.column
    let mark : KeyMark := ⟨s.count, required, p.index, p.line, p.column, true⟩
    let s ← s.dropMark
    some { s with mark := some mark, latest := s.count }
  else some s

/-- The key that has started and can still have its colon here. It is an error if there must be
one and it cannot. -/
def liveMark? (s : Lexer) : Option (Option KeyMark) :=
  match s.mark with
  | some k =>
    if k.isExpired s.cursor then if k.required then none else some none
    else some (some k)
  | none => some none

/-- The number of the token that a reader is at when the next token is found: the last but one,
or one that may start a key. -/
def readerAt (s : Lexer) : Nat :=
  let isAwaited := fun (k : KeyMark) => k.awaited && (k.required || !k.isExpired s.cursor)
  ((s.mark, s.latest) :: s.outer).foldl
    (fun n level =>
      match level.1.filter isAwaited with
      | some k => min n k.number
      | none => n)
    (s.count - 2)

/-! ## Indentation -/

/-- Does the column lie right of all open block collections? -/
def isDeeper (s : Lexer) (column : Nat) : Bool :=
  match s.columns.head? with
  | some c => c < column
  | none => true

/-- Opens a block collection at the column, if it lies deep enough, in front of the token with
the given number. -/
def openBlock (s : Lexer) (column number line : Nat) (symbol : Symbol) : Option Lexer :=
  if s.inFlow || !s.isDeeper column then some s
  else if maxDepth ≤ s.columns.length then none
  else some ({ s with columns := column :: s.columns }.insert number line symbol)

/-- Closes so many block collections. -/
def closeMany : Nat → Lexer → Lexer
  | 0, s => s
  | n + 1, s => closeMany n ({ s with columns := s.columns.tail }.emit s.cursor.line .blockEnd)

/-- Closes the block collections that lie right of the column. -/
def closeBlocks (s : Lexer) (column : Nat) : Lexer :=
  if s.inFlow then s else closeMany (s.columns.takeWhile (column < ·)).length s

/-- Closes all block collections. -/
def closeAll (s : Lexer) : Lexer :=
  if s.inFlow then s else closeMany s.columns.length s

/-! ## Tokens -/

/-- Goes behind a comment on the line of the last token. -/
def comment (s : Lexer) : Option Lexer := do
  let p ← s.cursor.lineComment
  some { s with cursor := p }

/-- Takes an indicator of one character. -/
def indicator (s : Lexer) (symbol : Symbol) : Option Lexer :=
  { s with cursor := s.cursor.skip }.emit s.cursor.line symbol |>.comment

/-- Opens a flow collection, which may be a key. -/
def openFlow (s : Lexer) (symbol : Symbol) : Option Lexer := do
  let s ← s.setMark
  guard (s.outer.length < maxDepth)
  { s with
    mark := none, latest := s.count, outer := (s.mark, s.latest) :: s.outer,
    keyAllowed := true }.indicator symbol

/-- Closes a flow collection. If no key may have started in it, its start is no longer awaited. -/
def closeFlow (s : Lexer) (symbol : Symbol) : Option Lexer := do
  let s ← s.dropMark
  let s := match s.outer with
    | (mark, latest) :: outer =>
      let mark := mark.map fun (k : KeyMark) =>
        if k.number = s.latest then { k with awaited := false } else k
      { s with mark := mark, latest := latest, outer := outer }
    | [] => s
  { s with keyAllowed := false }.indicator symbol

/-- Takes a comma. -/
def comma (s : Lexer) : Option Lexer := do
  let s ← s.dropMark
  { s with keyAllowed := true }.indicator .comma

/-- Takes the dash before an item. -/
def item (s : Lexer) : Option Lexer := do
  guard (s.inFlow || s.keyAllowed)
  let s ← s.openBlock s.cursor.column s.count s.cursor.line .blockSequence
  let s ← s.dropMark
  some ({ s with keyAllowed := true, cursor := s.cursor.skip }.emit s.cursor.line .item)

/-- Takes the question mark before a key. -/
def key (s : Lexer) : Option Lexer := do
  guard (s.inFlow || s.keyAllowed)
  let s ← s.openBlock s.cursor.column s.count s.cursor.line .blockMapping
  let s ← s.dropMark
  { s with keyAllowed := !s.inFlow }.indicator .key

/-- Takes the colon before a value, which may make a key of the node before it. -/
def value (s : Lexer) : Option Lexer := do
  match ← s.liveMark? with
  | some k =>
    let isPassed := !k.awaited && k.number < s.readerAt
    let s := s.insert (if isPassed then s.count else k.number) k.line .key
    let s ← s.openBlock k.column (if isPassed then s.count else k.number) k.line .blockMapping
    { s with mark := none, keyAllowed := false }.indicator .value
  | none =>
    guard (s.inFlow || s.keyAllowed)
    let s ← s.openBlock s.cursor.column s.count s.cursor.line .blockMapping
    { s with keyAllowed := !s.inFlow }.indicator .value

/-- Takes an anchor or a reference to one. -/
def name (s : Lexer) (symbol : Text → Symbol) : Option Lexer := do
  let s ← s.setMark
  let (name, p) ← s.cursor.name
  { s with cursor := p, keyAllowed := false }.emit s.cursor.line (symbol name) |>.comment

/-- Takes a tag. -/
def tag (fuel : Nat) (s : Lexer) : Option Lexer := do
  let s ← s.setMark
  let (handle, suffix, p) ← s.cursor.tag fuel
  { s with cursor := p, keyAllowed := false }.emit s.cursor.line (.tag handle suffix) |>.comment

/-- Takes a block scalar. -/
def block (fuel : Nat) (literal : Bool) (s : Lexer) : Option Lexer := do
  let s ← s.dropMark
  let (text, p) ← s.cursor.block literal s.columns.head? fuel
  some ({ s with cursor := p, keyAllowed := true }.emit s.cursor.line
    (.scalar false (Text.ofChars text)))

/-- Takes a quoted scalar. -/
def quoted (fuel : Nat) (single : Bool) (s : Lexer) : Option Lexer := do
  let s ← s.setMark
  let (text, p) ← s.cursor.quoted single fuel
  { s with cursor := p, keyAllowed := false }.emit s.cursor.line
    (.scalar false (Text.ofChars text)) |>.comment

/-- Takes a plain scalar. If lines end behind it, a key may start there. -/
def plain (fuel : Nat) (s : Lexer) : Option Lexer := do
  let s ← s.setMark
  let limit := match s.columns.head? with
    | some n => n + 1
    | none => 0
  let (text, ended, p) ← s.cursor.plain s.inFlow limit fuel
  let s := { s with cursor := p, keyAllowed := ended }.emit s.cursor.line
    (.scalar true (Text.ofChars text))
  if ended then some s else s.comment

/-- Takes a token within a document. -/
def content (fuel : Nat) (s : Lexer) : Option Lexer :=
  let c := s.cursor.head
  let d := s.cursor.look 1
  if c = '[' then s.openFlow .flowSequence
  else if c = '{' then s.openFlow .flowMapping
  else if c = ']' then s.closeFlow .flowSequenceEnd
  else if c = '}' then s.closeFlow .flowMappingEnd
  else if c = ',' then s.comma
  else if c = '-' && isWordEnd d then s.item
  else if c = '?' && (s.inFlow || isWordEnd d) then s.key
  else if c = ':' && (s.inFlow || isWordEnd d) then s.value
  else if c = '*' then s.name .reference
  else if c = '&' then s.name .anchor
  else if c = '!' then s.tag fuel
  else if c = '|' && !s.inFlow then s.block fuel true
  else if c = '>' && !s.inFlow then s.block fuel false
  else if c = apostrophe then s.quoted fuel true
  else if c = '"' then s.quoted fuel false
  else if startsPlain s.inFlow c d then s.plain fuel
  else none

/-- Ends everything that is open, before a directive, a marker or the end. -/
def finish (s : Lexer) : Option Lexer := do
  let s ← s.closeAll.dropMark
  some { s with keyAllowed := false }

/-- Takes the next token. -/
def fetch (fuel : Nat) (s : Lexer) : Option Lexer := do
  guard (s.cursor.has 1)
  let (keyAllowed, p) ← s.cursor.toToken s.inFlow fuel s.keyAllowed
  let s := { s with keyAllowed := keyAllowed, cursor := p }.closeBlocks p.column
  guard (p.has 4)
  if p.atEnd then do
    let line := if p.column = 0 then p.line else p.line + 1
    let s ← { s with cursor := { p with line := line, column := 0 } }.finish
    some (s.emit line .streamEnd)
  else if p.column = 0 && p.head = '%' then do
    let s ← s.finish
    let (symbol, q) ← p.directive fuel
    some ({ s with cursor := q }.emit p.line symbol)
  else if p.atMarker then do
    let s ← s.finish
    some ({ s with cursor := p.skipMany 3 }.emit p.line
      (if p.head = '-' then .documentStart else .documentEnd))
  else s.content fuel

/-! ## All tokens -/

/-- The tokens from here on until the end, or until a reader notices an error. -/
def run : (fuel : Nat) → Lexer → List Token
  | 0, _ => []
  | fuel + 1, s =>
    match s.fetch fuel with
    | none => s.tokens.reverse.take s.readerAt
    | some next =>
      match next.tokens with
      | ⟨_, .streamEnd⟩ :: _ => next.tokens.reverse
      | _ => run fuel next

end Lexer

/-- The tokens of a source. Without an error they end with the end of everything. -/
def tokens (s : Source) : List Token :=
  Lexer.run (s.chars.length + 4) (.ofSource s)

end LineScript.Yaml

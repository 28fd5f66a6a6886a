import LineScript.Yaml.Gap

/-!
# Block scalars

A block scalar is made of the lines below its indicator that are indented. A literal one keeps
its line ends, a folded one joins lines. The line ends behind its last line are kept, cut to one,
or dropped.

## Main definitions

* `Yaml.Chomping`: what happens to the last line ends
* `Yaml.Cursor.block`: the block scalar at a place
-/

namespace LineScript.Yaml

/-- What happens to the line ends behind the last line. -/
inductive Chomping where
  | clip
  | keep
  | strip
  deriving DecidableEq, Repr

/-- The chomping that a character asks for. -/
def Chomping.ofChar? (c : Char) : Option Chomping :=
  if c = '+' then some .keep else if c = '-' then some .strip else none

/-- The indentation that a character asks for. -/
def indentation? (c : Char) : Option Nat := digit? c

namespace Cursor

/-- The place behind an optional mark that `f` recognizes, and its meaning. -/
def option {α : Type} (f : Char → Option α) (p : Cursor) : Option (Option α × Cursor) :=
  match f p.head with
  | some a => if p.skip.has 1 then some (some a, p.skip) else none
  | none => some (none, p)

/-- The chomping and the indentation behind the indicator, in either order, and the place behind
that line. -/
def blockHeader (p : Cursor) : Option (Chomping × Option Nat × Cursor) := do
  guard (p.has 1)
  let (early, p) ← p.option Chomping.ofChar?
  let (indentation, p) ← p.option indentation?
  let (late, p) ← if early.isNone && indentation.isSome then p.option Chomping.ofChar?
    else some (none, p)
  guard (indentation ≠ some 0)
  let p := p.skipWhile isBlank
  guard (p.has 1)
  let p := if p.head = '#' then p.skipToLineEnd else p
  guard (p.has 1 && isLineEnd p.head)
  guard (!isBreak p.head || p.has 2)
  some ((early.or late).getD .clip, indentation, if isBreak p.head then p.skipLine else p)

/-- The place behind empty lines and the indentation of the next line. Gives also the line ends,
the last one first, after others, and the widest indentation seen. Without a known indentation
all spaces count. -/
def blockBreaks (indentation : Option Nat) :
    (fuel : Nat) → (widest : Nat) → (breaks : List Char) → Cursor →
      Option (Nat × List Char × Cursor)
  | 0, _, _, _ => none
  | fuel + 1, widest, breaks, p =>
    let spaces := match indentation with
      | some n => countWhile (· = ' ') (n - p.column) p.rest
      | none => (p.rest.takeWhile (· = ' ')).length
    let p := p.skipMany spaces
    let widest := max widest p.column
    let isShort := match indentation with
      | some n => p.column < n
      | none => true
    if !p.has 1 || (isShort && p.head = '\t') then none
    else if isBreak p.head then
      if p.has 2 then blockBreaks indentation fuel widest (p.lineBreak :: breaks) p.skipLine
      else none
    else some (widest, breaks, p)

/-- The lines of a block scalar after the text `done`, the line end before them and the empty
lines before them, all with the last character first. Gives the text, its last line end and the
line ends behind that. -/
def blockLines (literal : Bool) (indentation : Nat) :
    (fuel : Nat) → (done : List Char) → (lineEnd : List Char) → (empty : List Char) →
      (blankBefore : Bool) → Cursor → Option (List Char × List Char × List Char × Cursor)
  | 0, _, _, _, _, _ => none
  | fuel + 1, done, lineEnd, empty, blankBefore, p =>
    if p.column = indentation && !p.atEnd then do
      let blank := isBlank p.head
      let between :=
        if !literal && !blankBefore && !blank && lineEnd = ['\n'] then
          if empty.isEmpty then [' '] else empty
        else empty ++ lineEnd
      let (line, p) := p.run fun c => !isLineEnd c
      guard (p.has 2)
      let (lineEnd, p) := if isBreak p.head then ([p.lineBreak], p.skipLine) else ([], p)
      let (_, empty, p) ← p.blockBreaks (some indentation) fuel 0 []
      blockLines literal indentation fuel (line.reverseAux (between ++ done)) lineEnd empty blank p
    else some (done, lineEnd, empty, p)

/-- The block scalar at this place, below a node of the given indentation, and the place behind
it. -/
def block (literal : Bool) (parent : Option Nat) (fuel : Nat) (p : Cursor) :
    Option (List Char × Cursor) := do
  let (chomping, indentation, p) ← p.skip.blockHeader
  let indentation := indentation.map fun n => parent.getD 0 + n
  let (widest, empty, p) ← p.blockBreaks indentation fuel 0 []
  let least := match parent with
    | some n => n + 1
    | none => 1
  let indentation := indentation.getD (max widest least)
  guard (p.has 1)
  let (done, lineEnd, empty, p) ← p.blockLines literal indentation fuel [] [] empty false
  let text := match chomping with
    | .strip => done
    | .clip => lineEnd ++ done
    | .keep => empty ++ (lineEnd ++ done)
  some (text.reverse, p)

end Cursor

end LineScript.Yaml

import LineScript.Yaml.Cursor

/-!
# Gaps

Within a scalar, blanks and line ends separate words. Blanks on one line are kept. A single line
end folds into a space; of several, the first is dropped.

## Main definitions

* `Yaml.Gap`: blanks or line ends between words
* `Yaml.Gap.text`: what a gap stands for
* `Yaml.Cursor.gap`: the gap at a place
-/

namespace LineScript.Yaml

/-- What separates two words of a scalar: blanks on one line, or line ends. -/
structure Gap where
  /-- Has a line ended? -/
  folded : Bool
  /-- The blanks, as long as no line has ended, the last one first. -/
  blanks : List Char
  /-- The line ends, the last one first. -/
  breaks : List Char
  deriving DecidableEq, Repr

namespace Gap

/-- The gap before anything is read. -/
def empty : Gap := ⟨false, [], []⟩

/-- A gap after a line end that does not count. -/
def joined : Gap := ⟨true, [], []⟩

/-- What a gap stands for. -/
def text (g : Gap) : List Char :=
  if g.folded then
    match g.breaks.reverse with
    | '\n' :: [] => [' ']
    | '\n' :: breaks => breaks
    | breaks => breaks
  else g.blanks.reverse

/-- What a gap stands for if its first line end does not count. -/
def joinedText (g : Gap) : List Char := g.breaks.reverse

end Gap

/-- The gap from this place on, after a part `g` of it. Where the line has ended, a tab left of
column `limit` is refused. -/
def Cursor.gap (limit : Nat) : (fuel : Nat) → Gap → Cursor → Option (Gap × Cursor)
  | 0, _, _ => none
  | fuel + 1, g, p =>
    if isBlank p.head then
      if g.folded && p.column < limit && p.head = '\t' then none
      else do
        let blanks := if g.folded then g.blanks else p.head :: g.blanks
        guard (p.skip.has 1)
        gap limit fuel { g with blanks := blanks } p.skip
    else if isBreak p.head then do
      guard (p.has 2 && p.skipLine.has 1)
      gap limit fuel ⟨true, [], p.lineBreak :: g.breaks⟩ p.skipLine
    else some (g, p)

end LineScript.Yaml

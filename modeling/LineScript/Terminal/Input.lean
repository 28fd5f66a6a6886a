import LineScript.Text.Glyph

/-!
# Terminal input

Input that does not come from a keyboard is read through a window of `Input.window` bytes. A
line that does not fit is cut: what the window holds counts as a line of its own.

## Main definitions

* `Input.Line`: a line, and whether it was cut
* `Input.lines`: the lines of an input
-/

namespace LineScript.Input

/-- The number of bytes in which a line and its end must fit. -/
def window : Nat := 4096

/-- A line of the input. -/
structure Line where
  text : Text
  /-- Did the window end before the line did? -/
  cut : Bool
  deriving DecidableEq, Repr

/-- The first line of a nonempty input, and the rest. A line ends at LF or CR LF. A carriage
return at the end of a full window may be half of a line end, so it is left for the next line. -/
def next (input : Text) : Line × Text :=
  let seen := input.take window
  let line : Text := seen.takeWhile (· ≠ Text.newline)
  if line.length < seen.length then (⟨line.chomp, false⟩, input.drop (line.length + 1))
  else if seen.length < window then (⟨line, false⟩, [])
  else (⟨line.chomp, true⟩, input.drop line.chomp.length)

/-- The lines of an input, at most as many as `fuel`. -/
def linesUpTo : (fuel : Nat) → Text → List Line
  | 0, _ => []
  | _, [] => []
  | fuel + 1, input =>
    let (line, rest) := next input
    line :: linesUpTo fuel rest

/-- The lines of an input. Each one takes a byte at least, so there are no more than bytes. -/
def lines (input : Text) : List Line :=
  linesUpTo input.length input

end LineScript.Input

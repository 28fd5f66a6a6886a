import LineScript.Terminal.Input
import LineScript.Text.Blank

/-!
# History

The lines entered in earlier sessions are kept, the latest `History.limit` of them.

## Main definitions

* `History`: the lines kept, oldest first
* `History.ofText`, `History.toText`: the file form
* `History.add`: keeps a line that was entered
-/

namespace LineScript

/-- The lines kept, oldest first. -/
structure History where
  entries : Array Text
  deriving DecidableEq, Repr

namespace History

/-- The history without lines. -/
def empty : History := ⟨#[]⟩

/-- How many lines are kept. -/
def limit : Nat := 1000

/-- Appends a line; beyond the limit the oldest one is dropped. -/
def push (h : History) (line : Text) : History :=
  let entries := h.entries.push line
  if limit < entries.size then ⟨entries.extract 1 entries.size⟩ else ⟨entries⟩

/-- The history in a file. Reading stops at a line that was cut or is not UTF-8. -/
def ofText (text : Text) : History :=
  ((Input.lines text).takeWhile fun line => !line.cut && line.text.chars?.isSome).foldl
    (fun h line => h.push line.text) empty

/-- The file form of a history: each line with a newline. -/
def toText (h : History) : Text :=
  h.entries.toList.flatMap fun line => line ++ [Text.newline]

/-- Keeps a line that was entered, unless it is blank or the same as the one before. -/
def add (h : History) (line : Text) : History :=
  if line.trim.isEmpty || decide (h.entries.back? = some line) then h else h.push line

end History

end LineScript

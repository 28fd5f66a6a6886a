import LineScript.Text.Blank

/-!
# Lines of a program

The two properties of a line that decide how control moves: its indentation, and whether it
opens a function definition.

## Main definitions

* `Line.isIndented`: the line belongs to the body of a function
* `Line.isDefinition`: the line opens a function definition
* `Line.isSkipped`: a line of either kind, which control does not reach by running on
-/

namespace LineScript.Line

/-- A line is indented when it starts with white space. -/
def isIndented (line : Text) : Bool :=
  line.startsBlank

/-- The word that opens a function definition. -/
def definitionWord : Text := utf8 "def"

/-- A line opens a function definition when it is not indented and its first word is `def`. -/
def isDefinition (line : Text) : Bool :=
  !isIndented line && decide (line.words.head? = some definitionWord)

/-- The lines of a function: its definition and its body. -/
def isSkipped (line : Text) : Bool :=
  isIndented line || isDefinition line

@[simp] theorem isIndented_nil : isIndented [] = false := rfl

theorem isIndented_eq_false_of_isDefinition {line : Text} (h : isDefinition line = true) :
    isIndented line = false := by
  simp only [isDefinition, Bool.and_eq_true, Bool.not_eq_true'] at h
  exact h.1

theorem isSkipped_of_isIndented {line : Text} (h : isIndented line = true) :
    isSkipped line = true := by
  simp [isSkipped, h]

end LineScript.Line

import LineScript.Event

/-!
# Log records

A record is a message at a level, with named values.

## Main definitions

* `Log.Level`: the levels, from debug to fatal
* `Log.Record`: a level, a message and its fields
* `Note.record`: the record of a note
-/

namespace LineScript

namespace Log

/-- The levels of the log. -/
inductive Level where
  | debug
  | info
  | warn
  | error
  | fatal
  deriving DecidableEq, Repr

/-- The levels in increasing order of weight. -/
def Level.weight : Level → Nat
  | debug => 0
  | info => 1
  | warn => 2
  | error => 3
  | fatal => 4

/-- A message at a level, with named values. -/
structure Record where
  level : Level
  message : Text
  fields : List (Text × Text)
  deriving DecidableEq, Repr

end Log

namespace Note

/-- A field whose value is a number. -/
def numberField (name : String) (value : Nat) : Text × Text :=
  (utf8 name, Decimal.ofNat value)

/-- A field whose value is a text. -/
def textField (name : String) (value : Text) : Text × Text :=
  (utf8 name, value)

/-- The record of a note. -/
def record : Note → Log.Record
  | loaded lines functions total =>
    ⟨.debug, utf8 "Loaded code block",
      [numberField "lines" lines, numberField "functions" functions,
        numberField "total" total]⟩
  | runStarted lines functions =>
    ⟨.debug, utf8 "Run started",
      [numberField "lines" lines, numberField "functions" functions]⟩
  | runAborted line depth failure =>
    ⟨.debug, utf8 "Run aborted",
      [numberField "line" line, numberField "depth" depth,
        textField "error" failure.message]⟩
  | runFinished steps named =>
    ⟨.debug, utf8 "Run finished",
      [numberField "steps" steps, numberField "variables" named]⟩
  | skipped start stop =>
    ⟨.debug, utf8 "Skipped function bodies",
      [numberField "from" start, numberField "to" stop]⟩
  | called function source target depth =>
    ⟨.debug, utf8 "Call",
      [textField "function" function, numberField "from" source, numberField "to" target,
        numberField "depth" depth]⟩
  | calledImmediately function line =>
    ⟨.debug, utf8 "Immediate call",
      [textField "function" function, numberField "line" line]⟩
  | returned target depth =>
    ⟨.debug, utf8 "Return",
      [numberField "to" target, numberField "depth" depth]⟩
  | variableMissing name =>
    ⟨.debug, utf8 "Variable not found", [textField "name" name]⟩
  | fileChosen path =>
    ⟨.info, utf8 "Processing file", [textField "file" path]⟩
  | blockSubmitted lines =>
    ⟨.debug, utf8 "Submitting code block", [numberField "lines" lines]⟩
  | blockAbandoned pending =>
    ⟨.debug, utf8 "Code block abandoned", [numberField "pending" pending]⟩
  | scriptEndedInBlock pending =>
    ⟨.warn, utf8 "Script ended inside a code block", [numberField "pending" pending]⟩

end Note

end LineScript

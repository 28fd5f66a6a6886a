import LineScript.Settings.Problem
import LineScript.Statement

/-!
# Failures

Why an operation fails, as data. A fault is the cause of a failing statement or a refused
program; a failure is a cause together with the places it was met at. The wording stands in
`Fault.message` and `Failure.message` and nowhere else.

## Main definitions

* `Kind`: the kinds of faults
* `Fault`: what is wrong with a statement or a program
* `Failure`: a cause in its context
-/

namespace LineScript

/-- The kinds of faults. -/
inductive Kind where
  | unknownCommand
  | malformedStatement
  | invalidValue
  | underflow
  | undefinedFunction
  | duplicateName
  | stepLimit
  deriving DecidableEq, Repr

/-- What every fault of a kind says first. -/
def Kind.message : Kind → Text
  | unknownCommand => utf8 "unknown command"
  | malformedStatement => utf8 "malformed statement"
  | invalidValue => utf8 "invalid value"
  | underflow => utf8 "subtraction result would be negative"
  | undefinedFunction => utf8 "undefined function"
  | duplicateName => utf8 "duplicate function name"
  | stepLimit => utf8 "maximum steps exceeded"

/-- What is wrong with a statement or with a block of program lines. -/
inductive Fault where
  /-- A fault of which only the kind is known. -/
  | bare (kind : Kind)
  /-- The first word of a statement is no keyword. -/
  | unknownCommand (word : Text)
  /-- A statement lacks arguments. -/
  | missingArguments (keyword : Keyword)
  /-- A word that should be a number is none. -/
  | notInteger (word : Text)
  /-- A variable would be given a value below one. -/
  | notPositive (value : Int64)
  /-- A value to subtract is below zero. -/
  | negative (value : Int64)
  /-- A value to subtract is above the variable's value. -/
  | underflow (name : Text) (current amount : Int64)
  /-- No function has the name. -/
  | undefinedFunction (name : Text)
  /-- A definition, at this index of the line table, gives no name. -/
  | namelessDefinition (line : Text) (index : Nat)
  /-- A definition at `index` gives the name of the one at `first`. -/
  | duplicateDefinition (name : Text) (index first : Nat)
  deriving DecidableEq, Repr

namespace Fault

/-- The kind of a fault. -/
def kind : Fault → Kind
  | bare kind => kind
  | unknownCommand _ => .unknownCommand
  | missingArguments _ => .malformedStatement
  | notInteger _ => .invalidValue
  | notPositive _ => .invalidValue
  | negative _ => .invalidValue
  | underflow _ _ _ => .underflow
  | undefinedFunction _ => .undefinedFunction
  | namelessDefinition _ _ => .malformedStatement
  | duplicateDefinition _ _ _ => .duplicateName

/-- What a fault says beyond its kind. -/
def detail? : Fault → Option Text
  | bare _ => none
  | unknownCommand word => some word.quoted
  | missingArguments keyword => some (keyword.word ++ utf8 " needs more arguments")
  | notInteger word => some (word.quoted ++ utf8 " is not an integer")
  | notPositive value =>
    some (Decimal.ofInt value.toInt ++ utf8 ", value should be greater than 0")
  | negative value =>
    some (Decimal.ofInt value.toInt ++ utf8 ", value should not be negative")
  | underflow name current amount =>
    some (name ++ utf8 " is " ++ Decimal.ofInt current.toInt ++ utf8 ", cannot subtract "
      ++ Decimal.ofInt amount.toInt)
  | undefinedFunction name => some name.quoted
  | namelessDefinition line index =>
    some (line.quoted ++ utf8 " at line " ++ Decimal.ofNat index
      ++ utf8 " has no function name")
  | duplicateDefinition name index first =>
    some (name.quoted ++ utf8 " at line " ++ Decimal.ofNat index
      ++ utf8 ", first defined at line " ++ Decimal.ofNat first)

/-- The wording of a fault: its kind, and after a colon its detail. -/
def message (f : Fault) : Text :=
  match f.detail? with
  | some detail => f.kind.message ++ utf8 ": " ++ detail
  | none => f.kind.message

end Fault

/-- Why an operation failed, with the places at which the cause was met. -/
inductive Failure where
  /-- A statement or a program is at fault. -/
  | fault (cause : Fault)
  /-- Settings are refused. -/
  | settings (problem : Settings.Problem)
  /-- A line of a script exceeds the length that is read. -/
  | lineTooLong
  /-- There is no file of the name. -/
  | missingFile (path : Text)
  /-- The name is a directory's, which cannot be read. -/
  | directory (path : Text)
  /-- Another cause, of which only the wording is known. -/
  | other (message : Text)
  /-- The cause was met at a line of the running program. -/
  | atLine (line : Int) (source : Text) (cause : Failure)
  /-- The cause was met while doing something else. -/
  | context (activity : Text) (cause : Failure)
  deriving DecidableEq, Repr

namespace Failure

/-- The wording of a failure. -/
def message : Failure → Text
  | fault cause => cause.message
  | settings problem => problem.message
  | lineTooLong => utf8 "bufio.Scanner: token too long"
  | missingFile path => utf8 "open " ++ path ++ utf8 ": no such file or directory"
  | directory path => utf8 "read " ++ path ++ utf8 ": is a directory"
  | other message => message
  | atLine line source cause =>
    utf8 "line " ++ Decimal.ofInt line ++ utf8 " " ++ source.quoted ++ utf8 ": " ++ cause.message
  | context activity cause => activity ++ utf8 ": " ++ cause.message

/-- What lies under all context. -/
def root : Failure → Failure
  | atLine _ _ cause => cause.root
  | context _ cause => cause.root
  | failure => failure

/-- The outermost program line that a failure names, with its source and what happened
there. -/
def line? : Failure → Option (Int × Text × Failure)
  | atLine line source cause => some (line, source, cause)
  | context _ cause => cause.line?
  | _ => none

end Failure

end LineScript

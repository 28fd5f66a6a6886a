import LineScript.Text.Blank

/-!
# Statements

A statement is a keyword with its arguments. What a line says depends on its first three words
only: further words are ignored.

## Main definitions

* `Keyword`: the five words that start a statement
* `Statement`: what a line says, incomplete and unknown lines included
* `Statement.ofLine`: the statement of a line
-/

namespace LineScript

/-- The words that start a statement. -/
inductive Keyword where
  | set
  | sub
  | print
  | rem
  | call
  deriving DecidableEq, Repr

namespace Keyword

/-- All keywords. -/
def all : List Keyword := [set, sub, print, rem, call]

/-- The word itself. -/
def word : Keyword → Text
  | set => utf8 "set"
  | sub => utf8 "sub"
  | print => utf8 "print"
  | rem => utf8 "rem"
  | call => utf8 "call"

/-- The keyword that a word is. -/
def ofWord? (w : Text) : Option Keyword :=
  all.find? fun k => k.word = w

@[simp] theorem ofWord?_word (k : Keyword) : ofWord? k.word = some k := by
  cases k <;> decide

end Keyword

/-- What a line says. Values are still words: whether they are numbers is seen when the
statement is performed. -/
inductive Statement where
  /-- No words at all. -/
  | blank
  /-- Gives a variable a value. -/
  | set (name value : Text)
  /-- Takes a value off a variable. -/
  | sub (name value : Text)
  /-- Writes the value of a variable. -/
  | print (name : Text)
  /-- Removes a variable. -/
  | rem (name : Text)
  /-- Performs the body of a function. -/
  | call (function : Text)
  /-- A keyword with too few arguments. -/
  | incomplete (keyword : Keyword)
  /-- A first word that is no keyword. -/
  | unknown (word : Text)
  deriving DecidableEq, Repr

namespace Statement

/-- The statement that a keyword and its arguments make. -/
def ofArguments : Keyword → List Text → Statement
  | .set, name :: value :: _ => set name value
  | .sub, name :: value :: _ => sub name value
  | .print, name :: _ => print name
  | .rem, name :: _ => rem name
  | .call, function :: _ => call function
  | keyword, _ => incomplete keyword

/-- The statement that some words make. -/
def ofWords : List Text → Statement
  | [] => blank
  | word :: arguments =>
    match Keyword.ofWord? word with
    | some keyword => ofArguments keyword arguments
    | none => unknown word

/-- The statement of a line. -/
def ofLine (line : Text) : Statement :=
  ofWords line.words

end Statement

end LineScript

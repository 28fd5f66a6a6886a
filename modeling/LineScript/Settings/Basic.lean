import LineScript.Machine.Basic

/-!
# Settings

What a user can choose for the interpreter and its command line.

## Main definitions

* `Settings`: the choices
* `Settings.default`: what holds where nothing is chosen
* `Settings.Reading`: settings that were read, and what is wrong with their source
* `Settings.Field`: the settings by their keys
* `Settings.options`: the choices that concern a machine
-/

namespace LineScript

/-- What a user can choose. -/
structure Settings where
  /-- Log everything, not just warnings and errors. -/
  verbose : Bool
  /-- Write plain text only. -/
  noColor : Bool
  /-- How many steps a run may take; zero sets no limit. -/
  maxSteps : Int
  /-- What is written for a variable that has no value. -/
  notFound : Text
  /-- May a later definition take the name of an earlier one? -/
  redefine : Bool
  deriving DecidableEq, Repr

namespace Settings

/-- What holds where nothing is chosen. -/
def default : Settings where
  verbose := false
  noColor := false
  maxSteps := 100000
  notFound := defaultNotFound
  redefine := false

/-- Settings without any content, which stand where a document is refused. -/
def blank : Settings where
  verbose := false
  noColor := false
  maxSteps := 0
  notFound := []
  redefine := false

/-- What comes of reading settings: the settings, and what is wrong with their source, if anything
is. -/
structure Reading (ε : Type) where
  settings : Settings
  problem : Option ε
  deriving DecidableEq, Repr

/-- Settings are refused: blank ones stand in their place. -/
def Reading.refused {ε : Type} (problem : ε) : Reading ε := ⟨blank, some problem⟩

/-- The choices that concern a machine. -/
def options (s : Settings) : Options where
  stepLimit := s.maxSteps.toNat
  notFound := s.notFound
  redefine := s.redefine

/-- The settings, one by one. -/
inductive Field where
  | verbose
  | noColor
  | maxSteps
  | notFound
  | redefine
  deriving DecidableEq, Repr

namespace Field

/-- All settings. -/
def all : List Field := [verbose, noColor, maxSteps, notFound, redefine]

/-- The key of a setting in a document. -/
def key : Field → Text
  | verbose => utf8 "verbose"
  | noColor => utf8 "no_color"
  | maxSteps => utf8 "max_steps"
  | notFound => utf8 "not_found_message"
  | redefine => utf8 "allow_redefinition"

/-- The setting that has the key. -/
def ofKey? (key : Text) : Option Field :=
  all.find? fun field => field.key = key

@[simp] theorem ofKey?_key (field : Field) : ofKey? field.key = some field := by
  cases field <;> decide

end Field

end Settings

end LineScript

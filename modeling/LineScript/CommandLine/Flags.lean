import LineScript.Settings.Basic
import LineScript.Text.Numeral

/-!
# Command-line flags

Flags start with one dash or two. A value follows an equals sign or, for flags that are not
switches, stands in the next argument. Flags end at the first other argument, or after a double
dash.

## Main definitions

* `Flag`: the flags
* `Flags`: what the flags of a command line say
* `UsageFault`: why a command line is refused
* `Flags.parse`: reads the flags and gives the arguments behind them
-/

namespace LineScript

/-- The flags. -/
inductive Flag where
  | config
  | help
  | maxSteps
  | noColor
  | verbose
  deriving DecidableEq, Repr

namespace Flag

/-- All flags, by name. -/
def all : List Flag := [config, help, maxSteps, noColor, verbose]

/-- The name of a flag. -/
def name : Flag → Text
  | config => utf8 "config"
  | help => utf8 "h"
  | maxSteps => utf8 "max-steps"
  | noColor => utf8 "n"
  | verbose => utf8 "v"

/-- The flag of a name. -/
def ofName? (name : Text) : Option Flag :=
  all.find? fun flag => flag.name = name

@[simp] theorem ofName?_name (flag : Flag) : ofName? flag.name = some flag := by
  cases flag <;> decide

/-- Switches take a value only behind an equals sign. -/
def isSwitch : Flag → Bool
  | config => false
  | help => true
  | maxSteps => false
  | noColor => true
  | verbose => true

end Flag

/-- What the flags of a command line say. -/
structure Flags where
  help : Bool := false
  verbose : Bool := false
  noColor : Bool := false
  /-- The settings file, empty if none is named. -/
  config : Text := []
  /-- The step limit, negative if none is given. -/
  maxSteps : Int := -1
  deriving DecidableEq, Repr

/-- Why a command line is refused. -/
inductive UsageFault where
  /-- Help is asked for by a name that is not a flag. -/
  | helpWanted
  /-- An argument that starts like a flag but cannot be one. -/
  | badSyntax (argument : Text)
  | undefinedFlag (name : Text)
  | missingValue (flag : Flag)
  /-- A switch with a value that is no truth value. -/
  | badSwitch (flag : Flag) (value : Text)
  /-- A value that is no number. -/
  | badNumber (flag : Flag) (value : Text) (fault : Numeral.Fault)
  deriving DecidableEq, Repr

/-- The wording of a fault in a numeral. -/
def Numeral.Fault.message : Numeral.Fault → Text
  | malformed => utf8 "parse error"
  | outOfRange => utf8 "value out of range"

namespace UsageFault

/-- The wording of a fault; none for the wish for help. -/
def message? : UsageFault → Option Text
  | helpWanted => none
  | badSyntax argument => some (utf8 "bad flag syntax: " ++ argument)
  | undefinedFlag name => some (utf8 "flag provided but not defined: -" ++ name)
  | missingValue flag => some (utf8 "flag needs an argument: -" ++ flag.name)
  | badSwitch flag value =>
    some (utf8 "invalid boolean value " ++ value.quoted ++ utf8 " for -" ++ flag.name
      ++ utf8 ": " ++ Numeral.Fault.malformed.message)
  | badNumber flag value fault =>
    some (utf8 "invalid value " ++ value.quoted ++ utf8 " for flag -" ++ flag.name
      ++ utf8 ": " ++ fault.message)

end UsageFault

/-! ## Arguments -/

/-- What an argument is to the reader of flags. -/
inductive Argument where
  /-- Not a flag: flags end before it. -/
  | ordinary
  /-- The double dash: flags end behind it. -/
  | terminator
  /-- A dash that no flag can follow. -/
  | malformed
  | flag (name : Text) (value : Option Text)
  deriving DecidableEq, Repr

namespace Argument

/-- The dash that flags start with. -/
def dash : UInt8 := 45

/-- The sign between the name and the value of a flag. -/
def equals : UInt8 := 61

/-- What follows the dashes: a name and perhaps a value. -/
def ofNamed (named : Text) : Argument :=
  match named with
  | [] => malformed
  | b :: _ =>
    if b = dash ∨ b = equals then malformed
    else
      match named.dropWhile (· ≠ equals) with
      | [] => flag named none
      | _ :: value => flag (named.takeWhile (· ≠ equals)) (some value)

/-- What an argument is. -/
def ofText (t : Text) : Argument :=
  match t with
  | a :: b :: rest =>
    if a ≠ dash then ordinary
    else if b ≠ dash then ofNamed (b :: rest)
    else if rest.isEmpty then terminator
    else ofNamed rest
  | _ => ordinary

end Argument

/-! ## Reading flags -/

namespace Flags

/-- The truth value of a switch. -/
def switch? (value : Text) : Option Bool :=
  if ["1", "t", "T", "true", "TRUE", "True"].any fun w => utf8 w = value then some true
  else if ["0", "f", "F", "false", "FALSE", "False"].any fun w => utf8 w = value then some false
  else none

/-- The switch set to a value. -/
def setSwitch (flags : Flags) (flag : Flag) (value : Text) : Except UsageFault Flags :=
  match switch? value with
  | none => .error (.badSwitch flag value)
  | some b =>
    .ok <| match flag with
      | .help => { flags with help := b }
      | .noColor => { flags with noColor := b }
      | .verbose => { flags with verbose := b }
      | _ => flags

/-- A flag set to a value. -/
def set (flags : Flags) (flag : Flag) (value : Text) : Except UsageFault Flags :=
  match flag with
  | .config => .ok { flags with config := value }
  | .maxSteps =>
    match Numeral.int value with
    | .ok n => .ok { flags with maxSteps := n }
    | .error fault => .error (.badNumber flag value fault)
  | _ => flags.setSwitch flag value

/-- The flag of a name; some unknown names ask for help. -/
def find (name : Text) : Except UsageFault Flag :=
  match Flag.ofName? name with
  | some flag => .ok flag
  | none => .error (if name = utf8 "help" then .helpWanted else .undefinedFlag name)

/-- Reads the flags at the start of a command line, and gives the arguments behind them. -/
def parse (flags : Flags) : List Text → Except UsageFault (Flags × List Text)
  | [] => .ok (flags, [])
  | argument :: rest =>
    match Argument.ofText argument with
    | .ordinary => .ok (flags, argument :: rest)
    | .terminator => .ok (flags, rest)
    | .malformed => .error (.badSyntax argument)
    | .flag name value =>
      match find name with
      | .error fault => .error fault
      | .ok flag =>
        match value with
        | some value =>
          match flags.set flag value with
          | .error fault => .error fault
          | .ok flags => parse flags rest
        | none =>
          if flag.isSwitch then
            match flags.set flag (utf8 "true") with
            | .error fault => .error fault
            | .ok flags => parse flags rest
          else
            match rest with
            | [] => .error (.missingValue flag)
            | value :: rest =>
              match flags.set flag value with
              | .error fault => .error fault
              | .ok flags => parse flags rest

/-- The settings with what the flags say. -/
def applyTo (flags : Flags) (s : Settings) : Settings :=
  { s with
    verbose := s.verbose || flags.verbose
    noColor := s.noColor || flags.noColor
    maxSteps := if 0 ≤ flags.maxSteps then flags.maxSteps else s.maxSteps }

end Flags

end LineScript

import LineScript.CommandLine.Flags
import LineScript.Log.Format
import LineScript.Settings.Decode

/-!
# The command line

The program reads its flags and its settings, runs a script, and ends with an exit code. Files
and standard input are given as data, and what the program writes is its result.

## Main definitions

* `CommandLine.Outcome`: exit code, output and log of the program
* `CommandLine.Plan`: what a command line asks for
* `CommandLine.run`: the whole program
-/

namespace LineScript.CommandLine

/-- What the program leaves behind. -/
structure Outcome where
  exitCode : Nat
  stdout : Text
  stderr : Text
  deriving DecidableEq, Repr

/-- The settings file that is read when none is named, if it is there. -/
def defaultConfig : Text := utf8 "kizhi.yaml"

/-! ## Usage -/

/-- The list of flags. -/
def flagList : Text :=
  utf8 <| "  -config string\n    \tPath to YAML config (default kizhi.yaml if present)\n" ++
    "  -h\tShow help\n" ++
    "  -max-steps int\n    \tMaximum steps per run, 0 for unlimited (overrides config)" ++
    " (default -1)\n" ++
    "  -n\tNo color\n" ++
    "  -v\tVerbose mode\n"

/-- What is shown for a command line that is refused. -/
def usage : Text :=
  utf8 "Usage of kizhi:\n" ++ flagList

/-- The outcome for a command line that is refused. -/
def refuse (fault : UsageFault) : Outcome :=
  match fault.message? with
  | none => ⟨0, [], usage⟩
  | some message => ⟨2, [], message ++ [Text.newline] ++ usage⟩

/-- The outcome of the help flag. -/
def help : Outcome :=
  ⟨0, utf8 "Usage: kizhi [options] [file]\nOptions:\n", flagList⟩

/-! ## Running -/

/-- The last record of a program that fails. -/
def fatal (message : String) (failure : Failure) : Log.Record :=
  ⟨.fatal, utf8 message, [(utf8 "error", failure.message)]⟩

/-- What a command line asks for, once its settings are known. -/
structure Plan where
  settings : Settings
  /-- The script file; without one, standard input is the script. -/
  script : Option Text
  deriving DecidableEq, Repr

namespace Plan

/-- The log of a plan. -/
def format (p : Plan) : Log.Format :=
  ⟨p.settings.verbose, !p.settings.noColor⟩

/-- Runs the script of a plan. -/
def reply (p : Plan) (fuel : Nat) (files : Text → Resource) (stdin : Text) :
    Option (Reply Shell Unit) :=
  let shell := Shell.around .initial
  match p.script with
  | some path => shell.runFile p.settings.options fuel path (files path)
  | none => shell.runScript p.settings.options fuel (.ofText stdin)

/-- The outcome of a script. -/
def outcome (p : Plan) (r : Reply Shell Unit) : Outcome :=
  let stdout := Event.outputOf r.events
  let log := p.format.ofEvents r.events
  match r.result with
  | .ok () => ⟨0, stdout, log⟩
  | .error failure =>
    ⟨1, stdout, log ++ p.format.ofRecord (fatal "Execution failed" failure)⟩

end Plan

/-- The settings file that the flags name, and whether it may be missing. -/
def configFile (flags : Flags) : Text × Bool :=
  if flags.config.isEmpty then (defaultConfig, true) else (flags.config, false)

/-- The files that a command line may read: the settings file and the script. -/
def filesNamed (arguments : List Text) : List Text :=
  match Flags.parse {} arguments with
  | .error _ => []
  | .ok (flags, rest) => (configFile flags).1 :: rest.head?.toList

/-- What a command line asks for, or the outcome where there is nothing to run. -/
def plan (files : Text → Resource) (arguments : List Text) : Except Outcome Plan :=
  match Flags.parse {} arguments with
  | .error fault => .error (refuse fault)
  | .ok (flags, rest) =>
    if flags.help then .error help
    else
      let (path, optional) := configFile flags
      let r := Settings.load .yaml path optional (files path)
      match r.problem with
      | some failure =>
        let format : Log.Format := ⟨flags.verbose, !flags.noColor⟩
        .error ⟨1, [], format.ofRecord (fatal "Invalid configuration" failure)⟩
      | none => .ok ⟨flags.applyTo r.settings, rest.head?⟩

/-- The whole program. There is no outcome when a run of the script takes more than `fuel`
steps. -/
def run (fuel : Nat) (files : Text → Resource) (stdin : Text) (arguments : List Text) :
    Option Outcome :=
  match plan files arguments with
  | .error outcome => some outcome
  | .ok p => (p.reply fuel files stdin).map p.outcome

end LineScript.CommandLine

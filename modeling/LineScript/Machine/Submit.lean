import LineScript.Machine.Run

/-!
# Submitting text

Text reaches a machine by submission. Three mode commands are recognised by their exact
wording, in every mode. Any other text is a block of program lines while the machine is
loading, and a single statement otherwise.

## Main definitions

* `ModeCommand`: the mode commands
* `Machine.load`: appends a block of lines to the program
* `Machine.submit`: takes one submission
-/

namespace LineScript

/-- The commands that open a block of code, close it, and run the program. -/
inductive ModeCommand where
  | openCode
  | closeCode
  | run
  deriving DecidableEq, Repr

namespace ModeCommand

/-- All mode commands. -/
def all : List ModeCommand := [openCode, closeCode, run]

/-- The exact wording of a mode command. -/
def wording : ModeCommand → Text
  | openCode => utf8 "set code"
  | closeCode => utf8 "end set code"
  | run => utf8 "run"

/-- The mode command that a text is. -/
def ofText? (t : Text) : Option ModeCommand :=
  all.find? fun c => c.wording = t

@[simp] theorem ofText?_wording (c : ModeCommand) : ofText? c.wording = some c := by
  cases c <;> decide

end ModeCommand

namespace Machine

/-- Appends a block of lines to the program, or leaves the machine as it is. -/
def load (opts : Options) (m : Machine) (block : List Text) : Reply Machine Unit :=
  match m.program.definitionsOf opts.redefine block with
  | .error fault => .fail m (.fault fault)
  | .ok found =>
    let program := m.program.append block found
    ⟨{ m with program := program },
      [.note (.loaded block.length found.size program.size)], .ok ()⟩

/-- The lines of a submitted block; endings may be LF or CR LF. -/
def blockLines (text : Text) : List Text :=
  text.splitLines.map Text.chomp

/-- Performs a single statement from outside the program. -/
def performNow (opts : Options) (fuel : Nat) (m : Machine) :
    Statement → Option (Reply Machine Unit)
  | .call function => m.callNow opts fuel function
  | statement =>
    match m.perform opts statement with
    | .error fault => some (.fail m (.fault fault))
    | .ok (m, events) => some ⟨m, events, .ok ()⟩

/-- Carries out a mode command. -/
def command (opts : Options) (fuel : Nat) (m : Machine) :
    ModeCommand → Option (Reply Machine Unit)
  | .openCode => some (.pure { m with loading := true } ())
  | .closeCode => some (.pure { m with loading := false } ())
  | .run => m.run opts fuel

/-- Takes one submission. Runs and immediate calls take at most `fuel` steps; there is no
reply when that does not suffice. -/
def submit (opts : Options) (fuel : Nat) (m : Machine) (text : Text) :
    Option (Reply Machine Unit) :=
  if text.isEmpty then some (.pure m ())
  else
    match ModeCommand.ofText? text with
    | some c => m.command opts fuel c
    | none =>
      if m.loading then some (m.load opts (blockLines text))
      else m.performNow opts fuel (Statement.ofLine text)

end Machine

end LineScript

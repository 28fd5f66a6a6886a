import LineScript.Machine.Submit

/-!
# Shells

A shell takes a script line by line. Between the commands that open and close a block of code
it holds the lines back, and hands them to its machine together.

## Main definitions

* `Shell`: a machine and the lines held back
* `Shell.flush`: hands over the lines held back
* `Shell.feed`: takes one line
-/

namespace LineScript

/-- A machine with the lines of a block that is being entered. -/
structure Shell where
  machine : Machine
  /-- The lines held back, in the order in which they were entered. -/
  pending : Array Text
  /-- Is a block being entered? -/
  collecting : Bool
  deriving DecidableEq, Repr

namespace Shell

/-- A shell around a machine. -/
def around (machine : Machine) : Shell := ⟨machine, #[], false⟩

instance : Inhabited Shell := ⟨around .initial⟩

/-- Submits a text to the machine. -/
def submit (opts : Options) (fuel : Nat) (s : Shell) (text : Text) : Option (Reply Shell Unit) :=
  (s.machine.submit opts fuel text).map (·.mapState fun machine => { s with machine := machine })

/-- Drops the lines held back. -/
def discard (s : Shell) : Shell := { s with pending := #[] }

/-- Hands the lines held back to the machine, as one text, if there are any. They are gone
from the shell even if the machine refuses them. -/
def flush (opts : Options) (fuel : Nat) (s : Shell) : Option (Reply Shell Unit) :=
  if s.pending.isEmpty then some (.pure s ())
  else
    (s.discard.submit opts fuel (Text.joinLines s.pending.toList)).map
      (·.after [.note (.blockSubmitted s.pending.size)])

/-- Carries out a mode command. A block that is closed or run is handed over first. A refused
block is reported; it does not keep the block from being closed, but it does keep the program
from being run. -/
def command (opts : Options) (fuel : Nat) (s : Shell) (c : ModeCommand) :
    Option (Reply Shell Unit) :=
  match c with
  | .openCode => { s with collecting := true }.submit opts fuel c.wording
  | .closeCode => do
    let flushed ← s.flush opts fuel
    let closed ← { flushed.state with collecting := false }.submit opts fuel c.wording
    match flushed.result with
    | .error failure => some ⟨closed.state, flushed.events ++ closed.events, .error failure⟩
    | .ok () => some (closed.after flushed.events)
  | .run => do
    let flushed ← s.flush opts fuel
    match flushed.result with
    | .error _ => some flushed
    | .ok () => (flushed.state.submit opts fuel c.wording).map (·.after flushed.events)

/-- Takes one line: a mode command, a line to hold back, or a text for the machine. -/
def feed (opts : Options) (fuel : Nat) (s : Shell) (line : Text) : Option (Reply Shell Unit) :=
  let line := line.chomp
  match ModeCommand.ofText? line with
  | some c => s.command opts fuel c
  | none =>
    if s.collecting then some (.pure { s with pending := s.pending.push line } ())
    else s.submit opts fuel line

end Shell

end LineScript

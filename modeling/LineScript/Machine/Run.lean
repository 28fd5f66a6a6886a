import LineScript.Machine.Step

/-!
# Runs and immediate calls

A run steps until the program is over or fails; an immediate call does the same for the body
of one function. A program may run forever, so both take a bound on the number of steps and
give no reply when it does not suffice. This bound is no part of the language: unlike the step
limit it is not reported as a failure.

## Main definitions

* `Machine.loop`: steps until execution is over
* `Machine.run`: runs the program
* `Machine.callNow`: performs the body of a function
-/

namespace LineScript.Machine

/-- Steps until execution is over, for at most `fuel` steps. A failure brings the machine to
rest. -/
def loop (opts : Options) : (fuel : Nat) → Machine → Option (Reply Machine Unit)
  | 0, _ => none
  | fuel + 1, m =>
    let r := m.step opts
    match r.result with
    | .error failure =>
      let note := .note (.runAborted r.state.pc r.state.depth failure)
      some ⟨r.state.reset, r.events ++ [note], .error failure⟩
    | .ok true => some ⟨r.state, r.events, .ok ()⟩
    | .ok false => (loop opts fuel r.state).map (·.after r.events)

/-- Runs the program from the position of control. -/
def run (opts : Options) (fuel : Nat) (m : Machine) : Option (Reply Machine Unit) :=
  let note := .note (.runStarted m.program.size m.program.functions.size)
  (loop opts fuel { m with steps := 0, returnDepth := none }).map (·.after [note])

/-- The machine after an immediate call. -/
def settle (m : Machine) : Machine :=
  { m with pc := 0, returnDepth := none }

/-- Performs the body of a function, with the calls that are pending left alone. -/
def callNow (opts : Options) (fuel : Nat) (m : Machine) (function : Text) :
    Option (Reply Machine Unit) :=
  match m.program.functions.get? function with
  | none => some (.fail m (.fault (.undefinedFunction function)))
  | some target =>
    let entered := { m with
      steps := 0, returnDepth := some m.depth, calls := m.calls.push m.pc, pc := target }
    let next := entered.advance
    let events := .note (.calledImmediately function target) :: next.events
    if next.halted then some ⟨next.machine.settle, events, .ok ()⟩
    else (loop opts fuel next.machine).map fun r => (r.mapState settle).after events

end LineScript.Machine

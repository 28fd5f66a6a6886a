import LineScript.Machine.Perform

/-!
# One step

A step goes past function definitions, performs the statement it finds, and moves control to
the next line. Where a body ends, control returns behind the call that led into it, and again
if that call was itself the last line of a body. Past the last line, the program is over and
the machine comes to rest.

## Main definitions

* `Machine.advance`: moves control to the next line
* `Machine.cycle`: goes past definitions, performs a statement, moves on
* `Machine.step`: a cycle within the step limit
-/

namespace LineScript.Machine

/-- Ends a run: the machine comes to rest. -/
def finish (m : Machine) : Machine × List Event :=
  (m.reset, [.note (.runFinished m.steps m.store.size)])

/-- Where control lands after returns: the position, the calls still pending, the notes of the
returns, and whether the call that was waited for is over. -/
structure Landing where
  pc : Nat
  calls : Stack Nat
  events : List Event
  arrived : Bool
  deriving DecidableEq, Repr

/-- Returns from at most `n` calls, as long as a body ends at the position. Returning stops when
the number of pending calls reaches `target`. -/
def unwindUpTo (p : Program) (target : Option Nat) :
    (n : Nat) → (pc : Nat) → (calls : Stack Nat) → Landing
  | 0, pc, calls => ⟨pc, calls, [], false⟩
  | n + 1, pc, calls =>
    if p.leavesBlock pc then
      match calls.pop? with
      | none => ⟨pc, calls, [], false⟩
      | some (call, calls) =>
        let note := .note (.returned (call + 1) calls.size)
        if target = some calls.size then ⟨call + 1, calls, [note], true⟩
        else
          let landing := unwindUpTo p target n (call + 1) calls
          { landing with events := note :: landing.events }
    else ⟨pc, calls, [], false⟩

/-- Returns from the calls, as long as a body ends at the position. -/
def unwind (p : Program) (target : Option Nat) (pc : Nat) (calls : Stack Nat) : Landing :=
  unwindUpTo p target calls.size pc calls

@[simp] theorem unwind_empty (p : Program) (target : Option Nat) (pc : Nat) :
    unwind p target pc .empty = ⟨pc, .empty, [], false⟩ := rfl

theorem unwind_push (p : Program) (target : Option Nat) (pc : Nat) (calls : Stack Nat)
    (call : Nat) :
    unwind p target pc (calls.push call) =
      if p.leavesBlock pc then
        if target = some calls.size then
          ⟨call + 1, calls, [.note (.returned (call + 1) calls.size)], true⟩
        else
          { unwind p target (call + 1) calls with
            events := .note (.returned (call + 1) calls.size) ::
              (unwind p target (call + 1) calls).events }
      else ⟨pc, calls.push call, [], false⟩ := by
  rw [unwind, Stack.size_push, unwindUpTo, Stack.pop?_push]
  rfl

/-- The state after a move of control, what was emitted, and whether execution is over. -/
structure Progress where
  machine : Machine
  events : List Event
  halted : Bool
  deriving DecidableEq, Repr

/-- Moves control to the next line, with the returns that are due. Execution is over when an
immediate call has returned, or when the table ends. -/
def advance (m : Machine) : Progress :=
  let landing := unwind m.program m.returnDepth (m.pc + 1) m.calls
  let m := { m with pc := landing.pc, calls := landing.calls }
  if landing.arrived then ⟨m, landing.events, true⟩
  else if m.program.size ≤ landing.pc then
    let (m, events) := m.finish
    ⟨m, landing.events ++ events, true⟩
  else ⟨m, landing.events, false⟩

/-- Goes past function definitions, if control has come to one. -/
def skipDefinitions (m : Machine) : Machine × List Event :=
  if m.program.lines[m.pc]?.any Line.isDefinition then
    let stop := m.program.afterDefinitions m.pc
    ({ m with pc := stop }, [.note (.skipped m.pc stop)])
  else (m, [])

/-- A failure at the line that control is at. -/
def failHere {α : Type} (m : Machine) (fault : Fault) : Reply Machine α :=
  .fail m (.atLine m.pc m.currentLine (.fault fault))

/-- Goes past definitions, performs a statement and moves on. The result says whether
execution is over. -/
def cycle (opts : Options) (m : Machine) : Reply Machine Bool :=
  let (m, skipped) := m.skipDefinitions
  match m.program.lines[m.pc]? with
  | none =>
    let (m, events) := m.finish
    ⟨m, skipped ++ events, .ok true⟩
  | some line =>
    match m.perform opts (Statement.ofLine line) with
    | .error fault => (m.failHere fault).after skipped
    | .ok (m, events) =>
      let next := m.advance
      ⟨next.machine, skipped ++ events ++ next.events,
        .ok (next.halted || decide (next.machine.pc = 0))⟩

/-- Is the step limit used up? -/
def isSpent (opts : Options) (m : Machine) : Bool :=
  decide (0 < opts.stepLimit) && decide (opts.stepLimit ≤ m.steps)

/-- One step: a cycle, unless the step limit is used up. The cycle is counted when it is over,
whatever it did. -/
def step (opts : Options) (m : Machine) : Reply Machine Bool :=
  if m.isSpent opts then m.failHere (.bare .stepLimit)
  else (m.cycle opts).mapState fun m => { m with steps := m.steps + 1 }

end LineScript.Machine

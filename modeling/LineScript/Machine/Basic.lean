import LineScript.Event
import LineScript.Program
import LineScript.Stack
import LineScript.Store

/-!
# Machines

A machine holds a loaded program and the state of its execution: variables, the position of
control, and the positions of the pending calls. At rest the position is zero and no call is
pending.

## Main definitions

* `Options`: what stays fixed in the life of a machine
* `Machine`: the program and the state of its execution
* `Machine.reset`: back to rest, keeping the program
-/

namespace LineScript

/-- What is written for a variable that has no value, unless another text is chosen. -/
def defaultNotFound : Text := utf8 "Переменная отсутствует в памяти"

/-- What stays fixed in the life of a machine. -/
structure Options where
  /-- How many steps a run may take; zero sets no limit. -/
  stepLimit : Nat := 0
  /-- What is written for a variable that has no value. -/
  notFound : Text := defaultNotFound
  /-- May a later definition take the name of an earlier one? -/
  redefine : Bool := false
  deriving DecidableEq, Repr

/-- A loaded program and the state of its execution. -/
structure Machine where
  program : Program
  store : Store
  /-- The positions of the call statements that have not returned yet. -/
  calls : Stack Nat
  /-- The position of control in the line table. -/
  pc : Nat
  /-- Are submitted texts lines of a program? -/
  loading : Bool
  /-- The number of pending calls at which an immediate call is over. -/
  returnDepth : Option Nat
  /-- The steps taken since the run began. -/
  steps : Nat
  deriving DecidableEq, Repr

namespace Machine

/-- A machine without program, at rest. -/
def initial : Machine where
  program := .empty
  store := .empty
  calls := .empty
  pc := 0
  loading := false
  returnDepth := none
  steps := 0

instance : Inhabited Machine := ⟨initial⟩

/-- Back to rest: no variables, no pending calls, control at the first line. The program and
the loading mode stay. -/
def reset (m : Machine) : Machine :=
  { m with store := .empty, calls := .empty, pc := 0, returnDepth := none, steps := 0 }

/-- The number of pending calls. -/
def depth (m : Machine) : Nat := m.calls.size

/-- The line at the position of control, empty behind the last line. -/
def currentLine (m : Machine) : Text :=
  m.program.lines[m.pc]?.getD []

@[simp] theorem reset_reset (m : Machine) : m.reset.reset = m.reset := rfl

end Machine

end LineScript

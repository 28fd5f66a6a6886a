import LineScript.Machine.Basic

/-!
# Performing statements

One statement acts on the variables, or moves control to a function. A statement at fault
changes nothing and writes nothing.

## Main definitions

* `Machine.perform`: performs a statement
-/

namespace LineScript.Machine

/-- What happens when a variable has no value: a line of output and a note. -/
def reportMissing (opts : Options) (name : Text) : List Event :=
  [.note (.variableMissing name), .output (opts.notFound ++ [Text.newline])]

/-- Gives a variable a positive value. -/
def performSet (m : Machine) (name value : Text) : Except Fault (Machine × List Event) :=
  match Decimal.int64? value with
  | none => .error (.notInteger value)
  | some n =>
    if n.toInt ≤ 0 then .error (.notPositive n)
    else .ok ({ m with store := m.store.insert name n }, [])

/-- Takes a value off a variable. A variable without value is reported before the value is
looked at, though not before it is read. -/
def performSub (opts : Options) (m : Machine) (name value : Text) :
    Except Fault (Machine × List Event) :=
  match Decimal.int64? value with
  | none => .error (.notInteger value)
  | some n =>
    match m.store.get? name with
    | none => .ok (m, reportMissing opts name)
    | some current =>
      if n.toInt < 0 then .error (.negative n)
      else
        match m.store.sub name n with
        | some (.error _) => .error (.underflow name current n)
        | some (.ok store) => .ok ({ m with store := store }, [])
        | none => .ok (m, [])

/-- Writes the value of a variable on a line of its own. -/
def performPrint (opts : Options) (m : Machine) (name : Text) : Machine × List Event :=
  match m.store.get? name with
  | none => (m, reportMissing opts name)
  | some value => (m, [.output (Decimal.ofInt value.toInt ++ [Text.newline])])

/-- Removes a variable. -/
def performRem (opts : Options) (m : Machine) (name : Text) : Machine × List Event :=
  if m.store.contains name then ({ m with store := m.store.erase name }, [])
  else (m, reportMissing opts name)

/-- Moves control to the definition of a function; the position of the call is remembered. -/
def performCall (m : Machine) (function : Text) : Except Fault (Machine × List Event) :=
  match m.program.functions.get? function with
  | none => .error (.undefinedFunction function)
  | some target =>
    .ok ({ m with calls := m.calls.push m.pc, pc := target },
      [.note (.called function m.pc target (m.calls.size + 1))])

/-- Performs a statement. -/
def perform (opts : Options) (m : Machine) : Statement → Except Fault (Machine × List Event)
  | .blank => .ok (m, [])
  | .set name value => m.performSet name value
  | .sub name value => m.performSub opts name value
  | .print name => .ok (m.performPrint opts name)
  | .rem name => .ok (m.performRem opts name)
  | .call function => m.performCall function
  | .incomplete keyword => .error (.missingArguments keyword)
  | .unknown word => .error (.unknownCommand word)

end LineScript.Machine

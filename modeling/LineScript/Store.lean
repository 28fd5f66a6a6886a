import LineScript.Failure
import LineScript.Table

/-!
# Variables

A store gives values to variables. Values are 64-bit integers; those that programs store are
never negative.

## Main definitions

* `Store`: the variables and their values
* `difference?`: the difference of two values, unless it would fall below zero
* `Store.sub`: takes a value off a variable
-/

namespace LineScript

/-- The variables and their values. -/
abbrev Store : Type := Table Int64

/-- The difference of two values, unless the second one is the larger. -/
def difference? (current amount : Int64) : Option Int64 :=
  if current.toInt < amount.toInt then none else some (current - amount)

namespace Store

/-- Takes a value off a variable. There is no result for a variable that has no value, and an
underflow when the value taken off is the larger one. -/
def sub (s : Store) (name : Text) (amount : Int64) : Option (Except Fault Store) :=
  (s.get? name).map fun current =>
    match difference? current amount with
    | some rest => .ok (s.insert name rest)
    | none => .error (.bare .underflow)

/-- What is left of a variable that has a value. -/
theorem sub_of_get? {s : Store} {name : Text} {current : Int64} (h : s.get? name = some current)
    (amount : Int64) :
    s.sub name amount = some (match difference? current amount with
      | some rest => .ok (s.insert name rest)
      | none => .error (.bare .underflow)) := by
  rw [sub, h]
  rfl

end Store

end LineScript

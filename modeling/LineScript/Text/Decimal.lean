import LineScript.Text.Basic

/-!
# Decimal integers

The canonical decimal form of an integer, and the reading of one: an optional sign and one or
more digits, leading zeros allowed.

## Main definitions

* `Decimal.ofNat`, `Decimal.ofInt`: the canonical form
* `Decimal.nat?`, `Decimal.int?`: the value of a digit sequence and of a signed one
* `Decimal.int64?`: the same within 64 bits
-/

namespace LineScript.Decimal

/-- The canonical decimal form of a natural number, one byte for each digit. -/
def ofNat (n : Nat) : Text :=
  (Nat.toDigits 10 n).map fun c => UInt8.ofNat c.toNat

/-- The canonical decimal form of an integer. -/
def ofInt (n : Int) : Text :=
  if n < 0 then utf8 "-" ++ ofNat n.natAbs else ofNat n.natAbs

/-- The value of an ASCII digit. -/
def digit? (b : UInt8) : Option Nat :=
  if 48 ≤ b.toNat ∧ b.toNat ≤ 57 then some (b.toNat - 48) else none

/-- The number that decimal digits spell after others that spell `n`. -/
def digitsFrom? (n : Nat) : Text → Option Nat
  | [] => some n
  | b :: t => do digitsFrom? (10 * n + (← digit? b)) t

/-- The number that one or more decimal digits spell. -/
def nat? (t : Text) : Option Nat :=
  if t.isEmpty then none else digitsFrom? 0 t

/-- The number that decimal digits after an optional sign spell. -/
def int? : Text → Option Int
  | [] => none
  | b :: t =>
    if b = 43 then (nat? t).map Int.ofNat
    else if b = 45 then (nat? t).map fun n => -(n : Int)
    else (nat? (b :: t)).map Int.ofNat

/-- The integers that 64 bits hold. -/
def fits (n : Int) : Bool :=
  -0x8000000000000000 ≤ n && n < 0x8000000000000000

/-- The number that a decimal integer spells, if 64 bits hold it. -/
def int64? (t : Text) : Option Int64 :=
  ((int? t).filter fits).map Int64.ofInt

end LineScript.Decimal

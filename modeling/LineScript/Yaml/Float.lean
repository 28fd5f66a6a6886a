import LineScript.Text.Decimal
import LineScript.Text.Numeral

/-!
# Floating-point scalars

A scalar may be a floating-point number. Of its value only the integer part matters here: that
of the binary number with 53 significant bits nearest to what is written, ties going to the
even one.

## Main definitions

* `Yaml.FloatValue`: a floating-point value up to its fractional part
* `Yaml.FloatValue.ofText?`: the value of a decimal
* `Yaml.FloatValue.toInt64?`: the value as a 64-bit integer
-/

namespace LineScript.Yaml

/-- A floating-point value, up to its fractional part. -/
inductive FloatValue where
  | nan
  | infinite (negative : Bool)
  /-- A finite number, by its integer part, rounded toward zero. -/
  | finite (whole : Int)
  deriving DecidableEq, Repr

namespace FloatValue

/-- The quotient rounded to the nearest integer, a tie going to the even one. -/
def roundDiv (a b : Nat) : Nat :=
  let q := a / b
  let r := a % b
  if b < 2 * r ∨ (2 * r = b ∧ q % 2 = 1) then q + 1 else q

/-- The integer part of the fraction rounded to 53 significant bits. -/
def wholePart (num den : Nat) : Nat :=
  let q := num / den
  if 0x20000000000000 ≤ q then
    let unit := Nat.pow 2 (Nat.log2 q - 52)
    roundDiv num (den * unit) * unit
  else
    -- below one, the numbers just under one have 53 binary places
    let places := if q = 0 then 53 else 52 - Nat.log2 q
    roundDiv (num * Nat.pow 2 places) den / Nat.pow 2 places

/-- The number of digits that are needed to round a number; of further ones it only matters
whether they are all zero. -/
def digitLimit : Nat := 800

/-- The integer part of the number with the given digits times the given power of ten, unless
that is beyond every finite number. Very large and very small numbers are settled by how many
digits count. -/
def scale? (digits : Text) (exponent : Int) : Option Nat :=
  let digits := digits.dropWhile (· = 48)
  let magnitude := (digits.length : Int) + exponent
  if digits.isEmpty ∨ magnitude < -20 then some 0
  else if 400 < magnitude then none
  else do
    let rest := if (digits.drop digitLimit).all (· = 48) then [] else [49]
    let digits := digits.take digitLimit ++ rest
    let n ← Decimal.nat? digits
    let exponent := magnitude - digits.length
    let whole :=
      if exponent < 0 then wholePart n (Nat.pow 10 exponent.natAbs)
      else wholePart (n * Nat.pow 10 exponent.natAbs) 1
    if whole < Nat.pow 2 1024 then some whole else none

/-- The part of a text that consists of ASCII digits, and the rest. -/
def digitSpan (t : Text) : Text × Text :=
  t.span fun b => (Decimal.digit? b).isSome

/-- The number that the digits of an exponent spell after others that spell `n`. From ten
thousand on, further digits do not count. -/
def powerFrom? (n : Nat) : Text → Option Nat
  | [] => some n
  | b :: t => do
    let d ← Decimal.digit? b
    powerFrom? (if n < 10000 then 10 * n + d else n) t

/-- The exponent at the end of a decimal, zero if there is none. -/
def exponent? : Text → Option Int
  | [] => some 0
  | mark :: t =>
    let (negative, digits) := Numeral.sign t
    if (mark = 69 ∨ mark = 101) ∧ digits ≠ [] then
      (powerFrom? 0 digits).map fun n => if negative then -(n : Int) else n
    else none

/-- The value of a decimal with an optional sign: digits with an optional point, one digit at
least and one before the point unless it comes first, and an optional exponent. A decimal
beyond every finite number has no value. -/
def ofText? (t : Text) : Option FloatValue := do
  let (negative, t) := Numeral.sign t
  let (before, t) := digitSpan t
  let (after, t) := match t with
    | 46 :: t => digitSpan t
    | t => ([], t)
  if before.isEmpty && after.isEmpty then none
  else
    let exponent ← exponent? t
    let whole ← scale? (before ++ after) (exponent - after.length)
    some (.finite (if negative then -(whole : Int) else whole))

/-- The value nearest to an integer. -/
def ofInt (n : Int) : FloatValue :=
  let whole := wholePart n.natAbs 1
  .finite (if n < 0 then -(whole : Int) else whole)

/-- The value as a 64-bit integer, rounded toward zero. There is none for NaN and above
2 ^ 63; at 2 ^ 63 and below -2 ^ 63 it is the least integer. -/
def toInt64? : FloatValue → Option Int
  | nan => none
  | infinite negative => if negative then some least else none
  | finite whole =>
    if 0x8000000000000000 < whole then none
    else if Decimal.fits whole then some whole
    else some least
where
  /-- The least integer that 64 bits hold. -/
  least : Int := -0x8000000000000000

end FloatValue

end LineScript.Yaml

import LineScript.Yaml.Float
import LineScript.Yaml.Tag
import LineScript.Yaml.Timestamp

/-!
# Scalars

A plain scalar stands for the value that its spelling suggests. A quoted scalar is always a
string.

## Main definitions

* `Yaml.Scalar`: the values of scalars
* `Yaml.Scalar.ofPlain`: the value of a plain scalar
-/

namespace LineScript.Yaml

/-- The value of a scalar. Strings and timestamps are known by their text. -/
inductive Scalar where
  | null
  | bool (b : Bool)
  | int (n : Int)
  | float (f : FloatValue)
  | timestamp
  | str
  deriving DecidableEq, Repr

namespace Scalar

/-- The tag of a scalar. -/
def tag : Scalar → Tag
  | null => .null
  | bool _ => .bool
  | int _ => .int
  | float _ => .float
  | timestamp => .timestamp
  | str => .str

/-- The spellings with a value of their own. -/
def spellings : List (String × Scalar) :=
  [("", null), ("~", null), ("null", null), ("Null", null), ("NULL", null),
    ("true", bool true), ("True", bool true), ("TRUE", bool true),
    ("false", bool false), ("False", bool false), ("FALSE", bool false),
    (".nan", float .nan), (".NaN", float .nan), (".NAN", float .nan),
    (".inf", float (.infinite false)), (".Inf", float (.infinite false)),
    (".INF", float (.infinite false)), ("+.inf", float (.infinite false)),
    ("+.Inf", float (.infinite false)), ("+.INF", float (.infinite false)),
    ("-.inf", float (.infinite true)), ("-.Inf", float (.infinite true)),
    ("-.INF", float (.infinite true))]

/-- The value of one of the spellings. -/
def ofSpelling? (t : Text) : Option Scalar :=
  (spellings.find? fun p => utf8 p.1 = t).map (·.2)

/-- The integer of a numeral that is signed and within 64 bits, or unsigned and below
2 ^ 64. -/
def integer? (t : Text) : Option Int :=
  match Numeral.int t with
  | .ok n => some n
  | .error _ =>
    match Numeral.nat t with
    | .ok n => some n
    | .error _ => none

/-- The integer of a binary or octal numeral whose sign stands behind its radix. -/
def signedAfterRadix? : Text → Option Int
  | 48 :: letter :: t =>
    let (negative, digits) := Numeral.sign t
    let r := if letter = 98 then 2 else 8
    if (letter = 98 ∨ letter = 111) ∧ ¬ digits.isEmpty then
      match Numeral.digitsFrom r 0 digits with
      | .ok n =>
        let value := if negative then -(n : Int) else n
        if Decimal.fits value then some value else none
      | .error _ => none
    else none
  | _ => none

/-- The value of a plain scalar that starts with a digit or a sign. Underscores do not count,
except in a timestamp. -/
def ofNumber (t : Text) : Scalar :=
  if isTimestamp t then timestamp
  else
    let t := t.filter (· ≠ Numeral.separator)
    match integer? t with
    | some n => int n
    | none =>
      match FloatValue.ofText? t with
      | some f => float f
      | none =>
        match signedAfterRadix? t with
        | some n => int n
        | none => str

/-- The value of a plain scalar that starts with a point. -/
def ofFraction (t : Text) : Scalar :=
  if t.contains Numeral.separator && !Numeral.isSeparated t then str
  else
    match FloatValue.ofText? (t.filter (· ≠ Numeral.separator)) with
    | some f => float f
    | none => str

/-- The value of a plain scalar. -/
def ofPlain (t : Text) : Scalar :=
  match ofSpelling? t with
  | some value => value
  | none =>
    match t with
    | [] => null
    | b :: _ =>
      if b = 46 then ofFraction t
      else if b = 43 ∨ b = 45 ∨ (Decimal.digit? b).isSome then ofNumber t
      else str

end Scalar

end LineScript.Yaml

import LineScript.Text.Decimal

/-!
# Timestamps

A scalar may be a date, with or without a time of day. Only the form matters: settings hold no
timestamps, so a value of this form is a type error.

## Main definitions

* `Yaml.isTimestamp`: is the text a date or a date with a time?
-/

namespace LineScript.Yaml

namespace Timestamp

/-- A number of one or two digits, as many as there are, and the rest. -/
def short? : Text → Option (Nat × Text)
  | [] => none
  | a :: t => do
    let x ← Decimal.digit? a
    match t with
    | b :: rest =>
      match Decimal.digit? b with
      | some y => some (10 * x + y, rest)
      | none => some (x, b :: rest)
    | [] => some (x, [])

/-- A number of two digits, and the rest. -/
def two? : Text → Option (Nat × Text)
  | a :: b :: t => do
    let x ← Decimal.digit? a
    let y ← Decimal.digit? b
    some (10 * x + y, t)
  | _ => none

/-- The rest of a text after a byte that is expected. -/
def expect? (b : UInt8) : Text → Option Text
  | a :: t => if a = b then some t else none
  | [] => none

/-- The number of days of a month. -/
def daysIn (year month : Nat) : Nat :=
  match month with
  | 2 => if year % 4 = 0 ∧ (year % 100 ≠ 0 ∨ year % 400 = 0) then 29 else 28
  | 4 => 30
  | 6 => 30
  | 9 => 30
  | 11 => 30
  | _ => 31

/-- The rest of a text after a date: a year of four digits, a month and a day. -/
def date? (t : Text) : Option Text := do
  let year ← Decimal.nat? (t.take 4)
  let t ← expect? 45 (t.drop 4)
  let (month, t) ← short? t
  let t ← expect? 45 t
  let (day, t) ← short? t
  if 1 ≤ month ∧ month ≤ 12 ∧ 1 ≤ day ∧ day ≤ daysIn year month then some t else none

/-- The rest of a text after a fraction of a second, if there is one. -/
def afterFraction : Text → Text
  | mark :: d :: t =>
    if (mark = 46 ∨ mark = 44) ∧ (Decimal.digit? d).isSome then
      t.dropWhile fun b => (Decimal.digit? b).isSome
    else mark :: d :: t
  | t => t

/-- The rest of a text after a time of day. -/
def time? (t : Text) : Option Text := do
  let (hour, t) ← short? t
  let t ← expect? 58 t
  let (minute, t) ← short? t
  let t ← expect? 58 t
  let (second, t) ← short? t
  if hour < 24 ∧ minute < 60 ∧ second < 60 then some (afterFraction t) else none

/-- Is the text a time zone: `Z`, or a sign with hours and minutes? -/
def isZone : Text → Bool
  | [90] => true
  | mark :: t =>
    (mark = 43 || mark = 45) && (do
      let (hours, t) ← two? t
      let t ← expect? 58 t
      let (minutes, t) ← two? t
      some (hours ≤ 24 && minutes ≤ 60 && t.isEmpty)).getD false
  | [] => false

end Timestamp

/-- Is the text a date, a date and a time with a zone after `T`, or a date and a time without
zone after spaces? -/
def isTimestamp (t : Text) : Bool :=
  match Timestamp.date? t with
  | none => false
  | some [] => true
  | some (mark :: t) =>
    if mark = 84 ∨ mark = 116 then
      match Timestamp.time? t with
      | some rest => Timestamp.isZone rest
      | none => false
    else if mark = 32 then Timestamp.time? (t.dropWhile (· = 32)) = some []
    else false

end LineScript.Yaml

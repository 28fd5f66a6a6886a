import LineScript.Text.Basic

/-!
# Numerals with a radix

An integer can be written in decimal, or in binary, octal or hexadecimal after `0b`, `0o` and
`0x`; a leading zero alone means octal. Underscores may separate digits.

## Main definitions

* `Numeral.Fault`: why a text is no numeral
* `Numeral.nat`: an unsigned numeral below 2 ^ 64
* `Numeral.int`: a signed numeral that 64 bits hold
-/

namespace LineScript.Numeral

/-- Why a text is no numeral. -/
inductive Fault where
  | malformed
  | outOfRange
  deriving DecidableEq, Repr

/-- The lower-case form of an ASCII letter. -/
def lower (b : UInt8) : UInt8 :=
  if 65 ≤ b.toNat ∧ b.toNat ≤ 90 then UInt8.ofNat (b.toNat + 32) else b

/-- The byte that separates digits. -/
def separator : UInt8 := 95

/-- The value of a digit in the largest radix there is: after nine the letters go on. -/
def digit? (b : UInt8) : Option Nat :=
  let n := (lower b).toNat
  if 48 ≤ n ∧ n ≤ 57 then some (n - 48)
  else if 97 ≤ n ∧ n ≤ 122 then some (n - 87)
  else none

/-- The radix that a letter after a leading zero stands for. -/
def radixOf? (b : UInt8) : Option Nat :=
  match lower b with
  | 98 => some 2
  | 111 => some 8
  | 120 => some 16
  | _ => none

/-- The radix of a numeral and its digits. A letter counts only if something follows it. -/
def radix : Text → Nat × Text
  | 48 :: letter :: d :: rest =>
    match radixOf? letter with
    | some r => (r, d :: rest)
    | none => (8, letter :: d :: rest)
  | 48 :: rest => (8, rest)
  | digits => (10, digits)

/-- The value of digits in a radix, after others with value `n`. Separators are passed over;
reading stops as soon as the value leaves 64 bits. -/
def digitsFrom (r : Nat) : (n : Nat) → Text → Except Fault Nat
  | n, [] => .ok n
  | n, b :: rest =>
    if b = separator then digitsFrom r n rest
    else
      match digit? b with
      | none => .error .malformed
      | some d =>
        if r ≤ d then .error .malformed
        else if 0x10000000000000000 ≤ n * r + d then .error .outOfRange
        else digitsFrom r (n * r + d) rest

/-- What stands before a position in a numeral. -/
inductive Before where
  | start
  | digit
  | separator
  | other
  deriving DecidableEq, Repr

/-- Does every separator stand between two digits? -/
def separatedFrom (hexadecimal : Bool) : Before → Text → Bool
  | before, [] => before ≠ .separator
  | before, b :: rest =>
    let n := (lower b).toNat
    if (48 ≤ n && n ≤ 57) || (hexadecimal && 97 ≤ n && n ≤ 102) then
      separatedFrom hexadecimal .digit rest
    else if b = separator then before = .digit && separatedFrom hexadecimal .separator rest
    else before ≠ .separator && separatedFrom hexadecimal .other rest

/-- Does every separator of an unsigned numeral stand between two digits? A radix counts as a
digit here. -/
def isSeparated : Text → Bool
  | 48 :: letter :: rest =>
    match radixOf? letter with
    | some r => separatedFrom (r = 16) .digit rest
    | none => separatedFrom false .start (48 :: letter :: rest)
  | t => separatedFrom false .start t

/-- The value of an unsigned numeral. -/
def nat (t : Text) : Except Fault Nat :=
  if t.isEmpty then .error .malformed
  else
    let (r, digits) := radix t
    match digitsFrom r 0 digits with
    | .error fault => .error fault
    | .ok n => if t.contains separator && !isSeparated t then .error .malformed else .ok n

/-- The sign of a numeral, true for minus, and what follows it. -/
def sign : Text → Bool × Text
  | 43 :: rest => (false, rest)
  | 45 :: rest => (true, rest)
  | t => (false, t)

/-- The value of a numeral with an optional sign, within 64 bits. -/
def int (t : Text) : Except Fault Int :=
  let (negative, rest) := sign t
  match nat rest with
  | .error fault => .error fault
  | .ok n =>
    if negative then
      if n ≤ 0x8000000000000000 then .ok (-(n : Int)) else .error .outOfRange
    else if n < 0x8000000000000000 then .ok n
    else .error .outOfRange

end LineScript.Numeral

import LineScript.Text.Basic

/-!
# Base 64

Binary values are written in base 64, four characters for three bytes. Line ends do not count,
and the last group is filled up with equals signs.

## Main definitions

* `Yaml.Base64.decode?`: the bytes that a text stands for
-/

namespace LineScript.Yaml.Base64

/-- The value of a character. -/
def digit? (b : UInt8) : Option Nat :=
  let n := b.toNat
  if 65 ≤ n ∧ n ≤ 90 then some (n - 65)
  else if 97 ≤ n ∧ n ≤ 122 then some (n - 71)
  else if 48 ≤ n ∧ n ≤ 57 then some (n + 4)
  else if n = 43 then some 62
  else if n = 47 then some 63
  else none

/-- The character that fills up the last group. -/
def pad : UInt8 := 61

/-- The bytes of a sequence of groups. Bits that are left over do not count. -/
def groups? : Text → Option Text
  | [] => some []
  | a :: b :: c :: d :: rest => do
    let x ← digit? a
    let y ← digit? b
    let first := UInt8.ofNat (x * 4 + y / 16)
    if c = pad then
      if d = pad ∧ rest = [] then some [first] else none
    else
      let z ← digit? c
      let second := UInt8.ofNat (y % 16 * 16 + z / 4)
      if d = pad then
        if rest = [] then some [first, second] else none
      else
        let w ← digit? d
        let third := UInt8.ofNat (z % 4 * 64 + w)
        (groups? rest).map fun bytes => first :: second :: third :: bytes
  | _ => none

/-- The bytes that a text stands for. -/
def decode? (t : Text) : Option Text :=
  groups? (t.filter fun b => b ≠ Text.newline ∧ b ≠ Text.carriageReturn)

end LineScript.Yaml.Base64

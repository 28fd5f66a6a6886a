import LineScript.Failure
import LineScript.Line
import LineScript.Table

/-!
# Programs

A program is a table of lines with an index of the functions they define. Lines are loaded in
blocks: a block is appended whole, or refused whole when one of its definitions is at fault.

## Main definitions

* `Program`: the line table and the function index
* `Program.load`: appends a block of lines
* `Program.leavesBlock`: a body ends before the line
* `Program.afterDefinitions`: where control goes on behind function definitions
-/

namespace LineScript

/-- The line table, with the index of the line that defines each function. -/
structure Program where
  lines : Array Text
  functions : Table Nat
  deriving DecidableEq, Repr

namespace Program

/-- The program without lines. -/
def empty : Program := ⟨#[], .empty⟩

instance : Inhabited Program := ⟨empty⟩

/-- The number of lines. -/
def size (p : Program) : Nat := p.lines.size

/-! ## Loading -/

/-- Adds the definition at a line, if it is one, to those found in the block so far. Unless
redefinition is allowed, a name may be defined once: neither by a line loaded earlier nor by
an earlier line of the block. -/
def addDefinition (redefine : Bool) (known found : Table Nat) (index : Nat) (line : Text) :
    Except Fault (Table Nat) :=
  if Line.isDefinition line then
    match line.words with
    | _ :: name :: _ =>
      match (if redefine then none else (known.get? name).or (found.get? name)) with
      | some first => .error (.duplicateDefinition name index first)
      | none => .ok (found.insert name index)
    | _ => .error (.namelessDefinition line index)
  else .ok found

/-- The definitions of a block whose first line has the given index. The first line at fault
decides. -/
def definitions (redefine : Bool) (known : Table Nat) :
    (index : Nat) → (found : Table Nat) → (block : List Text) → Except Fault (Table Nat)
  | _, found, [] => .ok found
  | index, found, line :: block =>
    match addDefinition redefine known found index line with
    | .ok found => definitions redefine known (index + 1) found block
    | .error fault => .error fault

/-- The definitions of a block that is to be appended. -/
def definitionsOf (p : Program) (redefine : Bool) (block : List Text) :
    Except Fault (Table Nat) :=
  definitions redefine p.functions p.size .empty block

/-- Appends a block that has these definitions. -/
def append (p : Program) (block : List Text) (found : Table Nat) : Program :=
  ⟨p.lines ++ block, p.functions.union found⟩

/-- Appends a block of lines and indexes its definitions. -/
def load (p : Program) (redefine : Bool) (block : List Text) : Except Fault Program :=
  (p.definitionsOf redefine block).map (p.append block)

/-! ## The shape of a program -/

/-- A body ends before the line at `pc`: either the table ends there, or the line is not
indented while the one before it belongs to a function. -/
def leavesBlock (p : Program) (pc : Nat) : Bool :=
  match p.lines[pc]? with
  | none => true
  | some line => p.lines[pc - 1]?.any Line.isSkipped && !Line.isIndented line

/-- The first position from `pc` on whose line belongs to no function. -/
def afterDefinitions (p : Program) (pc : Nat) : Nat :=
  pc + ((p.lines.toList.drop pc).takeWhile Line.isSkipped).length

end Program

end LineScript

import LineScript.Shell.Basic

/-!
# Scripts

A script is fed to a shell line by line, up to the first failure. Lines end at LF or CR LF and
must be shorter than `Script.lineLimit` bytes.

## Main definitions

* `Script`: the lines of a script, and what kept the rest from being read
* `Script.ofText`: the lines of a text
* `Resource`: what stands under a file name
* `Shell.runScript`, `Shell.runFile`: feed a script, a script file
-/

namespace LineScript

/-- The lines of a script that can be read, and why reading ended early, if it did. -/
structure Script where
  lines : List Text
  fault : Option Failure
  deriving DecidableEq, Repr

namespace Script

/-- A line of this many bytes, its line end not counted, is not read. -/
def lineLimit : Nat := 65536

/-- The pieces of a text that are its lines: what follows the last newline is one only if it is
not empty. -/
def pieces (t : Text) : List Text :=
  let all := t.splitLines
  if all.getLast? = some [] then all.dropLast else all

/-- The lines of a text, up to the first one that is too long. -/
def ofText (t : Text) : Script :=
  let (short, rest) := (pieces t).span fun piece => decide (piece.length < lineLimit)
  ⟨short.map Text.chomp, if rest.isEmpty then none else some .lineTooLong⟩

end Script

/-- What stands under a file name. -/
inductive Resource where
  | missing
  | directory
  | content (text : Text)
  deriving DecidableEq, Repr

namespace Shell

/-- Feeds lines up to the first failure, which is reported with the number of its line. -/
def feedAll (opts : Options) (fuel : Nat) :
    (number : Nat) → List Text → Shell → Option (Reply Shell Unit)
  | _, [], s => some (.pure s ())
  | number, line :: lines, s => do
    let r ← s.feed opts fuel line
    match r.result with
    | .error _ => some (r.within (utf8 "script line " ++ Decimal.ofNat number))
    | .ok () => (feedAll opts fuel (number + 1) lines r.state).map (·.after r.events)

/-- The end of a script. A block that is still open is handed over, with a warning. -/
def endScript (opts : Options) (fuel : Nat) (s : Shell) : Option (Reply Shell Unit) :=
  if s.collecting then
    (s.flush opts fuel).map fun r =>
      (r.mapState fun s => { s with collecting := false }).after
        [.note (.scriptEndedInBlock s.pending.size)]
  else some (.pure s ())

/-- Feeds a script. -/
def runScript (opts : Options) (fuel : Nat) (s : Shell) (script : Script) :
    Option (Reply Shell Unit) := do
  let r ← feedAll opts fuel 1 script.lines s
  match r.result with
  | .error _ => some r
  | .ok () =>
    match script.fault with
    | some failure =>
      some ⟨r.state, r.events, .error (.context (utf8 "reading script") failure)⟩
    | none => (r.state.endScript opts fuel).map (·.after r.events)

/-- Feeds the script that stands under a file name. -/
def runFile (opts : Options) (fuel : Nat) (s : Shell) (path : Text) (resource : Resource) :
    Option (Reply Shell Unit) :=
  let reply : Option (Reply Shell Unit) := match resource with
    | .missing => some (.fail s (.context (utf8 "opening " ++ path) (.missingFile path)))
    | .directory => s.runScript opts fuel ⟨[], some (.directory path)⟩
    | .content text => s.runScript opts fuel (.ofText text)
  reply.map (·.after [.note (.fileChosen path)])

end Shell

end LineScript

import LineScript.CommandLine.Basic
import LineScript.Shell.Interactive

/-!
# The executable

Reads files, standard input and the terminal, and writes what the program says. All decisions
are made by `CommandLine` and `Shell`.
-/

namespace LineScript.Executable

/-- More steps than any run can take. -/
def fuel : Nat := 0x4000000000000000

/-- Bytes for a stream. -/
def bytes (t : Text) : ByteArray := ⟨t.toArray⟩

/-- What stands under a file name. -/
def look (path : String) : IO Resource := do
  try
    let content ← IO.FS.readBinFile path
    return .content content.toList
  catch
    | .noFileOrDirectory .. => return .missing
    | _ => return .directory

/-- What stands under each of some file names. -/
def lookAll (paths : List Text) : IO (List (Text × Resource)) :=
  paths.mapM fun path => do
    match String.fromUTF8? (bytes path) with
    | some name => return (path, ← look name)
    | none => return (path, .missing)

/-- Writes what a step of a session says: text for the user and the log. -/
def emit (format : Log.Format) (events : List Event) : IO Unit := do
  let out ← IO.getStdout
  out.write (bytes (Event.shownOf events))
  out.flush
  (← IO.getStderr).write (bytes (format.ofEvents events))

/-- The terminal: a line is read from standard input, and an empty one is the end of it. -/
def terminal (format : Log.Format) : Terminal IO where
  tell := emit format
  ask := do
    let line := (← (← IO.getStdin).getLine).toUTF8.toList
    if line.isEmpty then return .stop
    return .line (if line.getLast? = some Text.newline then line.dropLast else line)

/-- A session on the terminal, with the history in the user's home directory. -/
def session (plan : CommandLine.Plan) : IO UInt32 := do
  let file := (← IO.getEnv "HOME").map (· ++ "/.kizhi_history")
  let history ← match file with
    | some path =>
      match ← look path with
      | .content t => pure (History.ofText t)
      | _ => pure .empty
    | none => pure .empty
  let (ended, history) ← Shell.interact (terminal plan.format) plan.settings.options fuel
    (!plan.settings.noColor) fuel (.around .initial) history
  if let some path := file then
    IO.FS.writeBinFile path (bytes history.toText)
  match ended with
  | some (_, .error failure) =>
    let record := CommandLine.fatal "Execution failed" failure
    (← IO.getStderr).write (bytes (plan.format.ofRecord record))
    return 1
  | _ => return 0

/-- Writes an outcome and ends with its exit code. -/
def finish (o : CommandLine.Outcome) : IO UInt32 := do
  (← IO.getStdout).write (bytes o.stdout)
  (← IO.getStderr).write (bytes o.stderr)
  return UInt32.ofNat o.exitCode

end LineScript.Executable

open LineScript in
/-- Runs the command line, on the terminal if there is one and no script is named. -/
def main (arguments : List String) : IO UInt32 := do
  let arguments := arguments.map utf8
  let found ← Executable.lookAll (CommandLine.filesNamed arguments)
  let files := fun path => (found.lookup path).getD .missing
  match CommandLine.plan files arguments with
  | .error outcome => Executable.finish outcome
  | .ok plan =>
    let stdin ← IO.getStdin
    if plan.script.isNone && (← stdin.isTty) then Executable.session plan
    else
      let input ← if plan.script.isNone then stdin.readBinToEnd else pure .empty
      match plan.reply Executable.fuel files input.toList with
      | some r => Executable.finish (plan.outcome r)
      | none => return 1

import LineScript.Shell.Session
import LineScript.Terminal.History

/-!
# Interactive sessions

A session on a terminal that keeps a history of the lines entered.

## Main definitions

* `Event.shownOf`: what the user sees of some events
* `Terminal.recording`: a terminal that keeps a history
* `Shell.interact`: a session with a history
-/

namespace LineScript

/-- What the user of a session sees: prompts, what the program writes and what the session
says, in their order. -/
def Event.shownOf (events : List Event) : Text :=
  events.flatMap fun
    | output text => text
    | session text => text
    | prompt text => text
    | note _ => []

/-- The history after an answer: lines are kept. -/
def History.hear (h : History) : Answer → History
  | .line text => h.add text
  | _ => h

/-- The same terminal, with a history of the lines that are entered on it. -/
@[specialize] def Terminal.recording {M : Type → Type} [Monad M] (t : Terminal M) :
    Terminal (StateT History M) where
  tell events := StateT.lift (t.tell events)
  ask := do
    let answer ← StateT.lift t.ask
    modify (·.hear answer)
    pure answer

/-- A session on a terminal, with at most `turns` prompts: how it ended, and the history. -/
@[specialize] def Shell.interact {M : Type → Type} [Monad M] (t : Terminal M) (opts : Options)
    (fuel : Nat) (colored : Bool) (turns : Nat) (s : Shell) (history : History) :
    M (Option (Shell × Except Failure Unit) × History) :=
  (s.converseOn t.recording opts fuel colored turns).run history

end LineScript

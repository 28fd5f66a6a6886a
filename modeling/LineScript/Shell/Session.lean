import LineScript.Shell.Basic
import LineScript.Terminal.Style

/-!
# Sessions

In a session the shell asks for one line after another. Failures are shown and the session goes
on; it ends with the input, on an exit word, or when the terminal fails. There is one loop for all
sessions, in the monad in which the terminal shows and asks; with a list of answers for a terminal
it is a function.

## Main definitions

* `Answer`: what the user does at a prompt
* `Terminal`: what a session is held on
* `Shell.respond`: the reaction to one answer
* `Shell.converseOn`: a session on a terminal
* `Shell.converse`: a session with given answers

## Main results

* `Shell.converse_cons`: a session, answer by answer
-/

namespace LineScript

/-- What comes back from a prompt. -/
inductive Answer where
  /-- A line was entered. -/
  | line (text : Text)
  /-- The line was abandoned. -/
  | abandon
  /-- The input ended. -/
  | stop
  /-- The terminal failed. -/
  | failure (message : Text)
  deriving DecidableEq, Repr

/-- What a session is held on: a terminal shows events and asks for an answer. -/
structure Terminal (M : Type → Type) where
  tell : List Event → M Unit
  ask : M Answer

/-- A terminal with given answers: those that have not been asked for, and what it has shown. -/
structure Rehearsal where
  unread : List Answer
  shown : List Event

/-- The terminal that has its answers from a list. The input ends behind them. -/
def Terminal.rehearsed : Terminal (StateM Rehearsal) where
  tell events := modify fun r => { r with shown := r.shown ++ events }
  ask := modifyGet fun r =>
    match r.unread with
    | [] => (.stop, r)
    | answer :: unread => (answer, { r with unread := unread })

namespace Shell

/-- The prompt shows whether a block is being entered. -/
def prompt (s : Shell) : Text :=
  if s.collecting then utf8 "....> " else utf8 "kizhi> "

/-- The words that end a session when they stand alone on a line. -/
def isExitWord (t : Text) : Bool :=
  decide (t = utf8 "exit") || decide (t = utf8 "quit")

/-- The reaction to an answer; the result says whether the session is over. Abandoning a line
drops the block that is being entered, and inside a block the exit words are lines like any
other. -/
def respond (opts : Options) (fuel : Nat) (colored : Bool) (s : Shell) :
    Answer → Option (Reply Shell Bool)
  | .stop => some ⟨s, [.session [Text.newline]], .ok true⟩
  | .abandon =>
    if s.collecting then
      some ⟨s.discard, [.note (.blockAbandoned s.pending.size)], .ok false⟩
    else some (.pure s false)
  | .failure message => some (.fail s (.other message))
  | .line text =>
    if !s.collecting && isExitWord text.trim then some (.pure s true)
    else
      (s.feed opts fuel text).map fun r =>
        match r.result with
        | .ok () => ⟨r.state, r.events, .ok false⟩
        | .error failure =>
          let shown := failure.describe colored ++ [Text.newline]
          ⟨r.state, r.events ++ [.session shown], .ok false⟩

/-- A session on a terminal, with at most `turns` prompts: the shell it leaves, and its result.
There is none if so many prompts, or the steps of a run, do not suffice. -/
@[specialize] def converseOn {M : Type → Type} [Monad M] (t : Terminal M) (opts : Options)
    (fuel : Nat) (colored : Bool) :
    (turns : Nat) → Shell → M (Option (Shell × Except Failure Unit))
  | 0, _ => pure none
  | turns + 1, s => do
    t.tell [.prompt s.prompt]
    let answer ← t.ask
    match s.respond opts fuel colored answer with
    | none => pure none
    | some r =>
      t.tell r.events
      match r.result with
      | .error failure => pure (some (r.state, .error failure))
      | .ok true => pure (some (r.state, .ok ()))
      | .ok false => converseOn t opts fuel colored turns r.state

/-- How a session ended: the reply, and the answers that were not asked for any more. -/
structure Conversation where
  reply : Reply Shell Unit
  unread : List Answer

/-- The same session after earlier events. -/
def Conversation.after (c : Conversation) (events : List Event) : Conversation :=
  { c with reply := c.reply.after events }

/-- A session with answers from a list, from some point on. -/
def rehearse (opts : Options) (fuel : Nat) (colored : Bool) (turns : Nat) (s : Shell)
    (r : Rehearsal) : Option (Shell × Except Failure Unit) × Rehearsal :=
  (s.converseOn .rehearsed opts fuel colored turns).run r

/-- What is left behind when a session with answers from a list has ended. -/
def conclude (q : Option (Shell × Except Failure Unit) × Rehearsal) : Option Conversation :=
  q.1.map fun ended => ⟨⟨ended.1, q.2.shown, ended.2⟩, q.2.unread⟩

/-- A session with the given answers, one for each prompt. The input ends behind them. -/
def converse (opts : Options) (fuel : Nat) (colored : Bool) (answers : List Answer) (s : Shell) :
    Option Conversation :=
  conclude (s.rehearse opts fuel colored (answers.length + 1) ⟨answers, []⟩)

section Rehearsed

variable (opts : Options) (fuel : Nat) (colored : Bool)

/-- One turn of a session with answers from a list. -/
theorem rehearse_succ (turns : Nat) (s : Shell) (answers : List Answer) (shown : List Event) :
    s.rehearse opts fuel colored (turns + 1) ⟨answers, shown⟩ =
      match s.respond opts fuel colored (answers.headD .stop) with
      | none => (none, ⟨answers.tail, shown ++ [.prompt s.prompt]⟩)
      | some r =>
        match r.result with
        | .error failure =>
          (some (r.state, .error failure), ⟨answers.tail, shown ++ [.prompt s.prompt] ++ r.events⟩)
        | .ok true =>
          (some (r.state, .ok ()), ⟨answers.tail, shown ++ [.prompt s.prompt] ++ r.events⟩)
        | .ok false =>
          r.state.rehearse opts fuel colored turns
            ⟨answers.tail, shown ++ [.prompt s.prompt] ++ r.events⟩ := by
  cases answers with
  | nil => rfl
  | cons answer answers =>
    simp only [rehearse, converseOn, Terminal.rehearsed, StateT.run_bind, StateT.run_modify,
      StateT.run_modifyGet, pure_bind, List.headD_cons, List.tail_cons]
    cases s.respond opts fuel colored answer with
    | none => rfl
    | some r => obtain ⟨state, events, failure | (_ | _)⟩ := r <;> rfl

/-- What has been shown before makes no difference to how a session ends. -/
theorem conclude_rehearse (turns : Nat) (s : Shell) (answers : List Answer)
    (before shown : List Event) :
    conclude (s.rehearse opts fuel colored turns ⟨answers, before ++ shown⟩) =
      (conclude (s.rehearse opts fuel colored turns ⟨answers, shown⟩)).map (·.after before) := by
  induction turns generalizing s answers shown with
  | zero => rfl
  | succ turns ih =>
    rw [rehearse_succ, rehearse_succ]
    cases s.respond opts fuel colored (answers.headD .stop) with
    | none => rfl
    | some r =>
      simp only [List.append_assoc]
      obtain ⟨state, events, failure | (_ | _)⟩ := r
      · rfl
      · exact ih state answers.tail _
      · rfl

/-- **A session, answer by answer.** -/
theorem converse_cons (answer : Answer) (answers : List Answer) (s : Shell) :
    converse opts fuel colored (answer :: answers) s =
      (s.respond opts fuel colored answer).bind fun r =>
        match r.result with
        | .error failure => some ⟨⟨r.state, .prompt s.prompt :: r.events, .error failure⟩, answers⟩
        | .ok true => some ⟨⟨r.state, .prompt s.prompt :: r.events, .ok ()⟩, answers⟩
        | .ok false =>
          (converse opts fuel colored answers r.state).map
            (·.after (.prompt s.prompt :: r.events)) := by
  rw [converse, List.length_cons, rehearse_succ, List.headD_cons, List.tail_cons]
  cases s.respond opts fuel colored answer with
  | none => rfl
  | some r =>
    obtain ⟨state, events, failure | (_ | _)⟩ := r
    · rfl
    · have hrest := conclude_rehearse opts fuel colored (answers.length + 1) state answers
        (.prompt s.prompt :: events) []
      rwa [List.append_nil] at hrest
    · rfl

end Rehearsed

end Shell

end LineScript

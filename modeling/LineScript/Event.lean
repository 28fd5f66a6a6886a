import LineScript.Failure

/-!
# What operations report

An operation on a machine or a shell gives a reply: the state it leaves, what it emitted on the
way, and its result. Output and log are data, in the order in which they arise.

## Main definitions

* `Note`: something worth logging
* `Event`: something emitted, a note or text for one of the readers
* `Reply`: state, events and result of an operation
-/

namespace LineScript

/-- Something worth logging. -/
inductive Note where
  /-- A block was appended, with so many names defined by it. -/
  | loaded (lines functions total : Nat)
  /-- A run of the program begins. -/
  | runStarted (lines functions : Nat)
  /-- A run or an immediate call was stopped by a failure. -/
  | runAborted (line depth : Nat) (failure : Failure)
  /-- The program came to its end, with so many variables. -/
  | runFinished (steps named : Nat)
  /-- Control went past function definitions. -/
  | skipped (start stop : Nat)
  /-- A call from a line of the program, which is pending with others now. -/
  | called (function : Text) (source target depth : Nat)
  /-- A call from outside the program. -/
  | calledImmediately (function : Text) (line : Nat)
  /-- A body ended, and so many calls are still pending. -/
  | returned (target depth : Nat)
  /-- A statement names a variable that has no value. -/
  | variableMissing (name : Text)
  /-- A script file is about to be read. -/
  | fileChosen (path : Text)
  /-- The lines of a block are handed to the machine. -/
  | blockSubmitted (lines : Nat)
  /-- The lines of a block are dropped. -/
  | blockAbandoned (pending : Nat)
  /-- A script ended inside a block. -/
  | scriptEndedInBlock (pending : Nat)
  deriving DecidableEq, Repr

/-- Something emitted by an operation. -/
inductive Event where
  /-- Text that the program writes. -/
  | output (text : Text)
  /-- Text that a session writes to its user. -/
  | session (text : Text)
  /-- A prompt shown to the user. -/
  | prompt (text : Text)
  /-- A note for the log. -/
  | note (n : Note)
  deriving DecidableEq, Repr

namespace Event

/-- The text that the program wrote, of some events. -/
def outputOf (events : List Event) : Text :=
  events.flatMap fun
    | output text => text
    | _ => []

@[simp] theorem outputOf_nil : outputOf [] = [] := rfl

@[simp] theorem outputOf_append (a b : List Event) :
    outputOf (a ++ b) = outputOf a ++ outputOf b := by
  simp [outputOf]

end Event

/-- What an operation leaves behind: a state, the events on the way, and a result. -/
structure Reply (σ α : Type) where
  state : σ
  events : List Event
  result : Except Failure α

namespace Reply

variable {σ τ α : Type}

/-- The reply of an operation that emits nothing. -/
def pure (state : σ) (value : α) : Reply σ α := ⟨state, [], .ok value⟩

/-- The reply of an operation that fails and emits nothing. -/
def fail (state : σ) (failure : Failure) : Reply σ α := ⟨state, [], .error failure⟩

/-- The same reply after earlier events. -/
def after (r : Reply σ α) (events : List Event) : Reply σ α :=
  { r with events := events ++ r.events }

/-- The same reply with its state seen as part of another. -/
def mapState (f : σ → τ) (r : Reply σ α) : Reply τ α :=
  ⟨f r.state, r.events, r.result⟩

/-- The same reply with its failure, if it is one, put in a context. -/
def within (activity : Text) (r : Reply σ α) : Reply σ α :=
  { r with result := r.result.mapError (Failure.context activity) }

end Reply

end LineScript

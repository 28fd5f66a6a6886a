import LineScript.Proofs.Reachable
import LineScript.Shell.Script
import LineScript.Shell.Session

/-!
# Uses of a shell

A shell is used by feeding lines to it, by running scripts and script files, and in sessions.
What is in it at any time is the outcome of a trace of such uses, which began with an initial
machine. Whether a use comes to its end may take any number of steps; how it ends does not depend
on the number that was allowed.

## Main definitions

* `Shell.Call`, `Shell.Answers`: the uses of a shell, and their replies
* `Shell.Trace`: a sequence of uses, with the shell that each of them finds
* `Shell.Fed`: lines that were fed to a fresh shell, all with success

## Main results

* `Shell.feed_mono`, `Shell.feedAll_mono`: more steps do not change what feeding lines does
-/

namespace LineScript

namespace Shell

/-- A use of a shell. -/
inductive Call where
  /-- A single line is fed. -/
  | feed (line : Text)
  /-- A script is fed. -/
  | script (script : Script)
  /-- A script file is fed. -/
  | file (path : Text) (resource : Resource)
  /-- A session is held, with these answers at its prompts. -/
  | session (answers : List Answer)
  deriving DecidableEq, Repr

/-- Carries out a use of a shell. -/
def handle (opts : Options) (fuel : Nat) (colored : Bool) (s : Shell) :
    Call → Option (Reply Shell Unit)
  | .feed line => s.feed opts fuel line
  | .script script => s.runScript opts fuel script
  | .file path resource => s.runFile opts fuel path resource
  | .session answers => (converse opts fuel colored answers s).map (·.reply)

/-- The shell answers a use by a reply. -/
def Answers (opts : Options) (colored : Bool) (s : Shell) (call : Call) (r : Reply Shell Unit) :
    Prop :=
  ∃ fuel, s.handle opts fuel colored call = some r

/-- A trace of uses leads to a shell. Each use is listed with the shell that it finds, the
latest one first. -/
inductive Trace (opts : Options) (colored : Bool) : List (Shell × Call) → Shell → Prop
  | fresh : Trace opts colored [] (around .initial)
  | call {past : List (Shell × Call)} {s : Shell} {call : Call} {r : Reply Shell Unit}
      (h : Trace opts colored past s) (hr : s.Answers opts colored call r) :
      Trace opts colored ((s, call) :: past) r.state

/-- **Lines are fed to a fresh shell one after another**, all with success, and have written a
text together. Each line is listed with the shell that it finds, the first one first. -/
inductive Fed (opts : Options) : List (Shell × Text) → Text → Shell → Prop
  | fresh : Fed opts [] [] (around .initial)
  | feed {past : List (Shell × Text)} {out : Text} {s : Shell} {fuel : Nat} {line : Text}
      {r : Reply Shell Unit} (h : Fed opts past out s) (hr : s.feed opts fuel line = some r)
      (hok : r.result = .ok ()) :
      Fed opts (past ++ [(s, line)]) (out ++ Event.outputOf r.events) r.state

variable {opts : Options} {fuel fuel' : Nat} {s : Shell} {r : Reply Shell Unit}

/-! ## One line -/

theorem feed_of_command {line : Text} {c : ModeCommand}
    (hc : ModeCommand.ofText? line.chomp = some c) :
    s.feed opts fuel line = s.command opts fuel c := by
  simp only [feed, hc]

theorem feed_of_collecting {line : Text} (hc : ModeCommand.ofText? line.chomp = none)
    (hs : s.collecting = true) :
    s.feed opts fuel line =
      some (.pure { s with pending := s.pending.push line.chomp } ()) := by
  simp only [feed, hc, hs, if_true]

theorem feed_of_text {line : Text} (hc : ModeCommand.ofText? line.chomp = none)
    (hs : s.collecting = false) : s.feed opts fuel line = s.submit opts fuel line.chomp := by
  simp only [feed, hc, hs, Bool.false_eq_true, if_false]

/-! ## More steps -/

theorem submit_mono {text : Text} (hle : fuel ≤ fuel') (h : s.submit opts fuel text = some r) :
    s.submit opts fuel' text = some r := by
  obtain ⟨r', hr', rfl⟩ := Option.map_eq_some_iff.mp h
  exact Option.map_eq_some_iff.mpr ⟨r', Machine.submit_mono hle hr', rfl⟩

theorem flush_mono (hle : fuel ≤ fuel') (h : s.flush opts fuel = some r) :
    s.flush opts fuel' = some r := by
  unfold flush at h ⊢
  split at h
  · next hnone => rwa [if_pos hnone]
  · next hsome =>
    rw [if_neg hsome]
    obtain ⟨r', hr', rfl⟩ := Option.map_eq_some_iff.mp h
    exact Option.map_eq_some_iff.mpr ⟨r', submit_mono hle hr', rfl⟩

theorem command_mono {c : ModeCommand} (hle : fuel ≤ fuel')
    (h : s.command opts fuel c = some r) : s.command opts fuel' c = some r := by
  cases c with
  | openCode => exact submit_mono hle h
  | closeCode =>
    obtain ⟨flushed, hflushed, h⟩ := Option.bind_eq_some_iff.mp h
    obtain ⟨closed, hclosed, h⟩ := Option.bind_eq_some_iff.mp h
    exact Option.bind_eq_some_iff.mpr ⟨flushed, flush_mono hle hflushed,
      Option.bind_eq_some_iff.mpr ⟨closed, submit_mono hle hclosed, h⟩⟩
  | run =>
    obtain ⟨flushed, hflushed, h⟩ := Option.bind_eq_some_iff.mp h
    refine Option.bind_eq_some_iff.mpr ⟨flushed, flush_mono hle hflushed, ?_⟩
    -- a refused block keeps the program from being run
    split at h
    · exact h
    · obtain ⟨r', hr', rfl⟩ := Option.map_eq_some_iff.mp h
      exact Option.map_eq_some_iff.mpr ⟨r', submit_mono hle hr', rfl⟩

theorem feed_mono {line : Text} (hle : fuel ≤ fuel') (h : s.feed opts fuel line = some r) :
    s.feed opts fuel' line = some r := by
  cases hc : ModeCommand.ofText? line.chomp with
  | some c =>
    rw [feed_of_command hc] at h ⊢
    exact command_mono hle h
  | none =>
    cases hs : s.collecting with
    | true =>
      rw [feed_of_collecting hc hs] at h ⊢
      exact h
    | false =>
      rw [feed_of_text hc hs] at h ⊢
      exact submit_mono hle h

theorem feedAll_mono {number : Nat} {lines : List Text} (hle : fuel ≤ fuel')
    (h : feedAll opts fuel number lines s = some r) :
    feedAll opts fuel' number lines s = some r := by
  induction lines generalizing number s r with
  | nil => exact h
  | cons line lines ih =>
    obtain ⟨fed, hfed, h⟩ := Option.bind_eq_some_iff.mp h
    refine Option.bind_eq_some_iff.mpr ⟨fed, feed_mono hle hfed, ?_⟩
    split at h
    · exact h
    · obtain ⟨r', hr', rfl⟩ := Option.map_eq_some_iff.mp h
      exact Option.map_eq_some_iff.mpr ⟨r', ih hr', rfl⟩

/-- Lines are fed in one way only, whatever number of steps is allowed. -/
theorem feedAll_unique {number : Nat} {lines : List Text} {r' : Reply Shell Unit}
    (h : feedAll opts fuel number lines s = some r)
    (h' : feedAll opts fuel' number lines s = some r') : r = r' := by
  have hmax := feedAll_mono (Nat.le_max_left fuel fuel') h
  rw [feedAll_mono (Nat.le_max_right fuel fuel') h'] at hmax
  exact (Option.some.inj hmax).symm

end Shell

end LineScript

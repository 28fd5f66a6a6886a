import LineScript.Proofs.Reachable
import Mathlib.Logic.Basic

/-!
# Failed submissions

A submission fails in one of two ways. A text that is refused before anything is executed leaves
no trace. A failure inside a loop, of a run or of an immediate call, names the line that control
was at; by then variables may have changed and calls may be pending, and all of it is given up:
the machine comes to rest with the code that it had.

## Main definitions

* `Machine.Launches`: a submission that begins to loop, and the machine it begins with

## Main results

* `Machine.loop_error`: a loop that fails names a line and brings the machine to rest
* `Machine.Submits.error`: a failed submission was refused, or its loop failed
* `Machine.error_unchanged_xor_reset`: a failed submission leaves everything or only the code
-/

namespace LineScript

namespace Machine

variable {opts : Options} {m start : Machine} {fuel : Nat} {text : Text} {failure : Failure}

/-! ## Failing loops -/

/-- The failure of a statement, or of the step limit, at a line. -/
def IsLineFault (failure : Failure) : Prop :=
  ∃ line source fault, failure = .atLine line source (.fault fault)

theorem isLineFault_cycle (h : (m.cycle opts).result = .error failure) : IsLineFault failure := by
  simp only [cycle] at h
  split at h
  · cases h
  · split at h
    · cases h
      exact ⟨_, _, _, rfl⟩
    · cases h

theorem isLineFault_step (h : (m.step opts).result = .error failure) : IsLineFault failure := by
  unfold step at h
  split at h
  · cases h
    exact ⟨_, _, _, rfl⟩
  · exact isLineFault_cycle h

/-- **A loop that fails names a line and brings the machine to rest.** -/
theorem loop_error {r : Reply Machine Unit} (h : loop opts fuel m = some r)
    (hr : r.result = .error failure) : IsLineFault failure ∧ r.state = m.reset := by
  induction fuel generalizing m r with
  | zero => cases h
  | succ fuel ih =>
    -- the rest that a machine comes to is that of any state it passes through
    have hreset : (m.step opts).state.reset = m.reset := reset_eq_of_code (m.step_code opts)
    cases hstep : (m.step opts).result with
    | error failure' =>
      rw [loop_of_error hstep] at h
      cases h
      cases hr
      exact ⟨isLineFault_step hstep, hreset⟩
    | ok halted =>
      cases halted with
      | true =>
        rw [loop_of_halted hstep] at h
        cases h
        cases hr
      | false =>
        rw [loop_of_running hstep, Option.map_eq_some_iff] at h
        obtain ⟨r', hr', rfl⟩ := h
        obtain ⟨hfault, hstate⟩ := ih hr' hr
        exact ⟨hfault, hstate.trans hreset⟩

/-! ## Failing submissions -/

/-- The submission of a text begins to loop, from this machine: it is a run, or it calls a
function whose body is not empty. -/
inductive Launches (m : Machine) : Text → Machine → Prop
  | run : Launches m ModeCommand.run.wording { m with steps := 0, returnDepth := none }
  | call {text function : Text} {definition : Nat} (hc : ModeCommand.ofText? text = none)
      (hl : m.loading = false) (hs : Statement.ofLine text = .call function)
      (hf : m.program.functions.get? function = some definition)
      (hrunning : (m.enterNow definition).advance.halted = false) :
      Launches m text (m.enterNow definition).advance.machine

theorem Launches.code (h : m.Launches text start) : start.code = m.code := by
  cases h with
  | run => rfl
  | call => exact advance_code _

/-- A submission is refused and leaves no trace, or it fails in a loop and is brought to rest. -/
theorem Submits.error {r : Reply Machine Unit} (h : Submits opts fuel m text r)
    (hr : r.result = .error failure) :
    (∃ fault, failure = .fault fault ∧ r = .fail m (.fault fault)) ∨
      ∃ start r', m.Launches text start ∧ loop opts fuel start = some r' ∧
        r'.result = .error failure ∧ r.state = r'.state.settle := by
  cases h with
  | nothing => cases hr
  | opened => cases hr
  | closed => cases hr
  | updated => cases hr
  | ran h =>
    obtain ⟨r', hr', rfl⟩ := Option.map_eq_some_iff.mp h
    -- a machine that has come to rest is settled already
    refine Or.inr ⟨_, r', .run, hr', hr, ?_⟩
    rw [Reply.after_state, (loop_error hr' hr).2]
    rfl
  | loaded =>
    rcases m.load_cases opts (blockLines text) with ⟨fault, h⟩ | ⟨p, note, -, h⟩
    · rw [h] at hr
      cases hr
      exact Or.inl ⟨fault, rfl, h⟩
    · rw [h] at hr
      cases hr
  | refused =>
    cases hr
    exact Or.inl ⟨_, rfl, rfl⟩
  | called hc hl hs hf h =>
    obtain ⟨note, ⟨rfl, -⟩ | ⟨r', hr', rfl, hrunning⟩⟩ := callNow_cases hf h
    · -- an empty body cannot fail
      cases hr
    · exact Or.inr ⟨_, r', .call hc hl hs hf hrunning, hr', hr, rfl⟩

/-- **A failed submission leaves everything or only the code.** Either the failure names no line,
and then the machine is as it was and nothing has been emitted; or it names a line and comes from
a loop, and then the machine is at rest without variables, its program and mode as they were. -/
theorem error_unchanged_xor_reset {r : Reply Machine Unit} (h : m.Answers opts text r)
    (hr : r.result = .error failure) :
    Xor (failure.line? = none ∧ r.state = m ∧ r.events = [])
      ((∃ line source cause, failure = .atLine line source cause) ∧
        (∃ start fuel r', m.Launches text start ∧ loop opts fuel start = some r' ∧
          r'.result = .error failure) ∧
        r.state.store = .empty ∧ r.state.calls = .empty ∧ r.state.pc = 0 ∧
        r.state.returnDepth = none ∧ r.state.program = m.program ∧
        r.state.loading = m.loading) := by
  obtain ⟨fuel, h⟩ := h
  rcases (submits_of_submit h).error hr with
    ⟨fault, rfl, rfl⟩ | ⟨start, r', hlaunch, hloop, hfail, hstate⟩
  · refine Or.inl ⟨⟨rfl, rfl, rfl⟩, ?_⟩
    rintro ⟨⟨_, _, _, hline⟩, -⟩
    cases hline
  · obtain ⟨⟨line, source, fault, rfl⟩, hrest⟩ := loop_error hloop hfail
    have hreset : r.state = m.reset := by
      rw [hstate, hrest, reset_eq_of_code hlaunch.code]
      rfl
    refine Or.inr ⟨⟨⟨line, source, _, rfl⟩, ⟨start, fuel, r', hlaunch, hloop, hfail⟩, ?_⟩, ?_⟩
    · rw [hreset]
      exact ⟨rfl, rfl, rfl, rfl, rfl, rfl⟩
    · rintro ⟨hline, -⟩
      cases hline

/-- A machine with one variable and one function, whose body is at fault. -/
def faultyCallee : Machine :=
  { Machine.initial with
    program := ⟨#[utf8 "def f", utf8 " set a 0"], Table.empty.insert (utf8 "f") 0⟩
    store := Table.empty.insert (utf8 "b") 1 }

/-- An immediate call that fails gives up the variables. -/
theorem error_of_faultyCallee :
    ∃ r, faultyCallee.Answers {} (utf8 "call f") r ∧
      r.result = .error (.atLine 1 (utf8 " set a 0") (.fault (.notPositive 0))) ∧
      r.state.store = .empty ∧ r.state.program = faultyCallee.program := by
  obtain ⟨r, hr, hresult⟩ : ∃ r, faultyCallee.submit {} 1 (utf8 "call f") = some r ∧
      r.result = .error (.atLine 1 (utf8 " set a 0") (.fault (.notPositive 0))) := ⟨_, rfl, rfl⟩
  rcases error_unchanged_xor_reset ⟨1, hr⟩ hresult with
    ⟨⟨hline, -⟩, -⟩ | ⟨⟨-, -, hstore, -, -, -, hprogram, -⟩, -⟩
  · cases hline
  · exact ⟨r, ⟨1, hr⟩, hresult, hstore, hprogram⟩

end Machine

end LineScript

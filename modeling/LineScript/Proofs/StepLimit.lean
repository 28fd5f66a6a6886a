import LineScript.Proofs.Stepping
import Mathlib.Tactic.ByContra

/-!
# The step limit

A step limit counts the steps of a loop and stops it when one step more would be needed. Up to
that point the limit cannot be noticed: the steps are those of a loop without a limit. A loop that
ends within its limit therefore ends in the same way under every larger limit and under none.

## Main definitions

* `Options.withLimit`: the same options with another step limit
* `Machine.HitsLimit`: a reply that reports an exceeded step limit

## Main results

* `Machine.proceed_withLimit`: steps within the limit are those without one
* `Machine.loop_withLimit_of_some`, `Machine.loop_withLimit_of_none`: a loop that ends within the
  limit is not changed, and any other is stopped by it
* `Machine.step_limit_exact`: the limit of a submission is conservative and exact
-/

namespace LineScript

/-- The same options with another step limit. -/
def Options.withLimit (opts : Options) (n : Nat) : Options := { opts with stepLimit := n }

namespace Machine

variable {opts : Options} {m start : Machine} {text : Text} {n k fuel : Nat}

/-! ## Steps within the limit -/

theorem perform_withLimit (opts : Options) (n k : Nat) (m : Machine) (statement : Statement) :
    m.perform (opts.withLimit n) statement = m.perform (opts.withLimit k) statement := by
  cases statement <;> rfl

/-- A cycle does not look at the limit. -/
theorem cycle_withLimit (opts : Options) (n k : Nat) (m : Machine) :
    m.cycle (opts.withLimit n) = m.cycle (opts.withLimit k) := by
  unfold cycle
  simp only [perform_withLimit opts n k]

/-- A step that does not end execution is counted. -/
theorem steps_of_running (h : (m.step opts).result = .ok false) :
    (m.step opts).state.steps = m.steps + 1 := by
  have hpasses := passes_of_running h
  generalize (m.step opts).state = next at hpasses
  cases hpasses with
  | intro m' _ hperform =>
    -- neither passing over definitions nor a statement nor moving on touches the count
    obtain ⟨pc, hskip⟩ := m.skipDefinitions_eq
    rw [hskip] at hperform
    rcases perform_eq_ok hperform with ⟨_, rfl⟩ | ⟨_, rfl⟩ <;> rfl

/-- A step within the limit is one without a limit. -/
theorem step_withLimit (h : m.steps < n) :
    m.step (opts.withLimit n) = m.step (opts.withLimit 0) := by
  have hspent : m.isSpent (opts.withLimit n) = false := by
    simp [isSpent, Options.withLimit, Nat.not_le.mpr h]
  have hfree : m.isSpent (opts.withLimit 0) = false := by simp [isSpent, Options.withLimit]
  simp only [step, hspent, hfree, cycle_withLimit opts n 0]

/-- **Steps within the limit are those without one.** -/
theorem proceed_withLimit (h : m.steps + k ≤ n) :
    m.proceed (opts.withLimit n) k = m.proceed (opts.withLimit 0) k := by
  induction k generalizing m with
  | zero => rfl
  | succ k ih =>
    have hstep : m.step (opts.withLimit n) = m.step (opts.withLimit 0) := step_withLimit (by omega)
    by_cases hrunning : (m.step (opts.withLimit 0)).result = .ok false
    · have hcount := steps_of_running hrunning
      rw [proceed_succ_of_running hrunning, proceed_succ_of_running (hstep ▸ hrunning), hstep,
        ih (by omega)]
    · rw [proceed_succ_of_ended hrunning, proceed_succ_of_ended (hstep ▸ hrunning), hstep]

/-- The count of the steps that did not end execution. -/
theorem steps_proceed (h : (m.proceed opts k).result = .ok false) :
    (m.proceed opts k).state.steps = m.steps + k := by
  induction k generalizing m with
  | zero => rfl
  | succ k ih =>
    by_cases hrunning : (m.step opts).result = .ok false
    · rw [proceed_succ_of_running hrunning] at h ⊢
      have hrest := ih h
      have hcount := steps_of_running hrunning
      simp only [Reply.after_state]
      omega
    · rw [proceed_succ_of_ended hrunning] at h
      exact absurd h hrunning

/-! ## Loops under a limit -/

/-- The failure of a machine that needs one step more than it may take. -/
def limitFailure (m : Machine) : Failure :=
  .atLine m.pc m.currentLine (.fault (.bare .stepLimit))

theorem step_of_spent (hn : 0 < n) (h : m.steps = n) :
    m.step (opts.withLimit n) = .fail m m.limitFailure := by
  have hspent : m.isSpent (opts.withLimit n) = true := by
    simp [isSpent, Options.withLimit, h, hn]
  simp only [step, hspent, if_true]
  rfl

/-- A loop that ends within the limit ends in the same way without one. -/
theorem loop_withLimit_of_some {r : Reply Machine Unit} (hstart : start.steps = 0)
    (h : loop (opts.withLimit 0) n start = some r) : loop (opts.withLimit n) n start = some r := by
  rw [loop_eq_conclude] at h ⊢
  rwa [proceed_withLimit (by omega)]

/-- **A loop that does not end within the limit is stopped by it**, at the line that control has
come to by then. -/
theorem loop_withLimit_of_none (hn : 0 < n) (hstart : start.steps = 0)
    (h : loop (opts.withLimit 0) n start = none) :
    (start.proceed (opts.withLimit 0) n).result = .ok false ∧
    ∃ r, loop (opts.withLimit n) (n + 1) start = some r ∧
      r.result = .error (start.proceed (opts.withLimit 0) n).state.limitFailure ∧
      Event.outputOf r.events =
        Event.outputOf (start.proceed (opts.withLimit 0) n).events ∧
      r.state = start.reset := by
  rw [loop_eq_conclude, conclude_eq_none_iff] at h
  -- the step behind the first `n` finds the limit used up
  have heq : start.proceed (opts.withLimit n) n = start.proceed (opts.withLimit 0) n :=
    proceed_withLimit (by omega)
  have hspent : (start.proceed (opts.withLimit 0) n).state.steps = n := by
    rw [steps_proceed h, hstart, Nat.zero_add]
  have hcode := code_proceed (opts.withLimit 0) n start
  refine ⟨h, ?_⟩
  rw [loop_eq_conclude, proceed_add (heq ▸ h), heq, proceed_one, step_of_spent hn hspent,
    conclude_after]
  generalize start.proceed (opts.withLimit 0) n = r at hcode
  exact ⟨_, rfl, rfl, by simp [Reply.fail], reset_eq_of_code hcode⟩

/-! ## Submissions under a limit -/

theorem Launches.steps_eq (h : m.Launches text start) : start.steps = 0 := by
  cases h with
  | run => rfl
  | @call _ _ definition _ _ _ _ hrunning =>
    have hmoves := (m.enterNow definition).advance_moves
    generalize (m.enterNow definition).advance = next at hrunning hmoves
    cases hmoves with
    | arrived => cases hrunning
    | finished => cases hrunning
    | moved => rfl

theorem performNow_of_not_launches (opts : Options) (hc : ModeCommand.ofText? text = none)
    (hl : m.loading = false) (h : ∀ start, ¬ m.Launches text start) :
    ∃ r, ∀ n fuel, m.performNow (opts.withLimit n) fuel (Statement.ofLine text) = some r := by
  by_cases hcall : ∃ function, Statement.ofLine text = .call function
  · obtain ⟨function, hs⟩ := hcall
    rw [hs]
    cases hf : m.program.functions.get? function with
    | none =>
      simp only [performNow, callNow, hf]
      exact ⟨_, fun _ _ => rfl⟩
    | some definition =>
      -- a body that is not over at once would be looped
      have hhalted : (m.enterNow definition).advance.halted = true := by
        by_contra hrunning
        exact h _ (.call hc hl hs hf (Bool.eq_false_iff.mpr hrunning))
      exact ⟨_, fun _ _ => callNow_of_halted hf hhalted⟩
  · have hcall' : ∀ function, Statement.ofLine text ≠ .call function :=
      fun function hs => hcall ⟨function, hs⟩
    cases hperform : m.perform (opts.withLimit 0) (Statement.ofLine text) with
    | error fault =>
      exact ⟨_, fun n _ =>
        performNow_of_error hcall' (by rw [perform_withLimit opts n 0, hperform])⟩
    | ok q =>
      obtain ⟨m', events⟩ := q
      exact ⟨_, fun n _ => performNow_of_ok hcall' (by rw [perform_withLimit opts n 0, hperform])⟩

/-- A submission that does not begin to loop is answered at once, whatever the limit. -/
theorem submit_of_not_launches (opts : Options) (h : ∀ start, ¬ m.Launches text start) :
    ∃ r, ∀ n fuel, m.submit (opts.withLimit n) fuel text = some r := by
  unfold submit
  by_cases hempty : text.isEmpty = true
  · simp only [hempty, if_true]
    exact ⟨_, fun _ _ => rfl⟩
  simp only [hempty]
  cases hc : ModeCommand.ofText? text with
  | some c =>
    cases c with
    | openCode => exact ⟨_, fun _ _ => rfl⟩
    | closeCode => exact ⟨_, fun _ _ => rfl⟩
    | run =>
      rw [ModeCommand.eq_wording_of_ofText? hc] at h
      exact absurd .run (h _)
  | none =>
    cases hl : m.loading with
    | true => exact ⟨m.load opts (blockLines text), fun _ _ => rfl⟩
    | false =>
      simp only [Bool.false_eq_true, if_false]
      exact performNow_of_not_launches opts hc hl h

/-- What is answered within the limit is answered under it. -/
theorem answers_withLimit_of_some {r : Reply Machine Unit}
    (h : m.submit (opts.withLimit 0) n text = some r) : m.Answers (opts.withLimit n) text r := by
  by_cases hlaunch : ∃ start, m.Launches text start
  · obtain ⟨start, hlaunch⟩ := hlaunch
    obtain ⟨leave, before, -, -, hsubmit⟩ := hlaunch.submit_eq
    rw [hsubmit] at h
    obtain ⟨r', hr', rfl⟩ := Option.map_eq_some_iff.mp h
    refine ⟨n, ?_⟩
    rw [hsubmit, loop_withLimit_of_some hlaunch.steps_eq hr', Option.map_some]
  · obtain ⟨r', hr'⟩ := submit_of_not_launches opts (not_exists.mp hlaunch)
    rw [hr'] at h
    exact ⟨0, (hr' n 0).trans h⟩

/-- What is not answered within the limit is stopped by it. -/
theorem answers_withLimit_of_none (hn : 0 < n)
    (h : m.submit (opts.withLimit 0) n text = none) :
    ∃ start r, m.Launches text start ∧
      (start.proceed (opts.withLimit 0) n).result = .ok false ∧
      m.Answers (opts.withLimit n) text r ∧
      r.result = .error (start.proceed (opts.withLimit 0) n).state.limitFailure ∧
      Event.outputOf r.events = Event.outputOf (start.proceed (opts.withLimit 0) n).events ∧
      r.state = m.reset := by
  by_cases hlaunch : ∃ start, m.Launches text start
  · obtain ⟨start, hlaunch⟩ := hlaunch
    obtain ⟨leave, before, hleave, hbefore, hsubmit⟩ := hlaunch.submit_eq
    rw [hsubmit, Option.map_eq_none_iff] at h
    obtain ⟨hrunning, r, hr, hresult, hout, hstate⟩ :=
      loop_withLimit_of_none hn hlaunch.steps_eq h
    refine ⟨start, (r.mapState leave).after before, hlaunch, hrunning, ⟨n + 1, ?_⟩, hresult, ?_, ?_⟩
    · rw [hsubmit, hr, Option.map_some]
    · simp [hbefore, hout]
    · rw [Reply.after_state, Reply.mapState_state, hstate, hleave, reset_eq_of_code hlaunch.code]
  · obtain ⟨r', hr'⟩ := submit_of_not_launches opts (not_exists.mp hlaunch)
    rw [hr'] at h
    cases h

/-- A reply that reports an exceeded step limit. -/
def HitsLimit (r : Reply Machine Unit) : Prop :=
  ∃ line source, r.result = .error (.atLine line source (.fault (.bare .stepLimit)))

/-- **The step limit is conservative and exact**, for every machine and every submission. Under a
limit there is always an answer. What is answered within that many steps without a limit is
answered in the same way under the limit. Any other submission fails at the line that control has
come to after that many steps, with the output of these steps, and the machine comes to rest. So
an answer that does not report the limit is the answer under every larger limit and under none. -/
theorem step_limit_exact (opts : Options) (hn : 0 < n) (m : Machine) (text : Text) :
    (∃ r, m.Answers (opts.withLimit n) text r) ∧
    (∀ r, m.submit (opts.withLimit 0) n text = some r → m.Answers (opts.withLimit n) text r) ∧
    (m.submit (opts.withLimit 0) n text = none →
      ∃ start r, m.Launches text start ∧
        (start.proceed (opts.withLimit 0) n).result = .ok false ∧
        m.Answers (opts.withLimit n) text r ∧
        r.result = .error (start.proceed (opts.withLimit 0) n).state.limitFailure ∧
        Event.outputOf r.events =
          Event.outputOf (start.proceed (opts.withLimit 0) n).events ∧
        r.state = m.reset) ∧
    ∀ r, m.Answers (opts.withLimit n) text r → ¬ HitsLimit r →
      ∀ k, n ≤ k ∨ k = 0 → m.Answers (opts.withLimit k) text r := by
  refine ⟨?_, fun r => answers_withLimit_of_some, answers_withLimit_of_none hn, ?_⟩
  · cases h : m.submit (opts.withLimit 0) n text with
    | some r => exact ⟨r, answers_withLimit_of_some h⟩
    | none =>
      obtain ⟨_, r, -, -, hr, -⟩ := answers_withLimit_of_none hn h
      exact ⟨r, hr⟩
  · intro r hr hhits k hk
    cases h : m.submit (opts.withLimit 0) n text with
    | none =>
      obtain ⟨_, r', -, -, hr', hresult, -⟩ := answers_withLimit_of_none hn h
      rw [hr.unique hr'] at hhits
      exact absurd ⟨_, _, hresult⟩ hhits
    | some r' =>
      obtain rfl := hr.unique (answers_withLimit_of_some h)
      rcases hk with hk | rfl
      · exact answers_withLimit_of_some (submit_mono hk h)
      · exact ⟨n, h⟩

/-- A program that writes a line and calls itself forever. -/
def endlessProgram : Program :=
  ⟨#[utf8 "def f", utf8 " print a", utf8 " call f", utf8 "set a 5", utf8 "call f"],
    Table.empty.insert (utf8 "f") 0⟩

/-- Four steps of it set the variable, call, write and call again. -/
theorem endless_within_four_steps :
    ∃ r, { Machine.initial with program := endlessProgram }.Answers { stepLimit := 4 }
        ModeCommand.run.wording r ∧
      r.result = .error (.atLine 1 (utf8 " print a") (.fault (.bare .stepLimit))) ∧
      Event.outputOf r.events = utf8 "5\n" ∧ r.state.store = .empty := by
  obtain ⟨-, -, hstopped, -⟩ := step_limit_exact {} (n := 4) (by decide)
    { Machine.initial with program := endlessProgram } ModeCommand.run.wording
  obtain ⟨start, r, hlaunch, -, hr, hresult, hout, hstate⟩ := hstopped rfl
  cases hlaunch with
  | run => exact ⟨r, hr, hresult, hout, by rw [hstate]; rfl⟩
  | call hc => cases hc

end Machine

end LineScript

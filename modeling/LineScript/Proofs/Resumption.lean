import LineScript.Proofs.Batch
import LineScript.Proofs.ImmediateCall
import LineScript.Proofs.Remainder

/-!
# Where a run begins

A run begins at the position of control, with the calls that are pending. At rest these are the
first line and no call, and every use of a machine that makes no single steps, or that has brought
them to an end, leaves it at rest: then a run executes the program from the top. Single steps that
have not come to an end leave control in the middle of the program. A run does not go back from
there: it writes what is left of a run from the machine before the steps, and nothing of what they
have written. When a function is called from outside meanwhile, control comes back to the first line
but the calls of the program stay pending, and when lines are added both are kept. In all of these
cases a run performs the rows that are left.

## Main definitions

* `Machine.RunsTo`, `Machine.RunShows`: what a run writes in all, with its result, and so far
* `Machine.LeavesControl`: where a submission leaves control
* `Machine.Rested`: machines that no unfinished single steps have moved
* `Options.extended`: a step limit with room for more steps

## Main results

* `Machine.leavesControl_of_submit`: a submission leaves control nowhere else
* `Machine.Rested.idle`, `Machine.Reachable.rested`: such machines are those at rest
* `Machine.loopsTo_same`: the count of steps matters to a loop through the limit only
* `Machine.loopsTo_afterSteps_iff`: a loop is its first steps, and a loop from there
* `Machine.runsTo_iff_performs`: a run performs the rows that are left
* `Machine.run_resumes`: a run begins at the top from rest, and goes on behind single steps
-/

namespace LineScript

/-- A limit with room for more steps, if there is a limit. -/
def Options.extended (opts : Options) (n : Nat) : Options :=
  opts.withLimit (if opts.stepLimit = 0 then 0 else opts.stepLimit + n)

/-- The limit is used up later by as many steps. -/
theorem Options.isSpentAt_extended (opts : Options) (n steps : Nat) :
    (opts.extended n).isSpentAt (n + steps) = opts.isSpentAt steps := by
  simp only [isSpentAt, extended, withLimit]
  split <;> grind

theorem Options.isSpentAt_extended_of_lt {opts : Options} {n steps : Nat} (h : steps < n) :
    (opts.extended n).isSpentAt steps = false := by
  rw [isSpentAt_eq_false_iff]
  simp only [extended, withLimit]
  split <;> omega

namespace Machine

variable {opts : Options} {m n : Machine} {text out : Text} {result : Except Failure Unit}
  {fuel k : Nat} {r : Reply Machine Unit}

/-! ## Machines at rest -/

/-- Control is at the first line, and no call is pending. -/
def Idle (m : Machine) : Prop := m.pc = 0 ∧ m.calls = .empty

/-- The same machine with control at the first line and no call pending. -/
def atTop (m : Machine) : Machine := { m with pc := 0, calls := .empty }

theorem Idle.atTop_eq (h : m.Idle) : m.atTop = m := by
  obtain ⟨hpc, hcalls⟩ := h
  rw [atTop, ← hpc, ← hcalls]

theorem idle_reset (m : Machine) : m.reset.Idle := ⟨rfl, rfl⟩

/-- At rest the whole walk is left. -/
theorem Idle.remainder_eq (h : m.Idle) : m.remainder = mainRows m.program.rows := by
  obtain ⟨hpc, hcalls⟩ := h
  rw [remainder, hpc, hcalls]
  rfl

/-- **Where a submission leaves control.** -/
inductive LeavesControl (m : Machine) (text : Text) (r : Reply Machine Unit) : Prop
  /-- Control and the pending calls are as they were. -/
  | kept (hpc : r.state.pc = m.pc) (hcalls : r.state.calls = m.calls)
  /-- A run is over. -/
  | ran (htext : text = ModeCommand.run.wording) (hrest : r.state.Idle)
  /-- A called function has failed. -/
  | failed {failure : Failure} (hr : r.result = .error failure) (hline : failure.line? ≠ none)
      (hrest : r.state.Idle)
  /-- A called function has returned: control is at the first line, and the pending calls are as
  they were. -/
  | called {function : Text} (hl : m.loading = false) (hs : Statement.ofLine text = .call function)
      (hr : r.result = .ok ()) (hpc : r.state.pc = 0) (hcalls : r.state.calls = m.calls)

/-- A called function that returns leaves the pending calls, and control at the first line. -/
theorem control_of_call {function : Text} (hp : m.program.IndexesDefinitions)
    (hl : m.loading = false) (hs : Statement.ofLine text = .call function)
    (h : m.submit opts fuel text = some r) (hr : r.result = .ok ()) :
    r.state.pc = 0 ∧ r.state.calls = m.calls := by
  rw [submit_eq_callNow (ModeCommand.ofText?_of_call hs) hl hs] at h
  cases hf : m.program.functions.get? function with
  | none =>
    simp only [callNow, hf, Option.some.injEq] at h
    subst h
    cases hr
  | some definition =>
    refine ⟨?_, (calls_of_callNow hp hf h hr).1⟩
    obtain ⟨note, ⟨rfl, -⟩ | ⟨r', -, rfl, -⟩⟩ := callNow_cases hf h <;> rfl

theorem leavesControl_of_submit (hp : m.program.IndexesDefinitions)
    (h : m.submit opts fuel text = some r) : m.LeavesControl text r := by
  have hsubmits := submits_of_submit h
  cases hr : r.result with
  | error failure =>
    -- what fails is refused before it begins, or brings the machine to rest
    obtain ⟨fault, -, rfl⟩ | ⟨start, r', -, hloop, hfail, hstate⟩ := hsubmits.error hr
    · exact .kept rfl rfl
    · obtain ⟨⟨line, source, fault, rfl⟩, hreset⟩ := loop_error hloop hfail
      refine .failed hr (by simp [Failure.line?]) ?_
      rw [hstate, hreset]
      exact start.idle_reset
  | ok =>
    cases hsubmits with
    | nothing => exact .kept rfl rfl
    | opened => exact .kept rfl rfl
    | closed => exact .kept rfl rfl
    | ran h =>
      obtain ⟨steps, hstate⟩ := run_rest h
      refine .ran rfl ?_
      rw [hstate]
      exact m.idle_reset
    | loaded =>
      rcases m.load_cases opts (blockLines text) with ⟨fault, h⟩ | ⟨p, note, -, h⟩ <;> rw [h] <;>
        exact .kept rfl rfl
    | refused => cases hr
    | updated => exact .kept rfl rfl
    | called _ hl hs =>
      obtain ⟨hpc, hcalls⟩ := control_of_call hp hl hs h hr
      exact .called hl hs hr hpc hcalls

/-- Submissions keep a machine at rest. -/
theorem LeavesControl.idle (h : m.LeavesControl text r) (hm : m.Idle) : r.state.Idle := by
  cases h with
  | kept hpc hcalls => exact ⟨hpc.trans hm.1, hcalls.trans hm.2⟩
  | ran _ hrest => exact hrest
  | failed _ _ hrest => exact hrest
  | called _ _ _ hpc hcalls => exact ⟨hpc, hcalls.trans hm.2⟩

/-- **Machines that no unfinished single steps have moved.** A run that is answered, a submission
that fails at a line, a step that ends execution and a reset bring every machine to rest; so does
a call that returns, if no other one is pending. A single step that fails at the first line has
not moved control. -/
inductive Rested (opts : Options) : Machine → Prop
  | initial : Rested opts .initial
  | submit {m : Machine} {text : Text} {r : Reply Machine Unit} (hm : Rested opts m)
      (h : m.Answers opts text r) : Rested opts r.state
  | ran {m : Machine} {r : Reply Machine Unit} (hm : m.Reachable opts)
      (h : m.Answers opts ModeCommand.run.wording r) : Rested opts r.state
  | failed {m : Machine} {text : Text} {r : Reply Machine Unit} {failure : Failure}
      (hm : m.Reachable opts) (h : m.Answers opts text r) (hr : r.result = .error failure)
      (hline : failure.line? ≠ none) : Rested opts r.state
  | called {m : Machine} {text function : Text} {r : Reply Machine Unit} (hm : m.Reachable opts)
      (hcalls : m.calls = .empty) (hl : m.loading = false)
      (hs : Statement.ofLine text = .call function) (h : m.Answers opts text r)
      (hr : r.result = .ok ()) : Rested opts r.state
  | halted {m : Machine} (hm : m.Reachable opts) (h : (m.step opts).result = .ok true) :
      Rested opts (m.step opts).state
  | stopped {m : Machine} {source : Text} {cause : Failure} (hm : Rested opts m)
      (h : (m.step opts).result = .error (.atLine 0 source cause)) :
      Rested opts (m.step opts).state
  | reset {m : Machine} (hm : m.Reachable opts) : Rested opts m.reset

theorem Rested.reachable (hm : m.Rested opts) : m.Reachable opts := by
  induction hm with
  | initial => exact .initial
  | submit _ h ih => exact ih.submit h
  | ran hm h => exact hm.submit h
  | failed hm h => exact hm.submit h
  | called hm _ _ _ h => exact hm.submit h
  | halted hm => exact hm.step
  | stopped _ _ ih => exact ih.step
  | reset hm => exact hm.reset

/-- A submission to a machine that can be reached leaves control in one of these ways. -/
theorem Reachable.leavesControl (hm : m.Reachable opts) (h : m.Answers opts text r) :
    m.LeavesControl text r := by
  obtain ⟨fuel, h⟩ := h
  exact leavesControl_of_submit hm.loaded.indexesDefinitions h

theorem pc_le_skipDefinitions (m : Machine) : m.pc ≤ m.skipDefinitions.1.pc := by
  unfold skipDefinitions
  split
  · exact Nat.le_add_right _ _
  · exact Nat.le_refl _

/-- A step that fails leaves the pending calls, and control at the line that the failure names. -/
theorem control_of_error {failure : Failure} (h : (m.step opts).result = .error failure) :
    m.pc ≤ (m.step opts).state.pc ∧ (m.step opts).state.calls = m.calls ∧
      ∃ source cause, failure = .atLine (m.step opts).state.pc source cause := by
  obtain ⟨-, hstate, hfailure⟩ | ⟨line, fault, -, hfailure, hstate⟩ := step_error_cases h
  · rw [hstate]
    exact ⟨Nat.le_refl _, rfl, _, _, hfailure⟩
  · rw [hstate]
    refine ⟨m.pc_le_skipDefinitions, ?_, _, _, hfailure⟩
    obtain ⟨pc, hskip⟩ := m.skipDefinitions_eq
    rw [hskip]

/-- Control that goes on is behind the first line. -/
theorem pc_of_step (h : (m.step opts).result = .ok false) : (m.step opts).state.pc ≠ 0 := by
  have hpasses := passes_of_running h
  generalize (m.step opts).state = next at hpasses
  cases hpasses with
  | intro m' _ _ hrunning hmachine =>
    have hpc := (pc_of_running hrunning).1
    rwa [hmachine] at hpc

/-- **Such machines are at rest.** -/
theorem Rested.idle (hm : m.Rested opts) : m.Idle := by
  induction hm with
  | initial => exact ⟨rfl, rfl⟩
  | submit hm h ih => exact (hm.reachable.leavesControl h).idle ih
  | @ran m r hm h =>
    obtain ⟨fuel, h⟩ := h
    obtain ⟨steps, hstate⟩ := run_rest h
    rw [hstate]
    exact m.idle_reset
  | failed hm h hr hline =>
    obtain ⟨fuel, h⟩ := h
    obtain ⟨fault, rfl, -⟩ | ⟨start, r', -, hloop, hfail, hstate⟩ := (submits_of_submit h).error hr
    · exact absurd rfl hline
    · rw [hstate, (loop_error hloop hfail).2]
      exact start.idle_reset
  | called hm hcalls hl hs h hr =>
    obtain ⟨fuel, h⟩ := h
    obtain ⟨hpc, hcalls'⟩ := control_of_call hm.loaded.indexesDefinitions hl hs h hr
    exact ⟨hpc, hcalls'.trans hcalls⟩
  | @halted m hm h =>
    rw [step_rest hm.inTable.2 h]
    exact m.idle_reset
  | stopped hm h ih =>
    obtain ⟨-, hcalls, source, cause, hfailure⟩ := control_of_error h
    injection hfailure with hpc
    exact ⟨(Int.ofNat.inj hpc).symm, hcalls.trans ih.2⟩
  | @reset m _ => exact m.idle_reset

/-- **Machines at rest are such machines**, if they can be reached. -/
theorem Reachable.rested (hm : m.Reachable opts) (hrest : m.Idle) : m.Rested opts := by
  -- backwards: what has left the machine at rest has kept it there, or has brought it there
  induction hm with
  | initial => exact .initial
  | @submit m text r hm h ih =>
    cases hm.leavesControl h with
    | kept hpc hcalls => exact .submit (ih ⟨hpc.symm.trans hrest.1, hcalls.symm.trans hrest.2⟩) h
    | ran htext =>
      subst htext
      exact .ran hm h
    | failed hr hline => exact .failed hm h hr hline
    | called hl hs hr _ hcalls => exact .called hm (hcalls.symm.trans hrest.2) hl hs h hr
  | @step m hm ih =>
    cases hstep : (m.step opts).result with
    | error failure =>
      obtain ⟨hle, hcalls, source, cause, rfl⟩ := control_of_error hstep
      rw [hrest.1] at hle hstep
      exact .stopped (ih ⟨Nat.le_zero.mp hle, hcalls.symm.trans hrest.2⟩) hstep
    | ok halted =>
      cases halted with
      | true => exact .halted hm hstep
      | false => exact absurd hrest.1 (pc_of_step hstep)
  | reset hm => exact .reset hm

/-! ## Loops with the same variables -/

/-- **The count of steps matters to a loop through the limit only.** -/
theorem loopsTo_same (opts : Options) (l l' : Nat) (h : m.SameControl n)
    (hstore : n.store = m.store)
    (hspent : ∀ i, (opts.withLimit l').isSpentAt (n.steps + i) =
      (opts.withLimit l).isSpentAt (m.steps + i))
    (hm : m.LoopsTo (opts.withLimit l) out result) : n.LoopsTo (opts.withLimit l') out result := by
  obtain ⟨fuel, r, hr, hout, hresult⟩ := hm
  induction fuel generalizing m n r out with
  | zero => cases hr
  | succ fuel ih =>
    have hreply := step_same opts l l' h hstore (hspent 0)
    cases hstep : (m.step (opts.withLimit l)).result with
    | error failure =>
      rw [loop_of_error hstep] at hr
      cases hr
      refine ⟨1, _, loop_of_error (hreply.result.trans hstep) 0, ?_, hresult⟩
      simpa [hreply.output] using hout
    | ok halted =>
      cases halted with
      | true =>
        rw [loop_of_halted hstep] at hr
        cases hr
        exact ⟨1, _, loop_of_halted (hreply.result.trans hstep) 0, hreply.output.trans hout,
          hresult⟩
      | false =>
        rw [loop_of_running hstep, Option.map_eq_some_iff] at hr
        obtain ⟨r', hr', rfl⟩ := hr
        have hstep' := hreply.result.trans hstep
        -- both have counted one step more
        obtain ⟨fuel', r'', hr'', hout'', hresult''⟩ := ih hreply.control hreply.store
          (fun i => by
            rw [steps_of_running hstep, steps_of_running hstep', Nat.add_assoc, Nat.add_assoc]
            exact hspent (1 + i)) r' hr' rfl hresult
        refine ⟨fuel' + 1, r''.after (n.step (opts.withLimit l')).events, ?_, ?_, hresult''⟩
        · rw [loop_of_running hstep', hr'', Option.map_some]
        · rw [← hout]
          simp [hreply.output, hout'']

/-! ## Loops and single steps -/

/-- What single steps write. -/
def written (replies : List (Reply Machine Bool)) : Text :=
  replies.flatMap fun r => Event.outputOf r.events

theorem written_eq_of_shown {replies replies' : List (Reply Machine Bool)}
    (h : replies'.map shown = replies.map shown) : written replies' = written replies := by
  have hflat : ∀ rs : List (Reply Machine Bool), written rs = (rs.map shown).flatMap Prod.snd := by
    intro rs
    rw [List.flatMap_map]
    rfl
  rw [hflat, hflat, h]

theorem loopsTo_of_running_iff (h : (m.step opts).result = .ok false) :
    m.LoopsTo opts out result ↔
      ∃ rest, out = Event.outputOf (m.step opts).events ++ rest ∧
        (m.step opts).state.LoopsTo opts rest result := by
  constructor
  · rintro ⟨fuel, r, hr, rfl, rfl⟩
    cases fuel with
    | zero => cases hr
    | succ fuel =>
      rw [loop_of_running h, Option.map_eq_some_iff] at hr
      obtain ⟨r', hr', rfl⟩ := hr
      exact ⟨_, Event.outputOf_append _ _, fuel, r', hr', rfl, rfl⟩
  · rintro ⟨_, rfl, fuel, r, hr, rfl, rfl⟩
    refine ⟨fuel + 1, r.after (m.step opts).events, ?_, Event.outputOf_append _ _, rfl⟩
    rw [loop_of_running h, hr, Option.map_some]

/-- **A loop is its first steps, and a loop from there.** -/
theorem loopsTo_afterSteps_iff (h : AllRunning (m.singleSteps opts k)) :
    m.LoopsTo opts out result ↔
      ∃ rest, out = written (m.singleSteps opts k) ++ rest ∧
        (m.afterSteps opts k).LoopsTo opts rest result := by
  induction k generalizing out with
  | zero => simp [singleSteps, afterSteps, written]
  | succ k ih =>
    obtain ⟨hbefore, hlast⟩ := allRunning_succ.mp h
    have hwritten : written (m.singleSteps opts (k + 1)) = written (m.singleSteps opts k) ++
        Event.outputOf ((m.afterSteps opts k).step opts).events := by
      simp [singleSteps_succ, written]
    rw [ih hbefore, hwritten, afterSteps_succ]
    simp only [loopsTo_of_running_iff hlast]
    constructor
    · rintro ⟨_, rfl, rest, rfl, hrest⟩
      exact ⟨rest, (List.append_assoc ..).symm, hrest⟩
    · rintro ⟨rest, rfl, hrest⟩
      exact ⟨_, List.append_assoc .., rest, rfl, hrest⟩

/-- Steps after which execution goes on are within the limit. -/
theorem isSpentAt_of_running (h : AllRunning (m.singleSteps opts k)) {i : Nat} (hi : i < k) :
    opts.isSpentAt (m.steps + i) = false := by
  obtain ⟨hbefore, hlast⟩ := allRunning_succ.mp (h.of_le hi)
  have hfree := isSpent_of_ok hlast
  rwa [isSpent_eq, steps_afterSteps hbefore] at hfree

/-- Control that goes on after single steps is behind the first line. -/
theorem pc_afterSteps (h : AllRunning (m.singleSteps opts k)) (hk : 0 < k) :
    (m.afterSteps opts k).pc ≠ 0 := by
  obtain ⟨k, rfl⟩ := Nat.exists_eq_add_one.mpr hk
  rw [afterSteps_succ]
  exact pc_of_step (allRunning_succ.mp h).2

/-! ## Runs -/

/-- A run writes this output and has this result. -/
def RunsTo (opts : Options) (m : Machine) (out : Text) (result : Except Failure Unit) : Prop :=
  ∃ r, m.Answers opts ModeCommand.run.wording r ∧ Event.outputOf r.events = out ∧
    r.result = result

theorem runsTo_iff_loopsTo :
    m.RunsTo opts out result ↔ m.runStart.LoopsTo opts out result := by
  constructor
  · rintro ⟨r, hr, hout, hresult⟩
    obtain ⟨fuel, r', hr', rfl⟩ := answers_run_iff.mp hr
    exact ⟨fuel, r', hr', by simpa using hout, hresult⟩
  · rintro ⟨fuel, r', hr', hout, hresult⟩
    exact ⟨_, answers_run_iff.mpr ⟨fuel, r', hr', rfl⟩, by simpa using hout, hresult⟩

/-- A run has written this at some point, whether it comes to an end or not. -/
def RunShows (opts : Options) (m : Machine) (out : Text) : Prop :=
  ∃ k, Event.outputOf (m.runStart.proceed opts k).events = out

/-- The rows that are left to a machine are left to a run. -/
theorem awaits_runStart (m : Machine) : Awaits m.program m.store m.remainder m.runStart :=
  ⟨rfl, rfl, rfl, rfl⟩

/-- **A run performs the rows that are left**, wherever control is and whatever calls are
pending. -/
theorem runsTo_iff_performs (hlimit : opts.stepLimit = 0) (hp : m.program.IndexesDefinitions) :
    m.RunsTo opts out result ↔
      ∃ e, Performs opts m.program m.remainder m.store out e ∧ result = e.result := by
  rw [runsTo_iff_loopsTo]
  exact (simulates_awaits hlimit hp).loopsTo_iff m.awaits_runStart

/-- It has written at some point exactly what they have. -/
theorem runShows_iff_begun (hlimit : opts.stepLimit = 0) (hp : m.program.IndexesDefinitions) :
    m.RunShows opts out ↔ Begun opts m.program m.remainder m.store out :=
  (simulates_awaits hlimit hp).shows_iff m.awaits_runStart

/-- A run that begins where no call is waited for has only counted nothing yet. -/
theorem sameControl_runStart (hm : m.returnDepth = none) : m.SameControl m.runStart := by
  rw [SameControl, runStart, ← hm]
  rfl

/-- With room for the steps, a run begins with the single steps. -/
theorem run_begins_same (hm : m.returnDepth = none) (h : AllRunning (m.singleSteps opts k)) :
    (m.runStart.singleSteps (opts.extended k) k).map shown = (m.singleSteps opts k).map shown ∧
      AllRunning (m.runStart.singleSteps (opts.extended k) k) ∧
      (m.afterSteps opts k).SameControl (m.runStart.afterSteps (opts.extended k) k) ∧
      (m.runStart.afterSteps (opts.extended k) k).store = (m.afterSteps opts k).store := by
  refine @singleSteps_same opts m m.runStart k opts.stepLimit _ (sameControl_runStart hm) rfl
    (fun i hi => ?_) h
  rw [show m.runStart.steps = 0 from rfl, Nat.zero_add]
  exact (Options.isSpentAt_extended_of_lt hi).trans (isSpentAt_of_running h hi).symm

/-- Behind the steps, a run that has made them and one that begins there have the same steps
left. -/
theorem loopsTo_behind_iff (hm : m.returnDepth = none) (h : AllRunning (m.singleSteps opts k)) :
    (m.runStart.afterSteps (opts.extended k) k).LoopsTo (opts.extended k) out result ↔
      (m.afterSteps opts k).runStart.LoopsTo opts out result := by
  obtain ⟨-, hrunning, hcontrol, hstore⟩ := run_begins_same hm h
  have hcontrol' : (m.runStart.afterSteps (opts.extended k) k).SameControl
      (m.afterSteps opts k).runStart :=
    hcontrol.symm.trans (sameControl_runStart (returnDepth_afterSteps hm))
  have hspent : ∀ i,
      opts.isSpentAt ((m.afterSteps opts k).runStart.steps + i) = (opts.extended k).isSpentAt
        ((m.runStart.afterSteps (opts.extended k) k).steps + i) := by
    intro i
    rw [steps_afterSteps hrunning, show m.runStart.steps = 0 from rfl, Nat.zero_add,
      Options.isSpentAt_extended]
    exact congrArg _ (Nat.zero_add i)
  constructor
  · exact loopsTo_same opts _ opts.stepLimit hcontrol' hstore.symm hspent
  · exact loopsTo_same opts opts.stepLimit _ hcontrol'.symm hstore fun i => (hspent i).symm

/-- **A run goes on behind single steps**: with room for the steps, a run from before them writes
what they have written and then what a run from behind them writes. -/
theorem runsTo_afterSteps_iff (hm : m.returnDepth = none)
    (h : AllRunning (m.singleSteps opts k)) :
    m.RunsTo (opts.extended k) out result ↔
      ∃ rest, out = written (m.singleSteps opts k) ++ rest ∧
        (m.afterSteps opts k).RunsTo opts rest result := by
  obtain ⟨hshown, hrunning, -, -⟩ := run_begins_same hm h
  simp only [runsTo_iff_loopsTo]
  rw [loopsTo_afterSteps_iff hrunning, written_eq_of_shown hshown]
  simp only [loopsTo_behind_iff hm h]

/-- **Where a run begins.** The machines at rest are those that no unfinished single steps have
moved, and a run from them does what a run from the top does. Single steps after which execution
goes on, from any machine, leave control behind the first line, and a run does not go back: what it
writes is what a run from before the steps, with room for them, would have written behind their
output, and its result is the result of that run. Whatever else has happened, calls from outside
and new blocks of lines between the steps included, a run without a limit performs the rows that
control and the pending calls leave, and has written at each point what these have. -/
theorem run_resumes (opts : Options) :
    (∀ m, Rested opts m ↔ Reachable opts m ∧ m.Idle) ∧
    (∀ m, Rested opts m → m.Idle ∧
      ∀ out result, m.RunsTo opts out result ↔ m.atTop.RunsTo opts out result) ∧
    (∀ m k, Reachable opts m → AllRunning (m.singleSteps opts k) →
      (0 < k → (m.afterSteps opts k).pc ≠ 0) ∧
      ∀ out result, m.RunsTo (opts.extended k) out result ↔
        ∃ rest, out = written (m.singleSteps opts k) ++ rest ∧
          (m.afterSteps opts k).RunsTo opts rest result) ∧
    (opts.stepLimit = 0 → ∀ m, Reachable opts m →
      (∀ out result, m.RunsTo opts out result ↔
        ∃ e, Performs opts m.program m.remainder m.store out e ∧ result = e.result) ∧
      ∀ out, m.RunShows opts out ↔ Begun opts m.program m.remainder m.store out) := by
  refine ⟨fun m => ?_, fun m hm => ?_, fun m k hm h => ?_, fun hlimit m hm => ?_⟩
  · exact ⟨fun hm => ⟨hm.reachable, hm.idle⟩, fun hm => hm.1.rested hm.2⟩
  · refine ⟨hm.idle, fun out result => ?_⟩
    rw [hm.idle.atTop_eq]
  · exact ⟨pc_afterSteps h, fun out result => runsTo_afterSteps_iff hm.inTable.2 h⟩
  · have hp := hm.loaded.indexesDefinitions
    exact ⟨fun out result => runsTo_iff_performs hlimit hp, fun out => runShows_iff_begun hlimit hp⟩

/-- Two lines that write the value of a variable, which is given from outside. -/
def printedTwice : Machine :=
  { Machine.initial with
    program := ⟨#[utf8 "print a", utf8 "print a"], .empty⟩
    store := Table.empty.insert (utf8 "a") 5 }

/-- A function that is called once, and a line behind the call; both write the value of the
variable. -/
def calledOnce : Text :=
  utf8 "def f\n print a\ncall f\nprint a"

/-- The first machine is at rest; after one step a run writes the value once, and from the top it
is written twice. The second program is stepped into the function, which is then called from
outside: control is at the first line again, but the call from the program is still pending, and
a run writes what is behind it twice. -/
theorem run_of_printedTwice :
    (Rested {} printedTwice ∧ AllRunning (printedTwice.singleSteps {} 1) ∧
      printedTwice.RunsTo {} (utf8 "5\n5\n") (.ok ()) ∧
      (printedTwice.afterSteps {} 1).pc ≠ 0 ∧
      (printedTwice.afterSteps {} 1).RunsTo {} (utf8 "5\n") (.ok ()) ∧
      (printedTwice.afterSteps {} 1).atTop.RunsTo {} (utf8 "5\n5\n") (.ok ())) ∧
    ∃ m, Reachable {} m ∧ ¬ Rested {} m ∧ m.pc = 0 ∧ m.calls.items = [2] ∧
      m.program.lines.toList = Text.splitLines calledOnce ∧
      (∃ e, Performs {} m.program m.remainder m.store (utf8 "5\n5\n5\n") e ∧ e.result = .ok ()) ∧
      m.atTop.RunsTo {} (utf8 "5\n5\n") (.ok ()) := by
  have hopened : Rested {} { Machine.initial with loading := true } :=
    .submit .initial ⟨0, (rfl : Machine.initial.submit _ 0 (utf8 "set code") = some _)⟩
  constructor
  · have hloaded : Rested {} { printedTwice with loading := true, store := .empty } :=
      .submit hopened ⟨0, (rfl : submit _ 0 _ (utf8 "print a\nprint a") = some _)⟩
    have hclosed : Rested {} { printedTwice with store := .empty } :=
      .submit hloaded ⟨0, (rfl : submit _ 0 _ (utf8 "end set code") = some _)⟩
    have hrested : Rested {} printedTwice :=
      .submit hclosed ⟨0, (rfl : submit _ 0 _ (utf8 "set a 5") = some _)⟩
    have hrunning : AllRunning (printedTwice.singleSteps {} 1) :=
      List.forall_mem_singleton.mpr rfl
    have hrun : printedTwice.RunsTo {} (utf8 "5\n5\n") (.ok ()) := ⟨_, ⟨2, rfl⟩, rfl, rfl⟩
    obtain ⟨hpc, hruns⟩ := (run_resumes {}).2.2.1 _ 1 hrested.reachable hrunning
    obtain ⟨rest, hout, hrest⟩ := (hruns _ _).mp hrun
    -- the single step has written one of the two lines
    obtain rfl : utf8 "5\n" = rest :=
      List.append_cancel_left ((rfl : utf8 "5\n" ++ utf8 "5\n" = _).trans hout)
    exact ⟨hrested, hrunning, hrun, hpc Nat.one_pos, hrest, _, ⟨2, rfl⟩, rfl, rfl⟩
  · obtain ⟨loaded, hloaded, closed, hclosed, given, hgiven, called, hcalled, hpc, hcalls, hlines,
        ⟨run, hrun, hout, hok⟩, top, htop, houttop, hoktop⟩ :
        ∃ loaded, { Machine.initial with loading := true }.submit {} 0 calledOnce = some loaded ∧
        ∃ closed, loaded.state.submit {} 0 (utf8 "end set code") = some closed ∧
        ∃ given, closed.state.submit {} 0 (utf8 "set a 5") = some given ∧
        ∃ called, (given.state.step {}).state.submit {} 9 (utf8 "call f") = some called ∧
          called.state.pc = 0 ∧ called.state.calls.items = [2] ∧
          called.state.program.lines.toList = Text.splitLines calledOnce ∧
          (∃ run, called.state.submit {} 9 ModeCommand.run.wording = some run ∧
            Event.outputOf run.events = utf8 "5\n5\n5\n" ∧ run.result = .ok ()) ∧
          ∃ top, called.state.atTop.submit {} 9 ModeCommand.run.wording = some top ∧
            Event.outputOf top.events = utf8 "5\n5\n" ∧ top.result = .ok () :=
      ⟨_, rfl, _, rfl, _, rfl, _, rfl, rfl, rfl, rfl, ⟨_, rfl, rfl, rfl⟩, _, rfl, rfl, rfl⟩
    have hm : Reachable {} called.state :=
      (((hopened.reachable.submit ⟨0, hloaded⟩).submit ⟨0, hclosed⟩).submit ⟨0, hgiven⟩).step.submit
        ⟨9, hcalled⟩
    obtain ⟨hrests, -, -, hperforms⟩ := run_resumes {}
    obtain ⟨e, he, hresult⟩ :=
      ((hperforms rfl _ hm).1 _ _).mp ⟨run, ⟨9, hrun⟩, hout, hok⟩
    refine ⟨_, hm, fun hrested => ?_, hpc, hcalls, hlines, ⟨e, he, hresult.symm⟩, top, ⟨9, htop⟩,
      houttop, hoktop⟩
    -- a call is pending
    have hempty : called.state.calls.items = [] :=
      congrArg Stack.items ((hrests _).mp hrested).2.2
    rw [hcalls] at hempty
    cases hempty

end Machine

end LineScript

import LineScript.Proofs.FunctionIndex
import LineScript.Proofs.Stepping

/-!
# Runs end at rest

There are several ways out of a run. A failure brings the machine to rest, and so does the end of
the table. The return of an immediate call does not, and neither would control at the first line;
but a run waits for no call, whatever is pending when it begins, and a machine that moves on leaves
the first line behind. So a run that is over leaves a machine at rest, and the next one begins as
if nothing but the loading of the program had happened before.

## Main definitions

* `Machine.inMode`: the same machine in a given loading mode
* `Machine.Fresh`: the machines that have been loaded and nothing else

## Main results

* `Machine.loop_rest`: a loop that waits for no call ends at rest
* `Machine.loop_inMode`: the loading mode has no part in execution
* `Machine.run_leaves_rest`: a run ends at rest and does not influence the next one
-/

namespace LineScript

namespace Machine

variable {opts : Options} {m : Machine} {fuel : Nat} {r : Reply Machine Unit}

/-! ## The ways out of a run -/

/-- **The last step of a run** leaves the machine at rest. -/
theorem step_rest (hm : m.returnDepth = none) (h : (m.step opts).result = .ok true) :
    (m.step opts).state = { m.reset with steps := 1 } := by
  obtain ⟨-, hspent⟩ | ⟨r, hcycle, hresult, hstate⟩ := m.step_cases opts
  · rw [hspent] at h
    cases h
  · rw [hresult] at h
    rw [hstate]
    cases hcycle with
    | finished => rfl
    | failed => cases h
    | @performed line m' events hline hperform =>
      have hcode : m'.code = m.code := (perform_code hperform).trans m.skipDefinitions_code
      have htarget : m'.returnDepth = none := by
        obtain ⟨pc, hpc⟩ := m.skipDefinitions_eq
        rw [perform_returnDepth hperform, hpc]
        exact hm
      have hmoves := m'.advance_moves
      generalize m'.advance = next at h hmoves
      cases hmoves with
      | arrived _ harrived =>
        -- there is no call whose return would end the run
        rw [htarget] at harrived
        cases harrived
      | finished =>
        rw [← reset_eq_of_code hcode]
        rfl
      | moved hpc =>
        -- control is behind the first line
        simp [Nat.ne_of_gt hpc] at h

/-- **A loop that waits for no call ends at rest.** -/
theorem loop_rest (hm : m.returnDepth = none) (h : loop opts fuel m = some r) :
    ∃ n, r.state = { m.reset with steps := n } := by
  induction fuel generalizing m r with
  | zero => cases h
  | succ fuel ih =>
    have hreset : (m.step opts).state.reset = m.reset := reset_eq_of_code (m.step_code opts)
    cases hstep : (m.step opts).result with
    | error failure =>
      rw [loop_of_error hstep] at h
      cases h
      exact ⟨0, hreset⟩
    | ok halted =>
      cases halted with
      | true =>
        rw [loop_of_halted hstep] at h
        cases h
        exact ⟨1, step_rest hm hstep⟩
      | false =>
        rw [loop_of_running hstep, Option.map_eq_some_iff] at h
        obtain ⟨r', hr', rfl⟩ := h
        obtain ⟨n, hn⟩ := ih ((returnDepth_of_running hstep).trans hm) hr'
        exact ⟨n, by rw [Reply.after_state, hn, hreset]⟩

theorem run_rest (h : m.run opts fuel = some r) : ∃ n, r.state = { m.reset with steps := n } := by
  obtain ⟨r', hr', rfl⟩ := Option.map_eq_some_iff.mp h
  obtain ⟨n, hn⟩ := loop_rest rfl hr'
  exact ⟨n, hn⟩

/-! ## Execution in either mode -/

/-- The same machine in a given loading mode. -/
def inMode (m : Machine) (loading : Bool) : Machine := { m with loading := loading }

theorem perform_inMode (opts : Options) (m : Machine) (loading : Bool) (statement : Statement) :
    (m.inMode loading).perform opts statement =
      (m.perform opts statement).map fun q => (q.1.inMode loading, q.2) := by
  cases statement with
  | set name value =>
    simp only [perform, performSet]
    split
    · rfl
    · split <;> rfl
  | sub name value =>
    simp only [perform, performSub, inMode]
    split
    · rfl
    · split
      · rfl
      · split
        · rfl
        · split <;> rfl
  | print name =>
    simp only [perform, performPrint, inMode]
    cases m.store.get? name <;> rfl
  | rem name =>
    have hcontains : (m.inMode loading).store.contains name = m.store.contains name := rfl
    simp only [perform, performRem, hcontains]
    by_cases h : m.store.contains name = true
    · rw [if_pos h, if_pos h]
      rfl
    · rw [if_neg h, if_neg h]
      rfl
  | call function =>
    simp only [perform, performCall, inMode]
    cases m.program.functions.get? function <;> rfl
  | _ => rfl

theorem skipDefinitions_inMode (m : Machine) (loading : Bool) :
    (m.inMode loading).skipDefinitions =
      (m.skipDefinitions.1.inMode loading, m.skipDefinitions.2) := by
  have hline : (m.inMode loading).program.lines[(m.inMode loading).pc]? =
      m.program.lines[m.pc]? := rfl
  simp only [skipDefinitions, hline]
  by_cases h : m.program.lines[m.pc]?.any Line.isDefinition = true
  · rw [if_pos h, if_pos h]
    rfl
  · rw [if_neg h, if_neg h]

theorem advance_inMode (m : Machine) (loading : Bool) :
    (m.inMode loading).advance =
      ⟨m.advance.machine.inMode loading, m.advance.events, m.advance.halted⟩ := by
  unfold advance
  dsimp only [inMode]
  generalize unwind m.program m.returnDepth (m.pc + 1) m.calls = landing
  by_cases ha : landing.arrived = true
  · simp only [ha, if_true]
  · by_cases hend : m.program.size ≤ landing.pc
    · simp only [ha, hend, if_true]
      rfl
    · simp only [ha, hend, if_false]
      rfl

theorem cycle_inMode (opts : Options) (m : Machine) (loading : Bool) :
    (m.inMode loading).cycle opts = (m.cycle opts).mapState (·.inMode loading) := by
  simp only [cycle, skipDefinitions_inMode]
  generalize m.skipDefinitions = q
  obtain ⟨m', skipped⟩ := q
  have hline : (m'.inMode loading).program.lines[(m'.inMode loading).pc]? =
      m'.program.lines[m'.pc]? := rfl
  simp only [hline]
  cases m'.program.lines[m'.pc]? with
  | none => rfl
  | some line =>
    simp only [perform_inMode]
    cases m'.perform opts (Statement.ofLine line) with
    | error fault => rfl
    | ok q =>
      simp only [Except.map, advance_inMode]
      rfl

theorem step_inMode (opts : Options) (m : Machine) (loading : Bool) :
    (m.inMode loading).step opts = (m.step opts).mapState (·.inMode loading) := by
  have hspent : (m.inMode loading).isSpent opts = m.isSpent opts := rfl
  simp only [step, hspent, cycle_inMode]
  split <;> rfl

/-- **The loading mode has no part in execution.** -/
theorem loop_inMode (opts : Options) (fuel : Nat) (m : Machine) (loading : Bool) :
    loop opts fuel (m.inMode loading) =
      (loop opts fuel m).map (·.mapState (·.inMode loading)) := by
  induction fuel generalizing m with
  | zero => rfl
  | succ fuel ih =>
    have hresult : ((m.inMode loading).step opts).result = (m.step opts).result := by
      rw [step_inMode, Reply.mapState_result]
    cases hstep : (m.step opts).result with
    | error failure =>
      rw [loop_of_error hstep, loop_of_error (hresult.trans hstep), step_inMode]
      rfl
    | ok halted =>
      cases halted with
      | true =>
        rw [loop_of_halted hstep, loop_of_halted (hresult.trans hstep), step_inMode]
        rfl
      | false =>
        rw [loop_of_running hstep, loop_of_running (hresult.trans hstep), step_inMode,
          Reply.mapState_state, ih, Option.map_map, Option.map_map]
        rfl

theorem run_inMode (opts : Options) (fuel : Nat) (m : Machine) (loading : Bool) :
    (m.inMode loading).run opts fuel =
      (m.run opts fuel).map (·.mapState (·.inMode loading)) := by
  have hloop := loop_inMode opts fuel { m with steps := 0, returnDepth := none } loading
  simp only [run, Option.map_map]
  exact (congrArg _ hloop).trans (Option.map_map ..)

/-! ## The next run -/

/-- The machines that have been loaded and nothing else: they come from the initial one by blocks
of code, accepted or refused, and by changes of the mode. -/
inductive Fresh (opts : Options) : Machine → Prop
  | initial : Fresh opts .initial
  | inMode {m : Machine} (hm : Fresh opts m) (loading : Bool) : Fresh opts (m.inMode loading)
  | load {m : Machine} (hm : Fresh opts m) (block : List Text) :
      Fresh opts (m.load opts block).state

/-- A fresh machine is at rest, and its program is built by loads. -/
theorem Fresh.spec (hm : m.Fresh opts) :
    m.program.Loaded opts.redefine ∧
      m = { Machine.initial with program := m.program }.inMode m.loading := by
  induction hm with
  | initial => exact ⟨.empty, rfl⟩
  | @inMode m _ loading ih =>
    obtain ⟨hp, heq⟩ := ih
    refine ⟨hp, ?_⟩
    rw [heq]
    rfl
  | @load m _ block ih =>
    obtain ⟨hp, heq⟩ := ih
    rcases m.load_cases opts block with ⟨fault, h⟩ | ⟨p, note, hload, h⟩
    · rw [h]
      exact ⟨hp, heq⟩
    · rw [h]
      refine ⟨.load hp hload, ?_⟩
      rw [heq]
      rfl

/-- Every program that is built by loads is that of a fresh machine. -/
theorem fresh_of_loaded {p : Program} (hp : p.Loaded opts.redefine) :
    Fresh opts { Machine.initial with program := p } := by
  induction hp with
  | empty => exact .initial
  | @load p p' block _ hload ih =>
    obtain ⟨-, hstate⟩ := load_of_ok (m := { Machine.initial with program := p }) hload
    have hfresh := ih.load block
    rwa [hstate] at hfresh

theorem answers_run_inMode {loading : Bool} :
    (m.inMode loading).Answers opts ModeCommand.run.wording r ↔
      ∃ r', m.Answers opts ModeCommand.run.wording r' ∧ r'.mapState (·.inMode loading) = r := by
  simp only [Answers, submit_run, run_inMode, Option.map_eq_some_iff]
  constructor
  · rintro ⟨fuel, r', hr', rfl⟩
    exact ⟨r', ⟨fuel, hr'⟩, rfl⟩
  · rintro ⟨r', ⟨fuel, hr'⟩, rfl⟩
    exact ⟨fuel, r', hr', rfl⟩

/-- What a run of a machine at rest emits and results in is the same in every mode. -/
theorem exists_answers_run_inMode {loading : Bool} {events : List Event}
    {result : Except Failure Unit} :
    (∃ r, (m.inMode loading).Answers opts ModeCommand.run.wording r ∧ r.events = events ∧
        r.result = result) ↔
      ∃ r, m.Answers opts ModeCommand.run.wording r ∧ r.events = events ∧ r.result = result := by
  constructor
  · rintro ⟨r, hr, hevents, hresult⟩
    obtain ⟨r', hr', rfl⟩ := answers_run_inMode.mp hr
    exact ⟨r', hr', hevents, hresult⟩
  · rintro ⟨r, hr, hevents, hresult⟩
    exact ⟨_, answers_run_inMode.mpr ⟨r, hr, rfl⟩, hevents, hresult⟩

/-- **Runs end at rest and do not influence each other.** Whatever state a run begins with, when it
is over there are no variables and no pending calls, control is at the first line, and program and
mode are as they were. The next run emits the same and has the same result, if it has one, as the
run of any fresh machine with the same options and the same line table; and there is such a
machine. -/
theorem run_leaves_rest (hm : m.Reachable opts) (hr : m.Answers opts ModeCommand.run.wording r) :
    (r.state.store = .empty ∧ r.state.calls = .empty ∧ r.state.pc = 0 ∧
      r.state.program = m.program ∧ r.state.loading = m.loading) ∧
    (∃ fresh, Fresh opts fresh ∧ fresh.program.lines = m.program.lines) ∧
    ∀ fresh, Fresh opts fresh → fresh.program.lines = m.program.lines → ∀ events result,
      (∃ r', r.state.Answers opts ModeCommand.run.wording r' ∧ r'.events = events ∧
          r'.result = result) ↔
        ∃ r', fresh.Answers opts ModeCommand.run.wording r' ∧ r'.events = events ∧
          r'.result = result := by
  obtain ⟨fuel, hrun⟩ := hr
  obtain ⟨n, hstate⟩ := run_rest hrun
  refine ⟨?_, ⟨_, fresh_of_loaded hm.loaded, rfl⟩, fun fresh hfresh hlines events result => ?_⟩
  · rw [hstate]
    exact ⟨rfl, rfl, rfl, rfl, rfl⟩
  · obtain ⟨hloaded, heq⟩ := hfresh.spec
    have hprogram : fresh.program = m.program := hloaded.eq_of_lines hm.loaded hlines
    -- a run counts its steps anew, and the modes may differ
    have hnext : r.state.Answers opts ModeCommand.run.wording =
        ({ Machine.initial with program := m.program }.inMode m.loading).Answers opts
          ModeCommand.run.wording := by
      rw [hstate]
      rfl
    rw [hnext, heq, hprogram, exists_answers_run_inMode, exists_answers_run_inMode]

/-- A run that begins with a call pending from single steps ends at rest as well. -/
theorem rest_after_interruption :
    ∃ m r, Reachable {} m ∧ m.calls ≠ .empty ∧ m.Answers {} ModeCommand.run.wording r ∧
      r.state.store = .empty ∧ r.state.calls = .empty ∧ r.state.pc = 0 := by
  have hopened : Reachable {} { Machine.initial with loading := true } :=
    .submit .initial ⟨0, (rfl : Machine.initial.submit _ 0 (utf8 "set code") = some _)⟩
  obtain ⟨r, hr⟩ : ∃ r, { Machine.initial with loading := true }.submit {} 0
      (utf8 "call f\ndef f\n set a 1\n print a") = some r ∧
      (r.state.step {}).state.calls ≠ .empty ∧
      ∃ r', (r.state.step {}).state.submit {} 9 ModeCommand.run.wording = some r' :=
    ⟨_, rfl, by decide, _, rfl⟩
  obtain ⟨hr, hcalls, r', hr'⟩ := hr
  have hm : Reachable {} (r.state.step {}).state := (hopened.submit ⟨0, hr⟩).step
  obtain ⟨⟨hstore, hempty, hpc, -⟩, -⟩ := run_leaves_rest hm ⟨9, hr'⟩
  exact ⟨_, r', hm, hcalls, ⟨9, hr'⟩, hstore, hempty, hpc⟩

end Machine

end LineScript

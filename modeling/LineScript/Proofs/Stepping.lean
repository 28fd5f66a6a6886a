import LineScript.Proofs.Atomicity

/-!
# Step after step

A loop is a sequence of steps, and much of what is to be said about it concerns the machine
between two of them. What one step can do is said here once: control moves on, execution ends, or
a statement is refused.

## Main definitions

* `Machine.proceed`: the first steps of a loop
* `Machine.Moves`: what moving control to the next line can do
* `Machine.Cycles`: what a cycle can do
* `Machine.Passes`: what a step does that does not end execution

## Main results

* `Machine.proceed_add`: steps may be taken in two parts
* `Machine.loop_eq_conclude`: a loop takes its steps and concludes
* `Machine.advance_moves`, `Machine.cycle_cycles`, `Machine.passes_of_running`: nothing else is
  possible
* `Machine.Launches.submit_eq`: a submission that loops is answered when its loop is
-/

namespace LineScript

namespace Machine

variable {opts : Options} {m start : Machine}

/-! ## The first steps -/

/-- The first `n` steps of a loop, or fewer if one of them ends execution. The result is that of
the last step, and `false` if there is none. -/
def proceed (opts : Options) : (n : Nat) → Machine → Reply Machine Bool
  | 0, m => .pure m false
  | n + 1, m =>
    match (m.step opts).result with
    | .ok false => ((m.step opts).state.proceed opts n).after (m.step opts).events
    | _ => m.step opts

@[simp] theorem proceed_zero (opts : Options) (m : Machine) : m.proceed opts 0 = .pure m false :=
  rfl

theorem proceed_succ_of_running (h : (m.step opts).result = .ok false) (n : Nat) :
    m.proceed opts (n + 1) =
      ((m.step opts).state.proceed opts n).after (m.step opts).events := by
  simp only [proceed, h]

theorem proceed_succ_of_ended (h : (m.step opts).result ≠ .ok false) (n : Nat) :
    m.proceed opts (n + 1) = m.step opts := by
  rw [proceed]
  split
  · next hrunning => exact absurd hrunning h
  · rfl

@[simp] theorem proceed_one (opts : Options) (m : Machine) : m.proceed opts 1 = m.step opts := by
  by_cases h : (m.step opts).result = .ok false
  · rw [proceed_succ_of_running h, proceed_zero]
    generalize m.step opts = r at h ⊢
    obtain ⟨state, events, result⟩ := r
    cases h
    simp [Reply.pure, Reply.after]
  · exact proceed_succ_of_ended h 0

/-- **Steps may be taken in two parts**, as long as the first part does not end execution. -/
theorem proceed_add {n : Nat} (h : (m.proceed opts n).result = .ok false) (k : Nat) :
    m.proceed opts (n + k) =
      ((m.proceed opts n).state.proceed opts k).after (m.proceed opts n).events := by
  induction n generalizing m with
  | zero => simp [Reply.pure, Reply.after]
  | succ n ih =>
    rw [Nat.succ_add]
    by_cases hstep : (m.step opts).result = .ok false
    · rw [proceed_succ_of_running hstep] at h ⊢
      rw [proceed_succ_of_running hstep, ih h]
      simp [Reply.after]
    · rw [proceed_succ_of_ended hstep] at h
      exact absurd h hstep

/-- Once execution is over, it stays over. -/
theorem proceed_of_ended {n k : Nat} (h : (m.proceed opts n).result ≠ .ok false) (hle : n ≤ k) :
    m.proceed opts k = m.proceed opts n := by
  induction n generalizing m k with
  | zero => exact absurd rfl h
  | succ n ih =>
    obtain ⟨k, rfl⟩ := Nat.exists_eq_add_one.mpr (Nat.lt_of_lt_of_le n.succ_pos hle)
    by_cases hstep : (m.step opts).result = .ok false
    · rw [proceed_succ_of_running hstep] at h
      rw [proceed_succ_of_running hstep, proceed_succ_of_running hstep,
        ih h (Nat.le_of_succ_le_succ hle)]
    · rw [proceed_succ_of_ended hstep, proceed_succ_of_ended hstep]

theorem proceed_eq_of_ended {n k : Nat} (hn : (m.proceed opts n).result ≠ .ok false)
    (hk : (m.proceed opts k).result ≠ .ok false) : m.proceed opts n = m.proceed opts k := by
  rcases Nat.le_total n k with hle | hle
  · exact (proceed_of_ended hn hle).symm
  · exact proceed_of_ended hk hle

theorem code_proceed (opts : Options) (k : Nat) (m : Machine) :
    (m.proceed opts k).state.code = m.code := by
  induction k generalizing m with
  | zero => rfl
  | succ k ih =>
    by_cases hrunning : (m.step opts).result = .ok false
    · rw [proceed_succ_of_running hrunning, Reply.after_state, ih, step_code]
    · rw [proceed_succ_of_ended hrunning, step_code]

/-! ## Steps of a loop -/

/-- What a loop makes of the reply of its last step. -/
def conclude (r : Reply Machine Bool) : Option (Reply Machine Unit) :=
  match r.result with
  | .error failure =>
    some ⟨r.state.reset, r.events ++ [.note (.runAborted r.state.pc r.state.depth failure)],
      .error failure⟩
  | .ok true => some ⟨r.state, r.events, .ok ()⟩
  | .ok false => none

theorem conclude_of_halted {r : Reply Machine Bool} (h : r.result = .ok true) :
    conclude r = some ⟨r.state, r.events, .ok ()⟩ := by
  simp only [conclude, h]

theorem conclude_of_error {r : Reply Machine Bool} {failure : Failure}
    (h : r.result = .error failure) :
    conclude r = some ⟨r.state.reset,
      r.events ++ [.note (.runAborted r.state.pc r.state.depth failure)], .error failure⟩ := by
  simp only [conclude, h]

theorem conclude_after (r : Reply Machine Bool) (events : List Event) :
    conclude (r.after events) = (conclude r).map (·.after events) := by
  obtain ⟨state, events', failure | (_ | _)⟩ := r <;> simp [conclude, Reply.after]

/-- **A loop takes its steps and concludes.** -/
theorem loop_eq_conclude (opts : Options) (fuel : Nat) (m : Machine) :
    loop opts fuel m = conclude (m.proceed opts fuel) := by
  induction fuel generalizing m with
  | zero => rfl
  | succ fuel ih =>
    by_cases hstep : (m.step opts).result = .ok false
    · rw [loop_of_running hstep, proceed_succ_of_running hstep, conclude_after, ih]
    · rw [proceed_succ_of_ended hstep, loop, conclude]
      split <;> simp_all

theorem conclude_eq_none_iff {r : Reply Machine Bool} :
    conclude r = none ↔ r.result = .ok false := by
  obtain ⟨state, events, failure | (_ | _)⟩ := r <;> simp [conclude]

theorem ended_of_conclude {r : Reply Machine Bool} {r' : Reply Machine Unit}
    (h : conclude r = some r') : r.result ≠ .ok false := by
  intro hrunning
  rw [conclude_eq_none_iff.mpr hrunning] at h
  cases h

theorem halted_of_conclude {r : Reply Machine Bool} {r' : Reply Machine Unit}
    (h : conclude r = some r') (hr : r'.result = .ok ()) :
    r.result = .ok true ∧ r'.state = r.state ∧ r'.events = r.events := by
  obtain ⟨state, events, failure | (_ | _)⟩ := r
  · cases h
    cases hr
  · cases h
  · cases h
    exact ⟨rfl, rfl, rfl⟩

theorem outputOf_of_conclude {r : Reply Machine Bool} {r' : Reply Machine Unit}
    (h : conclude r = some r') : Event.outputOf r'.events = Event.outputOf r.events := by
  obtain ⟨state, events, failure | (_ | _)⟩ := r
  · cases h
    simp
  · cases h
  · cases h
    rfl

/-! ## Statements from outside the program -/

section Statements

variable {fuel : Nat} {text function : Text} {definition : Nat}

theorem submit_eq_performNow (hne : text ≠ []) (hc : ModeCommand.ofText? text = none)
    (hl : m.loading = false) :
    m.submit opts fuel text = m.performNow opts fuel (Statement.ofLine text) := by
  unfold submit
  rw [if_neg (by simpa using hne), hc]
  exact if_neg (by simp [hl])

theorem submit_eq_callNow (hc : ModeCommand.ofText? text = none) (hl : m.loading = false)
    (hs : Statement.ofLine text = .call function) :
    m.submit opts fuel text = m.callNow opts fuel function := by
  have hne : text ≠ [] := by
    rintro rfl
    cases hs
  rw [submit_eq_performNow hne hc hl, hs]
  rfl

/-- The call of a function whose body is empty is over at once. -/
theorem callNow_of_halted (hf : m.program.functions.get? function = some definition)
    (h : (m.enterNow definition).advance.halted = true) :
    m.callNow opts fuel function = some ⟨(m.enterNow definition).advance.machine.settle,
      .note (.calledImmediately function definition) :: (m.enterNow definition).advance.events,
      .ok ()⟩ := by
  unfold callNow
  rw [hf]
  exact if_pos h

/-- The call of any other function is looped. -/
theorem callNow_of_running (hf : m.program.functions.get? function = some definition)
    (h : (m.enterNow definition).advance.halted = false) :
    m.callNow opts fuel function =
      (loop opts fuel (m.enterNow definition).advance.machine).map fun r =>
        (r.mapState settle).after (.note (.calledImmediately function definition) ::
          (m.enterNow definition).advance.events) := by
  unfold callNow
  rw [hf]
  exact if_neg (Bool.eq_false_iff.mp h)

end Statements

/-! ## What a step can do -/

/-- The line outside the calls that control has come from: that of the outermost pending call, or
the one that control is at. -/
def outerLine (m : Machine) : Nat := m.calls.items.getLast?.getD m.pc

/-- Where control lands that has come to `pc` with these calls pending, whatever the program: the
innermost calls are given up and nothing is written, and returning ends early only at the call
that was waited for. When no call is left, control is behind the outermost one. -/
structure LandsWithin (target : Option Nat) (pc : Nat) (calls : List Nat) (landing : Landing) :
    Prop where
  silent : Event.outputOf landing.events = []
  pos : 0 < landing.pc
  suffix : landing.calls.items <:+ calls
  target_eq : landing.arrived = true → target = some landing.calls.size
  pc_eq : landing.calls.items = [] → landing.pc = (calls.getLast?.map (· + 1)).getD pc

theorem unwind_landsWithin (p : Program) (target : Option Nat) (calls : Stack Nat) {pc : Nat}
    (hpc : 0 < pc) : LandsWithin target pc calls.items (unwind p target pc calls) := by
  -- one call is given up at a time, and control goes on behind it
  induction calls using Stack.push_induction generalizing pc with
  | empty => exact ⟨rfl, hpc, List.suffix_refl _, fun ha => (by cases ha), fun _ => rfl⟩
  | push calls call ih =>
    rw [unwind_push]
    split
    · split
      · next ht =>
        refine ⟨rfl, Nat.succ_pos call, List.suffix_cons _ _, fun _ => ht, fun hnil => ?_⟩
        rw [Stack.items_push, hnil]
        rfl
      · have hrest := ih (Nat.succ_pos call)
        refine ⟨hrest.silent, hrest.pos, hrest.suffix.trans (List.suffix_cons _ _),
          hrest.target_eq, fun hnil => (hrest.pc_eq hnil).trans ?_⟩
        rw [Stack.items_push, List.getLast?_cons]
        cases calls.items.getLast? <;> rfl
    · exact ⟨rfl, hpc, List.suffix_refl _, fun ha => (by cases ha), fun hnil => (by cases hnil)⟩

/-- **What moving control to the next line can do.** -/
inductive Moves (m : Machine) : Progress → Prop
  /-- The immediate call that was waited for is over. -/
  | arrived {pc : Nat} {calls : Stack Nat} {events : List Event}
      (hcalls : calls.items <:+ m.calls.items) (htarget : m.returnDepth = some calls.size) :
      Moves m ⟨{ m with pc := pc, calls := calls }, events, true⟩
  /-- The table has come to its end. -/
  | finished {events : List Event} : Moves m ⟨m.reset, events, true⟩
  /-- Control is at another line, with the returns behind it that were due. -/
  | moved {pc : Nat} {calls : Stack Nat} {events : List Event} (hpc : 0 < pc)
      (hcalls : calls.items <:+ m.calls.items) (houter : calls.items = [] → pc = m.outerLine + 1) :
      Moves m ⟨{ m with pc := pc, calls := calls }, events, false⟩

theorem advance_moves (m : Machine) : m.Moves m.advance := by
  have hlands := unwind_landsWithin m.program m.returnDepth m.calls (Nat.succ_pos m.pc)
  unfold advance
  dsimp only
  split
  · next ha => exact .arrived hlands.suffix (hlands.target_eq ha)
  · split
    · exact .finished
    · refine .moved hlands.pos hlands.suffix fun hnil => (hlands.pc_eq hnil).trans ?_
      unfold outerLine
      cases m.calls.items.getLast? <;> rfl

/-- Moving on to another line waits for the same call as before. -/
theorem returnDepth_advance (h : m.advance.halted = false) :
    m.advance.machine.returnDepth = m.returnDepth := by
  have hmoves := m.advance_moves
  generalize m.advance = next at h hmoves
  cases hmoves with
  | arrived => cases h
  | finished => cases h
  | moved => rfl

/-- Moving on writes nothing. -/
@[simp] theorem outputOf_advance (m : Machine) : Event.outputOf m.advance.events = [] := by
  have hlands := unwind_landsWithin m.program m.returnDepth m.calls (Nat.succ_pos m.pc)
  unfold advance
  dsimp only
  split
  · exact hlands.silent
  · split
    · simp [finish, hlands.silent]
    · exact hlands.silent

/-- Passing over definitions changes the position of control only. -/
theorem skipDefinitions_eq (m : Machine) : ∃ pc, m.skipDefinitions.1 = { m with pc := pc } := by
  unfold skipDefinitions
  split
  · exact ⟨_, rfl⟩
  · exact ⟨m.pc, rfl⟩

/-- Passing over definitions writes nothing. -/
@[simp] theorem outputOf_skipDefinitions (m : Machine) :
    Event.outputOf m.skipDefinitions.2 = [] := by
  unfold skipDefinitions
  split <;> rfl

/-- **What a cycle can do.** -/
inductive Cycles (opts : Options) (m : Machine) : Reply Machine Bool → Prop
  /-- Control has come behind the last line. -/
  | finished {events : List Event} (hline : m.program.lines[m.skipDefinitions.1.pc]? = none) :
      Cycles opts m ⟨m.reset, events, .ok true⟩
  /-- The statement is at fault. -/
  | failed {line : Text} {fault : Fault}
      (hline : m.program.lines[m.skipDefinitions.1.pc]? = some line)
      (hfault : m.skipDefinitions.1.perform opts (Statement.ofLine line) = .error fault) :
      Cycles opts m ((m.skipDefinitions.1.failHere fault).after m.skipDefinitions.2)
  /-- The statement is performed, and control moves on. -/
  | performed {line : Text} {m' : Machine} {events : List Event}
      (hline : m.program.lines[m.skipDefinitions.1.pc]? = some line)
      (hperform : m.skipDefinitions.1.perform opts (Statement.ofLine line) = .ok (m', events)) :
      Cycles opts m ⟨m'.advance.machine, m.skipDefinitions.2 ++ events ++ m'.advance.events,
        .ok (m'.advance.halted || decide (m'.advance.machine.pc = 0))⟩

theorem cycle_cycles (opts : Options) (m : Machine) : m.Cycles opts (m.cycle opts) := by
  have hprogram : m.skipDefinitions.1.program = m.program :=
    program_eq_of_code m.skipDefinitions_code
  have hreset : m.skipDefinitions.1.reset = m.reset := reset_eq_of_code m.skipDefinitions_code
  unfold cycle
  dsimp only
  rw [hprogram]
  split
  · next hline =>
    simp only [finish, hreset]
    exact .finished hline
  · next line hline =>
    split
    · next fault hfault => exact .failed hline hfault
    · next m' events hperform => exact .performed hline hperform

/-- A step without a limit, or within it, is a cycle that is counted. -/
theorem step_cases (opts : Options) (m : Machine) :
    m.isSpent opts = true ∧ m.step opts = m.failHere (.bare .stepLimit) ∨
      ∃ r, m.Cycles opts r ∧ (m.step opts).result = r.result ∧
        (m.step opts).state = { r.state with steps := r.state.steps + 1 } := by
  unfold step
  split
  · next hspent => exact Or.inl ⟨hspent, rfl⟩
  · exact Or.inr ⟨m.cycle opts, m.cycle_cycles opts, rfl, rfl⟩

/-- **What a step does that fails**: the step limit is used up, or the statement that control has
come to is at fault. -/
theorem step_error_cases {failure : Failure} (h : (m.step opts).result = .error failure) :
    m.isSpent opts = true ∧ (m.step opts).state = m ∧
        failure = .atLine m.pc m.currentLine (.fault (.bare .stepLimit)) ∨
      ∃ line fault, m.program.lines[m.skipDefinitions.1.pc]? = some line ∧
        failure = .atLine m.skipDefinitions.1.pc line (.fault fault) ∧
        (m.step opts).state =
          { m.skipDefinitions.1 with steps := m.skipDefinitions.1.steps + 1 } := by
  obtain ⟨hspent, hfail⟩ | ⟨r, hcycle, hresult, hstate⟩ := m.step_cases opts
  · rw [hfail] at h ⊢
    cases h
    exact Or.inl ⟨hspent, rfl, rfl⟩
  · rw [hresult] at h
    cases hcycle with
    | finished => cases h
    | @failed line fault hline =>
      have hcurrent : m.skipDefinitions.1.currentLine = line := by
        rw [currentLine, program_eq_of_code m.skipDefinitions_code, hline]
        rfl
      cases h
      refine Or.inr ⟨line, fault, hline, ?_, hstate⟩
      rw [hcurrent]
    | performed => cases h

/-- **What a step does that does not end execution**: it performs a statement, and control moves to
another line. -/
inductive Passes (opts : Options) (m : Machine) : Machine → Prop
  | intro (m' : Machine) {line : Text} {events : List Event} {pc : Nat} {calls : Stack Nat}
      (hline : m.program.lines[m.skipDefinitions.1.pc]? = some line)
      (hperform : m.skipDefinitions.1.perform opts (Statement.ofLine line) = .ok (m', events))
      (hrunning : m'.advance.halted = false)
      (hmachine : m'.advance.machine = { m' with pc := pc, calls := calls })
      (hcalls : calls.items <:+ m'.calls.items)
      (houter : calls.items = [] → pc = m'.outerLine + 1) :
      Passes opts m { m' with pc := pc, calls := calls, steps := m'.steps + 1 }

theorem passes_of_running (h : (m.step opts).result = .ok false) :
    m.Passes opts (m.step opts).state := by
  obtain ⟨-, hspent⟩ | ⟨r, hcycle, hresult, hstate⟩ := m.step_cases opts
  · rw [hspent] at h
    cases h
  · rw [hresult] at h
    rw [hstate]
    cases hcycle with
    | finished => cases h
    | failed => cases h
    | @performed line m' events hline hperform =>
      have hrunning := (Bool.or_eq_false_iff.mp (Except.ok.inj h)).1
      have hmoves := m'.advance_moves
      generalize hnext : m'.advance = next at hmoves
      rw [hnext] at hrunning
      cases hmoves with
      | arrived => cases hrunning
      | finished => cases hrunning
      | moved _ hcalls houter =>
        exact .intro m' hline hperform (congrArg Progress.halted hnext)
          (congrArg Progress.machine hnext) hcalls houter

/-- A statement waits for the same call as before. -/
theorem perform_returnDepth {m' : Machine} {statement : Statement} {events : List Event}
    (h : m.perform opts statement = .ok (m', events)) : m'.returnDepth = m.returnDepth := by
  rcases perform_eq_ok h with ⟨_, rfl⟩ | ⟨_, rfl⟩ <;> rfl

/-- A step that does not end execution waits for the same call as before. -/
theorem returnDepth_of_running (h : (m.step opts).result = .ok false) :
    (m.step opts).state.returnDepth = m.returnDepth := by
  have hpasses := passes_of_running h
  generalize (m.step opts).state = next at hpasses
  cases hpasses with
  | intro m' _ hperform =>
    obtain ⟨pc, hskip⟩ := m.skipDefinitions_eq
    rw [hskip] at hperform
    have hsame := perform_returnDepth hperform
    exact hsame

/-! ## Submissions that loop -/

/-- A submission loops from one machine. -/
theorem Launches.unique {text : Text} {start' : Machine} (h : m.Launches text start)
    (h' : m.Launches text start') : start = start' := by
  cases h with
  | run =>
    cases h' with
    | run => rfl
    | call hc => cases hc
  | call hc _ hs hf =>
    cases h' with
    | run => cases hc
    | call _ _ hs' hf' =>
      cases hs.symm.trans hs'
      cases hf.symm.trans hf'
      rfl

/-- A submission that begins to loop is answered when the loop is, with what was written by it and
with its result. -/
theorem Launches.submit_eq {text : Text} (h : m.Launches text start) :
    ∃ (leave : Machine → Machine) (before : List Event),
      (∀ m' : Machine, leave m'.reset = m'.reset) ∧ Event.outputOf before = [] ∧
      ∀ opts fuel, m.submit opts fuel text =
        (loop opts fuel start).map fun r => (r.mapState leave).after before := by
  cases h with
  | run => exact ⟨id, [_], fun _ => rfl, rfl, fun _ _ => rfl⟩
  | @call _ function definition hc hl hs hf hrunning =>
    refine ⟨settle, .note (.calledImmediately function definition) ::
      (m.enterNow definition).advance.events, fun _ => rfl, by simp, fun opts fuel => ?_⟩
    rw [submit_eq_callNow hc hl hs]
    exact callNow_of_running hf hrunning

end Machine

end LineScript

import LineScript.Machine.Submit
import LineScript.Proofs.Action

/-!
# Reachable machines

A machine is used by submitting texts to it, by single steps and by resetting it. Execution,
in steps or in whole runs, changes neither the program nor the loading mode: these are the code
of a machine, and only submissions touch it.

## Main definitions

* `Machine.Answers`: a submission is answered, whatever number of steps that takes
* `Machine.Reachable`: the machines that submissions, steps and resets lead to
* `Machine.code`: the program and the loading mode
* `Machine.Submits`: the ways in which a submission is answered

## Main results

* `Machine.submits_of_submit`: every answer is given in one of these ways
* `Machine.step_code`, `Machine.loop_code`: execution leaves the code alone
-/

namespace LineScript

theorem ModeCommand.eq_wording_of_ofText? {text : Text} {c : ModeCommand}
    (h : ModeCommand.ofText? text = some c) : text = c.wording := by
  have hw := List.find?_some h
  simp only [decide_eq_true_eq] at hw
  exact hw.symm

namespace Reply

variable {σ τ α : Type} (r : Reply σ α) (f : σ → τ) (events : List Event)

@[simp] theorem after_state : (r.after events).state = r.state := rfl

@[simp] theorem after_events : (r.after events).events = events ++ r.events := rfl

@[simp] theorem after_result : (r.after events).result = r.result := rfl

@[simp] theorem mapState_state : (r.mapState f).state = f r.state := rfl

@[simp] theorem mapState_events : (r.mapState f).events = r.events := rfl

@[simp] theorem mapState_result : (r.mapState f).result = r.result := rfl

end Reply

namespace Machine

/-! ## Submissions and reachable machines -/

/-- The machine answers the submission of a text by a reply. A submission without answer runs
forever. -/
def Answers (opts : Options) (m : Machine) (text : Text) (r : Reply Machine Unit) : Prop :=
  ∃ fuel, m.submit opts fuel text = some r

/-- The machines that lead from the initial one by submissions, steps and resets. -/
inductive Reachable (opts : Options) : Machine → Prop
  | initial : Reachable opts .initial
  | submit {m : Machine} {text : Text} {r : Reply Machine Unit} (hm : Reachable opts m)
      (h : m.Answers opts text r) : Reachable opts r.state
  | step {m : Machine} (hm : Reachable opts m) : Reachable opts (m.step opts).state
  | reset {m : Machine} (hm : Reachable opts m) : Reachable opts m.reset

@[simp] theorem submit_run (opts : Options) (fuel : Nat) (m : Machine) :
    m.submit opts fuel ModeCommand.run.wording = m.run opts fuel := rfl

/-! ## Steps of a loop -/

theorem loop_of_error {opts : Options} {m : Machine} {failure : Failure}
    (h : (m.step opts).result = .error failure) (fuel : Nat) :
    loop opts (fuel + 1) m = some ⟨(m.step opts).state.reset,
      (m.step opts).events ++ [.note (.runAborted (m.step opts).state.pc
        (m.step opts).state.depth failure)], .error failure⟩ := by
  simp only [loop, h]

theorem loop_of_halted {opts : Options} {m : Machine} (h : (m.step opts).result = .ok true)
    (fuel : Nat) :
    loop opts (fuel + 1) m = some ⟨(m.step opts).state, (m.step opts).events, .ok ()⟩ := by
  simp only [loop, h]

theorem loop_of_running {opts : Options} {m : Machine} (h : (m.step opts).result = .ok false)
    (fuel : Nat) :
    loop opts (fuel + 1) m =
      (loop opts fuel (m.step opts).state).map (·.after (m.step opts).events) := by
  simp only [loop, h]

/-- A loop that is answered is answered in the same way when it may take more steps. -/
theorem loop_mono {opts : Options} {fuel fuel' : Nat} {m : Machine} {r : Reply Machine Unit}
    (hle : fuel ≤ fuel') (h : loop opts fuel m = some r) : loop opts fuel' m = some r := by
  induction fuel generalizing fuel' m r with
  | zero => cases h
  | succ fuel ih =>
    -- the larger number allows a step as well, and both loops take the same one
    obtain ⟨fuel', rfl⟩ := Nat.exists_eq_add_one.mpr (Nat.lt_of_lt_of_le fuel.succ_pos hle)
    cases hstep : (m.step opts).result with
    | error failure =>
      rw [loop_of_error hstep] at h ⊢
      exact h
    | ok halted =>
      cases halted with
      | true =>
        rw [loop_of_halted hstep] at h ⊢
        exact h
      | false =>
        rw [loop_of_running hstep, Option.map_eq_some_iff] at h ⊢
        obtain ⟨r', hr', rfl⟩ := h
        exact ⟨r', ih (Nat.le_of_succ_le_succ hle) hr', rfl⟩

theorem run_mono {opts : Options} {fuel fuel' : Nat} {m : Machine} {r : Reply Machine Unit}
    (hle : fuel ≤ fuel') (h : m.run opts fuel = some r) : m.run opts fuel' = some r := by
  obtain ⟨r', hr', rfl⟩ := Option.map_eq_some_iff.mp h
  exact Option.map_eq_some_iff.mpr ⟨r', loop_mono hle hr', rfl⟩

theorem callNow_mono {opts : Options} {fuel fuel' : Nat} {m : Machine} {function : Text}
    {r : Reply Machine Unit} (hle : fuel ≤ fuel') (h : m.callNow opts fuel function = some r) :
    m.callNow opts fuel' function = some r := by
  unfold callNow at h ⊢
  split at h
  · exact h
  · dsimp only at h ⊢
    split at h
    · next hhalted => rwa [if_pos hhalted]
    · next hrunning =>
      rw [if_neg hrunning]
      obtain ⟨r', hr', rfl⟩ := Option.map_eq_some_iff.mp h
      exact Option.map_eq_some_iff.mpr ⟨r', loop_mono hle hr', rfl⟩

theorem performNow_mono {opts : Options} {fuel fuel' : Nat} {m : Machine} {statement : Statement}
    {r : Reply Machine Unit} (hle : fuel ≤ fuel') (h : m.performNow opts fuel statement = some r) :
    m.performNow opts fuel' statement = some r := by
  cases statement with
  | call function => exact callNow_mono hle h
  | _ => exact h

/-- A submission that is answered is answered in the same way when it may take more steps. -/
theorem submit_mono {opts : Options} {fuel fuel' : Nat} {m : Machine} {text : Text}
    {r : Reply Machine Unit} (hle : fuel ≤ fuel') (h : m.submit opts fuel text = some r) :
    m.submit opts fuel' text = some r := by
  unfold submit at h ⊢
  split at h
  · next he => rwa [if_pos he]
  · next he =>
    rw [if_neg he]
    split at h
    · next c hc =>
      cases c with
      | run => exact run_mono hle h
      | openCode => exact h
      | closeCode => exact h
    · split at h
      · next hl => rwa [if_pos hl]
      · next hl =>
        rw [if_neg hl]
        exact performNow_mono hle h

/-- **A submission has one answer.** -/
theorem Answers.unique {opts : Options} {m : Machine} {text : Text} {r r' : Reply Machine Unit}
    (h : m.Answers opts text r) (h' : m.Answers opts text r') : r = r' := by
  obtain ⟨fuel, hr⟩ := h
  obtain ⟨fuel', hr'⟩ := h'
  have hmax := submit_mono (Nat.le_max_left fuel fuel') hr
  rw [submit_mono (Nat.le_max_right fuel fuel') hr'] at hmax
  exact (Option.some.inj hmax).symm

/-! ## The code of a machine -/

/-- What execution never changes: the program and the loading mode. -/
def code (m : Machine) : Program × Bool := (m.program, m.loading)

@[simp] theorem reset_code (m : Machine) : m.reset.code = m.code := rfl

@[simp] theorem settle_code (m : Machine) : m.settle.code = m.code := rfl

theorem program_eq_of_code {m n : Machine} (h : m.code = n.code) : m.program = n.program :=
  (Prod.mk.inj h).1

theorem loading_eq_of_code {m n : Machine} (h : m.code = n.code) : m.loading = n.loading :=
  (Prod.mk.inj h).2

/-- Machines with the same code come to the same rest. -/
theorem reset_eq_of_code {m n : Machine} (h : m.code = n.code) : m.reset = n.reset := by
  simp only [reset, program_eq_of_code h, loading_eq_of_code h]

/-- A statement that is performed changes the variables, or enters a function. -/
theorem perform_eq_ok {opts : Options} {m m' : Machine} {statement : Statement}
    {events : List Event} (h : m.perform opts statement = .ok (m', events)) :
    (∃ s, m' = { m with store := s }) ∨ ∃ definition, m' = m.enter definition := by
  obtain ⟨s, -, hm'⟩ | ⟨definition, -, hm'⟩ := action_of_perform h
  · exact Or.inl ⟨s, hm'⟩
  · exact Or.inr ⟨definition, hm'⟩

theorem perform_code {opts : Options} {m m' : Machine} {statement : Statement}
    {events : List Event} (h : m.perform opts statement = .ok (m', events)) :
    m'.code = m.code := by
  rcases perform_eq_ok h with ⟨_, rfl⟩ | ⟨_, rfl⟩ <;> rfl

@[simp] theorem advance_code (m : Machine) : m.advance.machine.code = m.code := by
  simp only [advance]
  split
  · rfl
  · split <;> rfl

@[simp] theorem skipDefinitions_code (m : Machine) : m.skipDefinitions.1.code = m.code := by
  simp only [skipDefinitions]
  split <;> rfl

@[simp] theorem cycle_code (opts : Options) (m : Machine) : (m.cycle opts).state.code = m.code := by
  rw [← m.skipDefinitions_code]
  simp only [cycle]
  split
  · rfl
  · split
    · rfl
    · next h => exact (advance_code _).trans (perform_code h)

@[simp] theorem step_code (opts : Options) (m : Machine) : (m.step opts).state.code = m.code := by
  simp only [step]
  split
  · rfl
  · exact m.cycle_code opts

/-- **Execution leaves the code alone.** -/
theorem loop_code {opts : Options} {fuel : Nat} {m : Machine} {r : Reply Machine Unit}
    (h : loop opts fuel m = some r) : r.state.code = m.code := by
  induction fuel generalizing m r with
  | zero => cases h
  | succ fuel ih =>
    rw [← m.step_code opts]
    simp only [loop] at h
    split at h
    · cases h
      rfl
    · cases h
      rfl
    · obtain ⟨r', hr', rfl⟩ := Option.map_eq_some_iff.mp h
      rw [Reply.after_state]
      exact ih hr'

theorem run_code {opts : Options} {fuel : Nat} {m : Machine} {r : Reply Machine Unit}
    (h : m.run opts fuel = some r) : r.state.code = m.code := by
  obtain ⟨r', hr', rfl⟩ := Option.map_eq_some_iff.mp h
  exact (loop_code hr').trans rfl

/-! ## The ways in which a submission is answered -/

/-- Enters a function from outside the program, until no more calls are pending than now. -/
def enterNow (m : Machine) (definition : Nat) : Machine :=
  { m with
    steps := 0, returnDepth := some m.depth, calls := m.calls.push m.pc, pc := definition }

/-- An immediate call of a defined function: it is over at once when the body is empty, and is
looped to its end otherwise. -/
theorem callNow_cases {opts : Options} {fuel : Nat} {m : Machine} {function : Text}
    {definition : Nat} {r : Reply Machine Unit}
    (hf : m.program.functions.get? function = some definition)
    (h : m.callNow opts fuel function = some r) :
    ∃ note, r = ⟨(m.enterNow definition).advance.machine.settle,
        .note note :: (m.enterNow definition).advance.events, .ok ()⟩ ∧
          (m.enterNow definition).advance.halted = true ∨
      ∃ r', loop opts fuel (m.enterNow definition).advance.machine = some r' ∧
        r = (r'.mapState settle).after (.note note :: (m.enterNow definition).advance.events) ∧
          (m.enterNow definition).advance.halted = false := by
  refine ⟨.calledImmediately function definition, ?_⟩
  simp only [callNow, hf] at h
  split at h
  · next hh => exact Or.inl ⟨(Option.some.inj h).symm, hh⟩
  · next hh =>
    obtain ⟨r', hr', rfl⟩ := Option.map_eq_some_iff.mp h
    exact Or.inr ⟨r', hr', rfl, Bool.eq_false_iff.mpr hh⟩

theorem callNow_code {opts : Options} {fuel : Nat} {m : Machine} {function : Text}
    {definition : Nat} {r : Reply Machine Unit}
    (hf : m.program.functions.get? function = some definition)
    (h : m.callNow opts fuel function = some r) : r.state.code = m.code := by
  obtain ⟨note, ⟨rfl, -⟩ | ⟨r', hr', rfl, -⟩⟩ := callNow_cases hf h
  · exact advance_code _
  · exact (loop_code hr').trans (advance_code _)

/-- A block is appended to the program, or refused without a trace. -/
theorem load_cases (opts : Options) (m : Machine) (block : List Text) :
    (∃ fault, m.load opts block = .fail m (.fault fault)) ∨
      ∃ p note, m.program.load opts.redefine block = .ok p ∧
        m.load opts block = ⟨{ m with program := p }, [.note note], .ok ()⟩ := by
  unfold load Program.load
  cases m.program.definitionsOf opts.redefine block with
  | error fault => exact Or.inl ⟨fault, rfl⟩
  | ok found => exact Or.inr ⟨_, _, rfl, rfl⟩

/-- The effect that a text has as a statement from outside the program. -/
def actionOf (opts : Options) (m : Machine) (text : Text) : Action :=
  (Statement.ofLine text).action opts m.program.functions m.store

/-- **The ways in which a submission is answered.** -/
inductive Submits (opts : Options) (fuel : Nat) (m : Machine) : Text → Reply Machine Unit → Prop
  /-- An empty text does nothing. -/
  | nothing : Submits opts fuel m [] (.pure m ())
  /-- A block of code begins. -/
  | opened : Submits opts fuel m ModeCommand.openCode.wording (.pure { m with loading := true } ())
  /-- A block of code ends. -/
  | closed :
      Submits opts fuel m ModeCommand.closeCode.wording (.pure { m with loading := false } ())
  /-- The program is run. -/
  | ran {r : Reply Machine Unit} (h : m.run opts fuel = some r) :
      Submits opts fuel m ModeCommand.run.wording r
  /-- The text is a block of code. -/
  | loaded {text : Text} (hne : text ≠ []) (hc : ModeCommand.ofText? text = none)
      (hl : m.loading = true) : Submits opts fuel m text (m.load opts (blockLines text))
  /-- The text is a statement at fault. -/
  | refused {text : Text} {fault : Fault} (hc : ModeCommand.ofText? text = none)
      (hl : m.loading = false) (ha : m.actionOf opts text = .refuse fault) :
      Submits opts fuel m text (.fail m (.fault fault))
  /-- The text is a statement about the variables. -/
  | updated {text : Text} {s : Store} {events : List Event}
      (hc : ModeCommand.ofText? text = none) (hl : m.loading = false)
      (ha : m.actionOf opts text = .update s (Event.outputOf events)) :
      Submits opts fuel m text ⟨{ m with store := s }, events, .ok ()⟩
  /-- The text calls a function. -/
  | called {text function : Text} {definition : Nat} {r : Reply Machine Unit}
      (hc : ModeCommand.ofText? text = none) (hl : m.loading = false)
      (hs : Statement.ofLine text = .call function)
      (hf : m.program.functions.get? function = some definition)
      (h : m.callNow opts fuel function = some r) : Submits opts fuel m text r

section PerformNow

variable {opts : Options} {fuel : Nat} {m : Machine} {statement : Statement}

/-- A statement at fault is refused, unless it is a call. -/
theorem performNow_of_error {fault : Fault} (hcall : ∀ function, statement ≠ .call function)
    (h : m.perform opts statement = .error fault) :
    m.performNow opts fuel statement = some (.fail m (.fault fault)) := by
  cases statement with
  | call function => exact absurd rfl (hcall function)
  | _ => simp only [performNow, h]

/-- A statement is performed as it is inside a program, unless it is a call. -/
theorem performNow_of_ok {m' : Machine} {events : List Event}
    (hcall : ∀ function, statement ≠ .call function)
    (h : m.perform opts statement = .ok (m', events)) :
    m.performNow opts fuel statement = some ⟨m', events, .ok ()⟩ := by
  cases statement with
  | call function => exact absurd rfl (hcall function)
  | _ => simp only [performNow, h]

end PerformNow

theorem submits_performNow {opts : Options} {fuel : Nat} {m : Machine} {text : Text}
    {r : Reply Machine Unit} (hc : ModeCommand.ofText? text = none) (hl : m.loading = false)
    (h : m.performNow opts fuel (Statement.ofLine text) = some r) :
    Submits opts fuel m text r := by
  by_cases hcall : ∃ function, Statement.ofLine text = .call function
  · obtain ⟨function, hs⟩ := hcall
    rw [hs] at h
    cases hf : m.program.functions.get? function with
    | none =>
      -- such a call is refused before anything is entered
      simp only [performNow, callNow, hf, Option.some.injEq] at h
      subst h
      exact .refused hc hl (by simp [actionOf, hs, Statement.action, hf])
    | some definition => exact .called hc hl hs hf h
  · -- what is no call does the same inside a program and outside
    have hcall' : ∀ function, Statement.ofLine text ≠ .call function :=
      fun function hs => hcall ⟨function, hs⟩
    have spec := m.perform_spec opts (Statement.ofLine text)
    cases ha : (Statement.ofLine text).action opts m.program.functions m.store with
    | update s out =>
      rw [ha] at spec
      obtain ⟨events, hperform, rfl⟩ := spec
      rw [performNow_of_ok hcall' hperform] at h
      cases h
      exact .updated hc hl ha
    | enter definition =>
      obtain ⟨function, hs, -⟩ := Statement.action_eq_enter ha
      exact absurd hs (hcall' function)
    | refuse fault =>
      rw [ha] at spec
      rw [performNow_of_error hcall' spec] at h
      cases h
      exact .refused hc hl ha

/-- **Every answer is given in one of these ways.** -/
theorem submits_of_submit {opts : Options} {fuel : Nat} {m : Machine} {text : Text}
    {r : Reply Machine Unit} (h : m.submit opts fuel text = some r) :
    Submits opts fuel m text r := by
  simp only [submit] at h
  split at h
  · next he =>
    cases h
    rw [List.isEmpty_iff.mp he]
    exact .nothing
  · next he =>
    split at h
    · next c hc =>
      rw [ModeCommand.eq_wording_of_ofText? hc]
      cases c with
      | openCode => cases h; exact .opened
      | closeCode => cases h; exact .closed
      | run => exact .ran h
    · next hc =>
      split at h
      · next hl =>
        cases h
        exact .loaded (fun hn => he (by simp [hn])) hc hl
      · next hl => exact submits_performNow hc (by simpa using hl) h

end Machine

end LineScript

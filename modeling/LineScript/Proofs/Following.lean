import LineScript.Proofs.FunctionIndex
import LineScript.Proofs.Stepping
import LineScript.Proofs.Structured

/-!
# Machines that follow rows

A machine keeps a position of control and a stack, and structured execution knows neither. What
connects the two is a relation that says which rows are left to a machine. If every step performs
the first of these rows and leaves the others, with a body in the place of a call, then a loop of
steps does what structured execution of the rows does: it comes to the same ending with the same
output, and where neither comes to an ending both have written the same on the way.

## Main definitions

* `Machine.Acts`: what a cycle does, by the action of the line that it comes to
* `Machine.Follows`: a reply performs the first of some rows
* `Machine.Simulates`: a relation between machines and rows that are left to them, kept by steps
* `Machine.LoopsTo`: what a loop writes, and its result

## Main results

* `Machine.cycle_acts`: a cycle does nothing else
* `Machine.cycle_follows`: a cycle performs the first of the rows that are left
* `Machine.Simulates.loopsTo_iff`: a loop performs the rows that are left
* `Machine.Simulates.shows_iff`: it has written at some point what they have
-/

namespace LineScript

namespace Program

variable {p : Program}

/-- The functions of a program are indexed by lines that define something. -/
def IndexesDefinitions (p : Program) : Prop :=
  ∀ name i, p.functions.get? name = some i → p.lines[i]?.any Line.isDefinition = true

theorem Loaded.indexesDefinitions {redefine : Bool} (hp : p.Loaded redefine) :
    p.IndexesDefinitions := by
  intro name i h
  obtain ⟨⟨line, hline, hd, -⟩, -⟩ := (hp.isIndex.look_iff name i).mp h
  rw [Array.getElem?_toList] at hline
  simp [hline, hd]

end Program

namespace Machine

variable {opts : Options} {m : Machine}

/-! ## What a cycle does -/

/-- Is execution over when control moves on? -/
def halts (m : Machine) : Bool := m.advance.halted || decide (m.advance.machine.pc = 0)

/-- The reply of a cycle that has performed a statement and moves on. -/
def movedOn (m : Machine) (events : List Event) : Reply Machine Bool :=
  ⟨m.advance.machine, events, .ok m.halts⟩

/-- The row that control comes to in the next cycle, behind definitions, and its action. -/
def upcoming? (opts : Options) (m : Machine) : Option (Row × Action) :=
  m.program.lines[m.skipDefinitions.1.pc]?.map fun line =>
    (⟨m.skipDefinitions.1.pc, line⟩, m.actionOf opts line)

/-- **What a cycle does**, by the row that it comes to and the action of the row. -/
inductive Acts (m : Machine) : Option (Row × Action) → Reply Machine Bool → Prop
  /-- There is no row left. -/
  | finished {events : List Event} (hout : Event.outputOf events = []) :
      Acts m none ⟨m.reset, events, .ok true⟩
  /-- The statement is at fault. -/
  | refused {row : Row} {fault : Fault} {events : List Event} (hout : Event.outputOf events = []) :
      Acts m (some (row, .refuse fault))
        ⟨m.skipDefinitions.1, events, .error (.atLine row.index row.text (.fault fault))⟩
  /-- The statement changes the variables. -/
  | updated {row : Row} {s : Store} {out : Text} {events : List Event}
      (hout : Event.outputOf events = out) :
      Acts m (some (row, .update s out))
        ⟨{ m.skipDefinitions.1 with store := s }.advance.machine, events,
          .ok { m.skipDefinitions.1 with store := s }.halts⟩
  /-- The statement enters a function. -/
  | entered {row : Row} {definition : Nat} {events : List Event}
      (hout : Event.outputOf events = []) :
      Acts m (some (row, .enter definition))
        ⟨(m.skipDefinitions.1.enter definition).advance.machine, events,
          .ok (m.skipDefinitions.1.enter definition).halts⟩

/-- **A cycle does nothing else.** -/
theorem cycle_acts (opts : Options) (m : Machine) :
    m.Acts (m.upcoming? opts) (m.cycle opts) := by
  have hprogram : m.skipDefinitions.1.program = m.program :=
    program_eq_of_code m.skipDefinitions_code
  have hstore : m.skipDefinitions.1.store = m.store := by
    obtain ⟨pc, hskip⟩ := m.skipDefinitions_eq
    rw [hskip]
  unfold cycle upcoming?
  dsimp only
  rw [hprogram]
  cases hline : m.program.lines[m.skipDefinitions.1.pc]? with
  | none =>
    simp only [finish, reset_eq_of_code m.skipDefinitions_code]
    exact .finished (by simp)
  | some line =>
    have spec := m.skipDefinitions.1.perform_spec opts (Statement.ofLine line)
    rw [hprogram, hstore] at spec
    rw [Option.map_some]
    cases ha : m.actionOf opts line with
    | update s out =>
      rw [show (Statement.ofLine line).action _ _ _ = _ from ha] at spec
      obtain ⟨events, hperform, hout⟩ := spec
      simp only [hperform]
      exact .updated (by simp [hout])
    | enter definition =>
      rw [show (Statement.ofLine line).action _ _ _ = _ from ha] at spec
      obtain ⟨events, hperform, hout⟩ := spec
      simp only [hperform]
      exact .entered (by simp [hout])
    | refuse fault =>
      rw [show (Statement.ofLine line).action _ _ _ = _ from ha] at spec
      have hcurrent : m.skipDefinitions.1.currentLine = line := by
        rw [currentLine, hprogram, hline]
        rfl
      simp only [show m.skipDefinitions.1.perform opts (Statement.ofLine line) = .error fault
        from spec, failHere, hcurrent]
      exact .refused (by simp [Reply.fail])

/-! ## Performing the first row -/

/-- The reply of a step that leaves these rows to be performed from these variables: execution
is over when there are none, or goes on. The relation `left` says which rows are left to a
machine. -/
def Continues (left : Store → List Row → Machine → Prop) (s : Store) (rows : List Row)
    (r : Reply Machine Bool) : Prop :=
  r.result = .ok true ∧ rows = [] ∨ r.result = .ok false ∧ left s rows r.state

/-- The reply of a step that performs the first of some rows, from the variables `s`. -/
inductive Follows (left : Store → List Row → Machine → Prop) (opts : Options) (p : Program)
    (s : Store) (r : Reply Machine Bool) : List Row → Prop
  | halted (hresult : r.result = .ok true) (hout : Event.outputOf r.events = []) :
      Follows left opts p s r []
  | refused {row : Row} {rows : List Row} {fault : Fault}
      (ha : row.action opts p s = .refuse fault)
      (hresult : r.result = .error (.atLine row.index row.text (.fault fault)))
      (hout : Event.outputOf r.events = []) : Follows left opts p s r (row :: rows)
  | updated {row : Row} {rows : List Row} {s' : Store} {out : Text}
      (ha : row.action opts p s = .update s' out) (hr : Continues left s' rows r)
      (hout : Event.outputOf r.events = out) : Follows left opts p s r (row :: rows)
  | entered {row : Row} {rows : List Row} {definition : Nat}
      (ha : row.action opts p s = .enter definition)
      (hr : Continues left s (p.body definition ++ rows) r)
      (hout : Event.outputOf r.events = []) : Follows left opts p s r (row :: rows)

section Follows

variable {left : Store → List Row → Machine → Prop} {p : Program} {s : Store}
  {r : Reply Machine Bool} {row : Row} {rows : List Row}

theorem Follows.of_refuse {fault : Fault} (h : Follows left opts p s r (row :: rows))
    (ha : row.action opts p s = .refuse fault) :
    r.result = .error (.atLine row.index row.text (.fault fault)) ∧
      Event.outputOf r.events = [] := by
  cases h with
  | refused ha' hresult hout =>
    cases ha.symm.trans ha'
    exact ⟨hresult, hout⟩
  | updated ha' => cases ha.symm.trans ha'
  | entered ha' => cases ha.symm.trans ha'

theorem Follows.of_update {s' : Store} {out : Text} (h : Follows left opts p s r (row :: rows))
    (ha : row.action opts p s = .update s' out) :
    Continues left s' rows r ∧ Event.outputOf r.events = out := by
  cases h with
  | refused ha' => cases ha.symm.trans ha'
  | updated ha' hr hout =>
    cases ha.symm.trans ha'
    exact ⟨hr, hout⟩
  | entered ha' => cases ha.symm.trans ha'

theorem Follows.of_enter {definition : Nat} (h : Follows left opts p s r (row :: rows))
    (ha : row.action opts p s = .enter definition) :
    Continues left s (p.body definition ++ rows) r ∧ Event.outputOf r.events = [] := by
  cases h with
  | refused ha' => cases ha.symm.trans ha'
  | updated ha' => cases ha.symm.trans ha'
  | entered ha' hr hout =>
    cases ha.symm.trans ha'
    exact ⟨hr, hout⟩

end Follows

/-- **A cycle performs the first of the rows that are left**, if control finds its line and moves on
to the others: behind the line, or into the body that the line calls. -/
theorem cycle_follows {left : Store → List Row → Machine → Prop} {rows : List Row}
    (hp : m.program.IndexesDefinitions)
    (hnone : m.program.lines[m.skipDefinitions.1.pc]? = none → rows = [])
    (hsome : ∀ line, m.program.lines[m.skipDefinitions.1.pc]? = some line →
      ∃ behind, rows = ⟨m.skipDefinitions.1.pc, line⟩ :: behind ∧
        (∀ s events,
          Continues left s behind ({ m.skipDefinitions.1 with store := s }.movedOn events)) ∧
        ∀ definition events, m.program.lines[definition]?.any Line.isDefinition = true →
          Continues left m.store (m.program.body definition ++ behind)
            ((m.skipDefinitions.1.enter definition).movedOn events)) :
    Follows left opts m.program m.store (m.cycle opts) rows := by
  have hacts := m.cycle_acts opts
  unfold upcoming? at hacts
  generalize m.cycle opts = r at hacts ⊢
  -- what the cycle does is decided by the line that control finds, and by its action
  cases hline : m.program.lines[m.skipDefinitions.1.pc]? with
  | none =>
    rw [hline, Option.map_none] at hacts
    rw [hnone hline]
    cases hacts with
    | finished hout => exact .halted rfl hout
  | some line =>
    rw [hline, Option.map_some] at hacts
    obtain ⟨behind, rfl, hupdate, henter⟩ := hsome line hline
    cases ha : m.actionOf opts line with
    | refuse fault =>
      rw [ha] at hacts
      cases hacts with
      | refused hout => exact .refused ha rfl hout
    | update s out =>
      rw [ha] at hacts
      cases hacts with
      | updated hout => exact .updated ha (hupdate s _) hout
    | enter definition =>
      rw [ha] at hacts
      obtain ⟨function, -, hindex⟩ := Statement.action_eq_enter ha
      cases hacts with
      | entered hout =>
        exact .entered ha (henter definition _ (hp function definition hindex)) hout

/-- A step within the limit is a cycle, if counting it matters to nothing. -/
theorem step_of_cycle {left : Store → List Row → Machine → Prop} {p : Program} {s : Store}
    {rows : List Row} (hspent : m.isSpent opts = false)
    (hcount : ∀ {s : Store} {rows : List Row} {m : Machine}, left s rows m →
      left s rows { m with steps := m.steps + 1 })
    (h : Follows left opts p s (m.cycle opts) rows) :
    Follows left opts p s (m.step opts) rows := by
  have hcontinues : ∀ {s : Store} {rows : List Row} {r : Reply Machine Bool},
      Continues left s rows r →
      Continues left s rows (r.mapState fun m => { m with steps := m.steps + 1 }) := by
    rintro s rows r (h | ⟨hresult, hleft⟩)
    · exact Or.inl h
    · exact Or.inr ⟨hresult, hcount hleft⟩
  rw [step, hspent, if_neg (by simp)]
  cases h with
  | halted hresult hout => exact .halted hresult hout
  | refused ha hresult hout => exact .refused ha hresult hout
  | updated ha hr hout => exact .updated ha (hcontinues hr) hout
  | entered ha hr hout => exact .entered ha (hcontinues hr) hout

/-! ## A loop of steps -/

/-- **A relation between machines and the rows that are left to them is kept by steps**: a step
performs the first of the rows. -/
structure Simulates (opts : Options) (p : Program) (left : Store → List Row → Machine → Prop) :
    Prop where
  follows : ∀ {s : Store} {rows : List Row} {m : Machine}, left s rows m →
    Follows left opts p s (m.step opts) rows

/-- Some number of steps brings execution to its end, with this output and this result. -/
def LoopsTo (opts : Options) (m : Machine) (out : Text) (result : Except Failure Unit) : Prop :=
  ∃ fuel r, loop opts fuel m = some r ∧ Event.outputOf r.events = out ∧ r.result = result

section Loop

variable {left : Store → List Row → Machine → Prop} {p : Program} {s : Store} {rows : List Row}
  {out : Text} {e : Ending} {result : Except Failure Unit}

/-- When a step has been made, a loop is the output of the step and a loop over what is left. -/
theorem loopsTo_of_continues (hr : Continues left s rows (m.step opts))
    (h : Unrolled opts p rows s out e)
    (hloop : ∀ m', left s rows m' → m'.LoopsTo opts out e.result) :
    m.LoopsTo opts (Event.outputOf (m.step opts).events ++ out) e.result := by
  rcases hr with ⟨hhalted, rfl⟩ | ⟨hrunning, hleft⟩
  · cases h
    exact ⟨1, _, loop_of_halted hhalted 0, by simp, rfl⟩
  · obtain ⟨fuel, r, hr, rfl, hresult⟩ := hloop _ hleft
    refine ⟨fuel + 1, r.after (m.step opts).events, ?_, by simp, hresult⟩
    rw [loop_of_running hrunning, hr, Option.map_some]

/-- **Rows that are performed to an ending are performed by a loop.** -/
theorem Simulates.loopsTo (hleft : Simulates opts p left) (h : Unrolled opts p rows s out e)
    (hm : left s rows m) : m.LoopsTo opts out e.result := by
  -- the rule that was applied first determines what the first step does
  induction h generalizing m with
  | nil =>
    cases hleft.follows hm with
    | halted hresult hout => exact ⟨1, _, loop_of_halted hresult 0, hout, rfl⟩
  | update ha h ih =>
    obtain ⟨hr, hout⟩ := (hleft.follows hm).of_update ha
    rw [← hout]
    exact loopsTo_of_continues hr h fun _ => ih
  | refuse ha =>
    obtain ⟨hresult, hout⟩ := (hleft.follows hm).of_refuse ha
    exact ⟨1, _, loop_of_error hresult 0, by simp [hout], rfl⟩
  | call ha h ih =>
    obtain ⟨hr, hout⟩ := (hleft.follows hm).of_enter ha
    have hloops := loopsTo_of_continues hr h fun _ => ih
    rwa [hout, List.nil_append] at hloops

/-- What a loop does behind a step is what it does with the rows that are left. -/
theorem unrolled_of_continues {fuel : Nat} {r : Reply Machine Unit}
    (hr : Continues left s rows (m.step opts)) (h : loop opts (fuel + 1) m = some r)
    (hloop : ∀ m' r', left s rows m' → loop opts fuel m' = some r' →
      ∃ e, Unrolled opts p rows s (Event.outputOf r'.events) e ∧ r'.result = e.result) :
    ∃ out e, Unrolled opts p rows s out e ∧
      Event.outputOf r.events = Event.outputOf (m.step opts).events ++ out ∧
      r.result = e.result := by
  rcases hr with ⟨hhalted, rfl⟩ | ⟨hrunning, hleft⟩
  · rw [loop_of_halted hhalted] at h
    cases h
    exact ⟨[], .done s, .nil, by simp, rfl⟩
  · rw [loop_of_running hrunning, Option.map_eq_some_iff] at h
    obtain ⟨r', hr', rfl⟩ := h
    obtain ⟨e, he, hresult⟩ := hloop _ r' hleft hr'
    exact ⟨_, e, he, by simp, hresult⟩

/-- **A loop that comes to its end has performed the rows that were left.** -/
theorem Simulates.unrolled (hleft : Simulates opts p left) {fuel : Nat} {r : Reply Machine Unit}
    (hm : left s rows m) (h : loop opts fuel m = some r) :
    ∃ e, Unrolled opts p rows s (Event.outputOf r.events) e ∧ r.result = e.result := by
  -- what the first step does determines the rule that is applied first
  induction fuel generalizing m s rows r with
  | zero => cases h
  | succ fuel ih =>
    cases hleft.follows hm with
    | halted hresult hout =>
      rw [loop_of_halted hresult] at h
      cases h
      exact ⟨.done s, by simpa [hout] using Unrolled.nil, rfl⟩
    | refused ha hresult hout =>
      rw [loop_of_error hresult] at h
      cases h
      exact ⟨.failed _ _, by simpa [hout] using Unrolled.refuse ha, rfl⟩
    | updated ha hr hout =>
      obtain ⟨out', e, he, hevents, hresult⟩ := unrolled_of_continues hr h fun _ _ => ih
      rw [hevents, hout]
      exact ⟨e, .update ha he, hresult⟩
    | entered ha hr hout =>
      obtain ⟨out', e, he, hevents, hresult⟩ := unrolled_of_continues hr h fun _ _ => ih
      rw [hevents, hout]
      exact ⟨e, .call ha he, hresult⟩

/-- A loop and structured execution of the rows that are left are the same. -/
theorem Simulates.loopsTo_iff (hleft : Simulates opts p left) (hm : left s rows m) :
    m.LoopsTo opts out result ↔ ∃ e, Performs opts p rows s out e ∧ result = e.result := by
  constructor
  · rintro ⟨fuel, r, hr, rfl, rfl⟩
    obtain ⟨e, he, hresult⟩ := hleft.unrolled hm hr
    exact ⟨e, performs_iff_unrolled.mpr he, hresult⟩
  · rintro ⟨e, he, rfl⟩
    exact hleft.loopsTo (performs_iff_unrolled.mp he) hm

/-- What has been written behind a step, the rows that are left have written. -/
theorem begun_of_continues {k : Nat} (hr : Continues left s rows (m.step opts))
    (hproceed : ∀ m', left s rows m' →
      Begun opts p rows s (Event.outputOf (m'.proceed opts k).events)) :
    ∃ out, Begun opts p rows s out ∧ Event.outputOf (m.proceed opts (k + 1)).events =
      Event.outputOf (m.step opts).events ++ out := by
  rcases hr with ⟨hhalted, -⟩ | ⟨hrunning, hleft⟩
  · rw [proceed_succ_of_ended (by simp [hhalted])]
    exact ⟨[], .start, (List.append_nil _).symm⟩
  · rw [proceed_succ_of_running hrunning]
    exact ⟨_, hproceed _ hleft, Event.outputOf_append _ _⟩

/-- What has been written after some steps, the rows that were left have written. -/
theorem Simulates.begun (hleft : Simulates opts p left) (hm : left s rows m) (k : Nat) :
    Begun opts p rows s (Event.outputOf (m.proceed opts k).events) := by
  -- as for a whole loop, but a step that ends execution writes nothing: it is the empty beginning
  induction k generalizing m s rows with
  | zero => exact .start
  | succ k ih =>
    cases hleft.follows hm with
    | halted hresult hout =>
      rw [proceed_succ_of_ended (by simp [hresult]), hout]
      exact .start
    | refused ha hresult hout =>
      rw [proceed_succ_of_ended (by simp [hresult]), hout]
      exact .start
    | updated ha hr hout =>
      obtain ⟨out', h, hevents⟩ := begun_of_continues (k := k) hr fun _ => ih
      rw [hevents, hout]
      exact .update ha h
    | entered ha hr hout =>
      obtain ⟨out', h, hevents⟩ := begun_of_continues (k := k) hr fun _ => ih
      rw [hevents, hout]
      exact .call ha h

/-- What the rows that are left have written, they have written after some steps. -/
theorem shows_of_continues (hr : Continues left s rows (m.step opts)) (h : Begun opts p rows s out)
    (hshows : ∀ m', left s rows m' → ∃ k, Event.outputOf (m'.proceed opts k).events = out) :
    ∃ k, Event.outputOf (m.proceed opts k).events =
      Event.outputOf (m.step opts).events ++ out := by
  rcases hr with ⟨-, rfl⟩ | ⟨hrunning, hleft⟩
  · cases h
    exact ⟨1, by simp⟩
  · obtain ⟨k, rfl⟩ := hshows _ hleft
    refine ⟨k + 1, ?_⟩
    rw [proceed_succ_of_running hrunning]
    exact Event.outputOf_append _ _

/-- **A loop has written at some point exactly what the rows that are left have.** -/
theorem Simulates.shows_iff (hleft : Simulates opts p left) (hm : left s rows m) :
    (∃ k, Event.outputOf (m.proceed opts k).events = out) ↔ Begun opts p rows s out := by
  constructor
  · rintro ⟨k, rfl⟩
    exact hleft.begun hm k
  · intro h
    induction h generalizing m with
    | start => exact ⟨0, rfl⟩
    | update ha h ih =>
      obtain ⟨hr, hout⟩ := (hleft.follows hm).of_update ha
      rw [← hout]
      exact shows_of_continues hr h fun _ => ih
    | call ha h ih =>
      obtain ⟨hr, hout⟩ := (hleft.follows hm).of_enter ha
      have hshows := shows_of_continues hr h fun _ => ih
      rwa [hout] at hshows

end Loop

end Machine

end LineScript

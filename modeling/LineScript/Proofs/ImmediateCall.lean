import LineScript.Proofs.Lockstep
import LineScript.Proofs.SingleSteps
import LineScript.Proofs.Termination
import LineScript.Proofs.Words

/-!
# Immediate calls

A function may be called from outside the program at any time, also when single steps have left
calls pending. Such a call puts its own frame on those that are there and gives up frames as bodies
end, several at once where a body ends in a call. It is over when as many are left as there were
before. Until then control is inside a body, at an indented line: so the end of the table is not
reached, which would clear the variables, and no older frame is given up.

## Main definitions

* `Event.EndFree`: events without the end of a run
* `Machine.Waiting`, `Machine.WaitingBehind`: a machine inside an immediate call, with the older
  calls below

## Main results

* `Machine.WaitingBehind.advance`: moving on inside a call stays inside it, or returns to the older
  calls
* `Machine.Waiting.step`, `Machine.Waiting.proceed`: so does a step, and so do steps
* `Machine.Resumes.unrolled_of_loop`: a loop inside a call performs the pending rows
* `Machine.call_keeps_frames`: an immediate call leaves the pending calls as they were, and the
  variables as the body leaves them
-/

namespace LineScript

/-! ## The text of a call -/

/-- The name of a function is a word. -/
theorem Program.Loaded.isWord {redefine : Bool} {p : Program} {name : Text} {i : Nat}
    (hp : p.Loaded redefine) (h : p.functions.get? name = some i) : name.IsWord := by
  obtain ⟨⟨line, -, -, hname⟩, -⟩ := (hp.isIndex.look_iff name i).mp h
  exact Text.isWord_of_mem_words (List.mem_of_getElem? hname)

theorem Statement.ofLine_call {function : Text} (h : function.IsWord) :
    Statement.ofLine (utf8 "call " ++ function) = .call function := by
  have htext : utf8 "call " ++ function = utf8 "call" ++ (utf8 " " ++ function) := rfl
  have hwords : (utf8 "call " ++ function).words = [utf8 "call", function] := by
    rw [htext, Text.words_utf8_append (by decide) rfl, Text.words_of_isWord h]
  rw [ofLine, hwords]
  rfl

/-! ## Events without the end of a run -/

/-- No run comes to its end among these events. -/
def Event.EndFree (events : List Event) : Prop :=
  ∀ steps named, Event.note (.runFinished steps named) ∉ events

namespace Machine

open Event (EndFree)

variable {opts : Options} {m m' : Machine} {base : Stack Nat}

theorem endFree_nil : EndFree [] := fun _ _ h => by cases h

theorem endFree_append {a b : List Event} (ha : EndFree a) (hb : EndFree b) : EndFree (a ++ b) := by
  intro steps named h
  rcases List.mem_append.mp h with h | h
  · exact ha steps named h
  · exact hb steps named h

theorem endFree_unwind (p : Program) (target : Option Nat) (calls : Stack Nat) (pc : Nat) :
    EndFree (unwind p target pc calls).events := by
  -- every event is the note of a return
  induction calls using Stack.push_induction generalizing pc with
  | empty => exact endFree_nil
  | push calls call ih =>
    rw [unwind_push]
    split
    · split
      · intro steps named hmem
        simp at hmem
      · intro steps named hmem
        rcases List.mem_cons.mp hmem with hnote | hmem
        · cases hnote
        · exact ih (call + 1) steps named hmem
    · exact endFree_nil

theorem endFree_perform {statement : Statement} {events : List Event}
    (h : m.perform opts statement = .ok (m', events)) : EndFree events := by
  have hmissing : ∀ name, EndFree (reportMissing opts name) := by
    intro name steps named hmem
    simp [reportMissing] at hmem
  cases statement with
  | blank =>
    cases h
    exact endFree_nil
  | set name value =>
    simp only [perform, performSet] at h
    split at h
    · cases h
    · split at h
      · cases h
      · cases h
        exact endFree_nil
  | sub name value =>
    simp only [perform, performSub] at h
    split at h
    · cases h
    · split at h
      · cases h
        exact hmissing name
      · split at h
        · cases h
        · split at h <;> cases h <;> exact endFree_nil
  | print name =>
    simp only [perform, performPrint, Except.ok.injEq] at h
    split at h
    · cases h
      exact hmissing name
    · cases h
      intro steps named hmem
      simp at hmem
  | rem name =>
    simp only [perform, performRem, Except.ok.injEq] at h
    split at h
    · cases h
      exact endFree_nil
    · cases h
      exact hmissing name
  | call function =>
    simp only [perform, performCall] at h
    split at h
    · cases h
    · cases h
      intro steps named hmem
      simp at hmem
  | incomplete keyword => cases h
  | unknown word => cases h

/-- Control that does not come behind the last line ends no run. -/
theorem endFree_advance (h : m.runsOut = false) : EndFree m.advance.events := by
  have hlanding : EndFree m.landing.events :=
    endFree_unwind m.program m.returnDepth m.calls (m.pc + 1)
  rw [advance_eq_land, land]
  cases ha : m.landing.arrived with
  | true => exact hlanding
  | false =>
    have hinside : ¬ m.program.size ≤ m.landing.pc := by simpa [runsOut, ha] using h
    simpa [hinside] using hlanding

/-! ## Inside a call -/

/-- A machine inside an immediate call that was made with the calls of `base` pending. -/
structure Waiting (base : Stack Nat) (m : Machine) : Prop where
  ready : m.Ready
  target : m.returnDepth = some base.size
  below : base.items <:+ m.calls.items

/-- Such a machine when it has performed the line that control is at, or has just entered the
definition there, and is about to move on. -/
structure WaitingBehind (base : Stack Nat) (m : Machine) : Prop where
  nested : m.program.Nested m.returnDepth m.calls.items
  skipped : m.calls.items ≠ [] → m.program.lines[m.pc]?.any Line.isSkipped = true
  target : m.returnDepth = some base.size
  below : base.items <:+ m.calls.items

/-- Control inside a call does not come behind the last line. -/
theorem WaitingBehind.runsOut_eq (hm : m.WaitingBehind base) : m.runsOut = false := by
  by_contra hout
  obtain ⟨hreset, hhalted⟩ := advance_of_runsOut ((Bool.not_eq_false _).mp hout)
  obtain ⟨pc, calls, hmachine, -⟩ := advance_of_waiting hm.nested hm.skipped hm.target hhalted
  -- there the call that is waited for would be lost
  have htarget : m.reset.returnDepth = m.returnDepth := by
    rw [← hreset, hmachine]
  rw [hm.target] at htarget
  cases htarget

/-- **Moving on inside a call** returns to the older calls, or stays inside the call. -/
theorem WaitingBehind.advance (hm : m.WaitingBehind base) :
    EndFree m.advance.events ∧
      (m.advance.halted = true ∧ m.advance.machine.calls = base ∧
          m.advance.machine.store = m.store ∨
        m.advance.halted = false ∧ m.advance.machine.pc ≠ 0 ∧ m.advance.machine.Waiting base) := by
  refine ⟨endFree_advance hm.runsOut_eq, ?_⟩
  obtain ⟨hmachine, -⟩ := advance_of_not_runsOut hm.runsOut_eq
  have hsuffix : m.advance.machine.calls.items <:+ m.calls.items := by
    rw [hmachine]
    exact (unwind_landsWithin m.program m.returnDepth m.calls (Nat.succ_pos m.pc)).suffix
  obtain ⟨hhalted, -⟩ | ⟨hrunning, hpc, hresumes⟩ := advance_spec hm.nested hm.skipped
  · -- as many calls are left as there were before, so they are the same
    obtain ⟨pc, calls, hreturned, hsize⟩ :=
      advance_of_waiting hm.nested hm.skipped hm.target hhalted
    rw [hreturned] at hsuffix ⊢
    have hlength : calls.items.length = base.items.length := by
      rw [calls.size_eq, base.size_eq, hsize]
    have hbelow : base.items <:+ calls.items :=
      List.suffix_of_suffix_length_le hm.below hsuffix (Nat.le_of_eq hlength.symm)
    exact Or.inl ⟨hhalted, Stack.ext_items (hbelow.eq_of_length hlength.symm).symm, rfl⟩
  · -- the call that is waited for is among those left
    have htarget := (returnDepth_advance hrunning).trans hm.target
    have hnested := hresumes.ready.nested
    rw [htarget] at hnested
    have hlength := hnested.lt_length
    rw [← base.size_eq] at hlength
    exact Or.inr ⟨hrunning, hpc, hresumes.ready, htarget,
      List.suffix_of_suffix_length_le hm.below hsuffix (Nat.le_of_lt hlength)⟩

/-- Inside a call there is a statement to perform, and no definition to pass over. -/
theorem Waiting.line (hm : m.Waiting base) :
    m.skipDefinitions = (m, []) ∧
      ∃ line, m.program.lines[m.pc]? = some line ∧ Line.isIndented line = true := by
  have hnested := hm.ready.nested
  rw [hm.target] at hnested
  obtain ⟨line, hline, hindented⟩ := Program.exists_line_of_any (hm.ready.indented hnested.ne_nil)
  refine ⟨?_, line, hline, hindented⟩
  rw [skipDefinitions, hline]
  refine if_neg fun hdef => ?_
  rw [Line.isIndented_eq_false_of_isDefinition hdef] at hindented
  cases hindented

/-- A statement that is performed inside a call leaves the machine inside it. -/
theorem Waiting.perform (hp : m.program.IndexesDefinitions) (hm : m.Waiting base)
    {statement : Statement} {events : List Event}
    (h : m.perform opts statement = .ok (m', events)) : m'.WaitingBehind base := by
  obtain ⟨hnested, hskipped⟩ := nested_of_perform hp hm.ready h
  refine ⟨hnested, hskipped, (perform_returnDepth h).trans hm.target, ?_⟩
  rcases perform_eq_ok h with ⟨s, rfl⟩ | ⟨definition, rfl⟩
  · exact hm.below
  · exact hm.below.trans (List.suffix_cons _ _)

/-- **A step inside a call** returns to the older calls, or stays inside the call. -/
theorem Waiting.step (hp : m.program.IndexesDefinitions) (hm : m.Waiting base) {halted : Bool}
    (h : (m.step opts).result = .ok halted) :
    EndFree (m.step opts).events ∧
      (halted = true → (m.step opts).state.calls = base) ∧
      (halted = false → (m.step opts).state.Waiting base) := by
  have hspent := isSpent_of_ok h
  obtain ⟨hskip, line, hline, -⟩ := hm.line
  rw [Machine.step, hspent, if_neg (by simp), cycle, hskip] at h ⊢
  simp only [hline] at h ⊢
  cases hperform : m.perform opts (Statement.ofLine line) with
  | error fault =>
    rw [hperform] at h
    cases h
  | ok performed =>
    obtain ⟨m', events⟩ := performed
    rw [hperform] at h
    obtain ⟨hend, hmoved⟩ := (hm.perform hp hperform).advance
    refine ⟨endFree_append (endFree_append endFree_nil (endFree_perform hperform)) hend, ?_⟩
    rcases hmoved with ⟨hhalted, hcalls, -⟩ | ⟨hrunning, hpc, hwaiting⟩
    · refine ⟨fun _ => hcalls, fun hfalse => ?_⟩
      rw [hfalse] at h
      simp [Reply.mapState, hhalted] at h
    · refine ⟨fun htrue => ?_, fun _ => ?_⟩
      · rw [htrue] at h
        simp [Reply.mapState, hrunning, hpc] at h
      · exact ⟨⟨hwaiting.ready.nested, hwaiting.ready.indented⟩, hwaiting.target, hwaiting.below⟩

/-- **Steps inside a call** return to the older calls, or stay inside the call. -/
theorem Waiting.proceed (hp : m.program.IndexesDefinitions) (hm : m.Waiting base) {k : Nat}
    {halted : Bool} (h : (m.proceed opts k).result = .ok halted) :
    EndFree (m.proceed opts k).events ∧
      (halted = true → (m.proceed opts k).state.calls = base) ∧
      (halted = false → (m.proceed opts k).state.Waiting base) := by
  induction k generalizing m with
  | zero =>
    cases h
    exact ⟨endFree_nil, nofun, fun _ => hm⟩
  | succ k ih =>
    by_cases hrunning : (m.step opts).result = .ok false
    · obtain ⟨hfree, -, hwaiting⟩ := hm.step hp hrunning
      have hp' : (m.step opts).state.program.IndexesDefinitions := by
        rwa [program_eq_of_code (m.step_code opts)]
      rw [proceed_succ_of_running hrunning] at h ⊢
      obtain ⟨hfree', hrest⟩ := ih hp' (hwaiting rfl) h
      exact ⟨endFree_append hfree hfree', hrest⟩
    · rw [proceed_succ_of_ended hrunning] at h ⊢
      exact hm.step hp h

/-- **A loop inside a call performs the pending rows**: when it comes to its end without a failure,
the variables are those that the rows leave. -/
theorem Resumes.unrolled_of_loop {p : Program} {s : Store} {rows : List Row} {n fuel : Nat}
    {r : Reply Machine Unit} (hp : p.IndexesDefinitions) (hm : Resumes p s rows m)
    (hwait : m.returnDepth = some n) (h : loop opts fuel m = some r) (hr : r.result = .ok ()) :
    Unrolled opts p rows s (Event.outputOf r.events) (.done r.state.store) := by
  induction fuel generalizing m s rows r with
  | zero => cases h
  | succ fuel ih =>
    -- what is left after a step is performed by the rest of the loop
    have hrest : ∀ {s' : Store} {rows' : List Row}, Continues (Resumes p) s' rows' (m.step opts) →
        ((m.step opts).result = .ok true → (m.step opts).state.store = s') →
        ∃ out, Event.outputOf r.events = Event.outputOf (m.step opts).events ++ out ∧
          Unrolled opts p rows' s' out (.done r.state.store) := by
      intro s' rows' hcontinues hstore
      rcases hcontinues with ⟨hhalted, rfl⟩ | ⟨hrunning, hresumes⟩
      · rw [loop_of_halted hhalted] at h
        cases h
        rw [hstore hhalted]
        exact ⟨[], (List.append_nil _).symm, .nil⟩
      · rw [loop_of_running hrunning] at h
        obtain ⟨r', hr', rfl⟩ := Option.map_eq_some_iff.mp h
        have hwait' := (returnDepth_of_running hrunning).trans hwait
        exact ⟨_, Event.outputOf_append .., ih hresumes hwait' hr' hr⟩
    obtain ⟨halted, hstep⟩ : ∃ halted, (m.step opts).result = .ok halted := by
      cases hstep : (m.step opts).result with
      | error failure =>
        rw [loop_of_error hstep] at h
        cases h
        cases hr
      | ok halted => exact ⟨halted, rfl⟩
    have hfollows := step_follows (isSpent_of_ok hstep) hp hm
    cases hfollows with
    | halted => exact absurd rfl (hm.ne_nil hwait)
    | refused _ hresult => cases hstep.symm.trans hresult
    | updated ha hcontinues hout =>
      obtain ⟨out, hout', hunrolled⟩ := hrest hcontinues fun hhalted => by
        rw [(hm.returned hp hwait hhalted).2, ha]
        rfl
      rw [hout', hout]
      exact .update ha hunrolled
    | entered ha hcontinues hout =>
      obtain ⟨out, hout', hunrolled⟩ := hrest hcontinues fun hhalted => by
        rw [(hm.returned hp hwait hhalted).2, ha]
        rfl
      rw [hout', hout, List.nil_append]
      exact .call ha hunrolled

/-! ## Whole calls -/

section Calls

variable {function : Text} {definition : Nat}

/-- An immediate call is made with the older calls below its own. -/
theorem waitingBehind_enterNow (hp : m.program.IndexesDefinitions)
    (hf : m.program.functions.get? function = some definition) :
    (m.enterNow definition).WaitingBehind m.calls :=
  ⟨m.nested_enterNow definition,
    fun _ => Program.any_isSkipped_of_isDefinition (hp function definition hf), rfl,
    List.suffix_cons _ _⟩

theorem indexesDefinitions_advance (hp : m.program.IndexesDefinitions) :
    m.advance.machine.program.IndexesDefinitions := by
  rwa [program_eq_of_code m.advance_code]

/-- The older calls are below the machine at every point of an immediate call. -/
theorem Visits.below {text : Text} (hp : m.program.IndexesDefinitions)
    (hs : Statement.ofLine text = .call function) (h : m.Visits opts text m') :
    m.calls.items <:+ m'.calls.items := by
  have hwaiting : ∀ {start m' : Machine} {k : Nat} {events : List Event},
      m.Launches text start → start.proceed opts k = ⟨m', events, .ok false⟩ →
      m'.Waiting m.calls := by
    intro start m' k events hlaunch hsteps
    cases hlaunch with
    | run => cases hs
    | @call _ function' definition hc hl hs' hf hrunning =>
      obtain ⟨-, ⟨hhalted, -⟩ | ⟨-, -, hstart⟩⟩ := (waitingBehind_enterNow hp hf).advance
      · cases hrunning.symm.trans hhalted
      · have hp' := indexesDefinitions_advance (m := m.enterNow definition) hp
        obtain ⟨-, -, hnext⟩ := hstart.proceed hp' (congrArg Reply.result hsteps)
        rw [hsteps] at hnext
        exact hnext rfl
  cases h with
  | called => exact List.suffix_cons _ _
  | between hlaunch hsteps => exact (hwaiting hlaunch hsteps).below
  | @entered start m' k events hlaunch hsteps =>
    obtain ⟨pc, hskip⟩ := m'.skipDefinitions_eq
    rw [hskip]
    exact (hwaiting hlaunch hsteps).below.trans (List.suffix_cons _ _)

/-- The pending calls are those of before when an immediate call is over without a failure, and no
run has come to its end. -/
theorem calls_of_callNow (hp : m.program.IndexesDefinitions)
    (hf : m.program.functions.get? function = some definition) {fuel : Nat}
    {r : Reply Machine Unit} (h : m.callNow opts fuel function = some r) (hr : r.result = .ok ()) :
    r.state.calls = m.calls ∧ r.state.returnDepth = none ∧ EndFree r.events := by
  obtain ⟨hend, hmoved⟩ := (waitingBehind_enterNow hp hf).advance
  have hcalled : EndFree (.note (.calledImmediately function definition) ::
      (m.enterNow definition).advance.events) := by
    intro steps named hmem
    rcases List.mem_cons.mp hmem with hnote | hmem
    · cases hnote
    · exact hend steps named hmem
  rcases hmoved with ⟨hhalted, hcalls, -⟩ | ⟨hrunning, -, hwaiting⟩
  · rw [callNow_of_halted hf hhalted] at h
    cases h
    exact ⟨hcalls, rfl, hcalled⟩
  · rw [callNow_of_running hf hrunning] at h
    obtain ⟨r', hloop, rfl⟩ := Option.map_eq_some_iff.mp h
    have hp' := indexesDefinitions_advance (m := m.enterNow definition) hp
    -- the loop has taken its steps, the last of which has returned
    rw [loop_eq_conclude] at hloop
    obtain ⟨hhalted, hstate, hevents⟩ := halted_of_conclude hloop hr
    obtain ⟨hfree, hreturned, -⟩ := hwaiting.proceed hp' hhalted
    rw [← hstate] at hreturned
    rw [← hevents] at hfree
    exact ⟨hreturned rfl, rfl, endFree_append hcalled hfree⟩

/-- An immediate call that is over without a failure has performed the body. -/
theorem performs_of_callNow (hp : m.program.IndexesDefinitions)
    (hf : m.program.functions.get? function = some definition) {fuel : Nat}
    {r : Reply Machine Unit} (h : m.callNow opts fuel function = some r) (hr : r.result = .ok ()) :
    Performs opts m.program (m.program.body definition) m.store (Event.outputOf r.events)
      (.done r.state.store) := by
  have hbehind := waitingBehind_enterNow hp hf
  have hspec := advance_spec hbehind.nested hbehind.skipped
  rw [pendingBehind_enterNow] at hspec
  rw [performs_iff_unrolled]
  obtain ⟨hhalted, hnone⟩ | ⟨hrunning, -, hresumes⟩ := hspec
  · -- an empty body is over at once
    obtain ⟨-, ⟨-, -, hstore⟩ | ⟨hrunning, -⟩⟩ := hbehind.advance
    · rw [callNow_of_halted hf hhalted] at h
      cases h
      rw [hnone, settle, hstore, outputOf_cons_note, outputOf_advance]
      exact .nil
    · cases hrunning.symm.trans hhalted
  · rw [callNow_of_running hf hrunning] at h
    obtain ⟨r', hloop, rfl⟩ := Option.map_eq_some_iff.mp h
    have hunrolled := hresumes.unrolled_of_loop hp
      ((returnDepth_advance hrunning).trans hbehind.target) hloop hr
    rw [Reply.after_events, Event.outputOf_append, outputOf_cons_note, outputOf_advance]
    exact hunrolled

/-- **An immediate call keeps the pending calls**, whatever calls earlier steps have left: at every
point of it they are below its own, and when it is over without a failure they are the pending
calls again. No run comes to its end meanwhile, so the variables are those that the body and the
functions it calls have left. -/
theorem call_keeps_frames (hm : m.Reachable opts) (hl : m.loading = false)
    (hf : m.program.functions.get? function = some definition) {r : Reply Machine Unit}
    (h : m.Answers opts (utf8 "call " ++ function) r) (hr : r.result = .ok ()) :
    r.state.calls = m.calls ∧ r.state.returnDepth = none ∧
      r.state.program = m.program ∧ r.state.loading = m.loading ∧
      (∀ m', m.Visits opts (utf8 "call " ++ function) m' → m.calls.items <:+ m'.calls.items) ∧
      (∀ steps named, Event.note (.runFinished steps named) ∉ r.events) ∧
      Performs opts m.program (m.program.body definition) m.store (Event.outputOf r.events)
        (.done r.state.store) := by
  obtain ⟨fuel, h⟩ := h
  have hp := hm.loaded.indexesDefinitions
  have hs := Statement.ofLine_call (hm.loaded.isWord hf)
  rw [submit_eq_callNow (ModeCommand.ofText?_of_call hs) hl hs] at h
  have hcode := callNow_code hf h
  obtain ⟨hcalls, hdepth, hfree⟩ := calls_of_callNow hp hf h hr
  exact ⟨hcalls, hdepth, program_eq_of_code hcode, loading_eq_of_code hcode,
    fun m' hvisit => hvisit.below hp hs, hfree, performs_of_callNow hp hf h hr⟩

/-- A function of two lines, and a call of it. -/
def steppedProgram : Text :=
  utf8 "def f\n set a 1\n set b 2\ncall f"

/-- The function is called from inside its own body, to which a step has led: the call in the
program stays pending. -/
theorem steppedProgram_keeps_frames :
    ∃ (m : Machine) (r : Reply Machine Unit), m.Reachable {} ∧ m.calls.items = [3] ∧ m.pc = 1 ∧
      m.Answers {} (utf8 "call f") r ∧ r.result = .ok () ∧ r.state.calls = m.calls ∧
      r.state.returnDepth = none ∧ r.state.program = m.program ∧
      (∀ steps named, Event.note (.runFinished steps named) ∉ r.events) ∧
      Performs {} m.program (m.program.body 0) m.store (Event.outputOf r.events)
        (.done r.state.store) := by
  have hopened : Reachable {} { Machine.initial with loading := true } :=
    .submit .initial ⟨0, (rfl : Machine.initial.submit _ 0 (utf8 "set code") = some _)⟩
  obtain ⟨loaded, hloaded, closed, hclosed, hl, hf, hcalls, hpc, r, hr, hok⟩ :
      ∃ loaded, { Machine.initial with loading := true }.submit {} 0 steppedProgram = some loaded ∧
      ∃ closed, loaded.state.submit {} 0 (utf8 "end set code") = some closed ∧
        (closed.state.step {}).state.loading = false ∧
        (closed.state.step {}).state.program.functions.get? (utf8 "f") = some 0 ∧
        (closed.state.step {}).state.calls.items = [3] ∧ (closed.state.step {}).state.pc = 1 ∧
        ∃ r, (closed.state.step {}).state.submit {} 9 (utf8 "call f") = some r ∧
          r.result = .ok () :=
    ⟨_, rfl, _, rfl, rfl, rfl, rfl, rfl, _, rfl, rfl⟩
  have hm : Reachable {} (closed.state.step {}).state :=
    ((hopened.submit ⟨0, hloaded⟩).submit ⟨0, hclosed⟩).step
  obtain ⟨hcalls', hdepth, hprogram, -, -, hfree, hperforms⟩ :=
    call_keeps_frames hm hl hf ⟨9, hr⟩ hok
  exact ⟨_, r, hm, hcalls, hpc, ⟨9, hr⟩, hok, hcalls', hdepth, hprogram, hfree, hperforms⟩

end Calls

end Machine

end LineScript

import LineScript.Proofs.Rest
import LineScript.Proofs.Simulation
import LineScript.Proofs.StepLimit

/-!
# Positions inside the table

Control moves by reading lines of the table: the one that it is at, and where a body may end also
the one before. Here reading is taken literally. A line is read at an integer position, and reading
outside the table, at a negative position too, has no result at all. A step that reads lines in this
way has a result all the same, and the one that it always has: every position that it reads at has
been compared with the size of the table before.

What a machine keeps from one operation to the next are positions inside the table as well, at rest
apart: the line that control is at, and the lines of the pending calls.

## Main definitions

* `Program.read?`: reads a line, at a position inside the table only
* `Machine.step?`, `Machine.advance?`: a step, and moving control to the next line, by reading lines
* `Machine.InTable`: the positions of a machine are inside the table

## Main results

* `Machine.step?_eq`, `Machine.advance?_eq`: a step reads no line outside the table
* `Machine.Reachable.inTable`: the positions of a reachable machine are inside the table
* `Machine.loop_names_line`: a loop that fails names a line of the table
* `Machine.positions_in_table`: all of it, of every reachable machine
-/

namespace LineScript

/-! ## Reading lines -/

namespace Program

variable {p : Program} {pc i : Nat} {line : Text}

/-- The line at a position. Outside the table there is nothing to be read. -/
def read? (p : Program) : (position : Int) → Option Text
  | .ofNat i => p.lines[i]?
  | .negSucc _ => none

@[simp] theorem read?_natCast (p : Program) (i : Nat) : p.read? (i : Int) = p.lines[i]? := rfl

theorem read?_pred (p : Program) (i : Nat) : p.read? ((i + 1 : Nat) - 1) = p.lines[i]? := by
  have hpred : ((i + 1 : Nat) - 1 : Int) = (i : Int) := by omega
  rw [hpred, read?_natCast]

/-- Does a body end before a line? The line before is read first, and the line itself only if that
one belongs to a function. -/
def leavesBlock? (p : Program) (pc : Nat) : Option Bool :=
  if p.size ≤ pc then some true
  else do
    let previous ← p.read? (pc - 1)
    if Line.isSkipped previous then
      let line ← p.read? pc
      some (!Line.isIndented line)
    else some false

/-- Goes past the lines of functions, one at a time. -/
def afterDefinitions? (p : Program) (pc : Nat) : Option Nat :=
  if p.size ≤ pc then some pc
  else do
    let line ← p.read? pc
    if Line.isSkipped line then p.afterDefinitions? (pc + 1) else some pc
termination_by p.size - pc

theorem exists_line (h : ¬ p.size ≤ i) : ∃ line, p.lines[i]? = some line :=
  ⟨_, Array.getElem?_eq_getElem (Nat.not_le.mp h)⟩

theorem lt_size_of_line (h : p.lines[i]? = some line) : i < p.size :=
  (Array.getElem?_eq_some_iff.mp h).1

/-- Behind the first line, both lines are in the table. -/
theorem leavesBlock?_eq (p : Program) (i : Nat) :
    p.leavesBlock? (i + 1) = some (p.leavesBlock (i + 1)) := by
  unfold leavesBlock? leavesBlock
  by_cases hend : p.size ≤ i + 1
  · rw [if_pos hend, Array.getElem?_eq_none hend]
  · obtain ⟨line, hline⟩ := exists_line hend
    obtain ⟨previous, hprevious⟩ := exists_line (p := p) (i := i) (by omega)
    rw [if_neg hend, read?_pred, read?_natCast, hline, Nat.add_sub_cancel, hprevious]
    cases hskipped : Line.isSkipped previous <;> simp [hskipped]

theorem afterDefinitions_of_end (h : p.size ≤ pc) : p.afterDefinitions pc = pc := by
  have hnone : p.lines.toList.drop pc = [] :=
    List.drop_eq_nil_of_le (by rwa [Array.length_toList])
  rw [afterDefinitions, hnone]
  rfl

theorem afterDefinitions_of_line (h : p.lines[pc]? = some line) :
    p.afterDefinitions pc =
      if Line.isSkipped line then p.afterDefinitions (pc + 1) else pc := by
  obtain ⟨hlt, rfl⟩ := Array.getElem?_eq_some_iff.mp h
  unfold afterDefinitions
  rw [List.drop_eq_getElem_cons (by simpa using hlt), Array.getElem_toList, List.takeWhile_cons]
  split
  · rw [List.length_cons]
    omega
  · rfl

/-- Going past the lines of functions stops at the end of the table. -/
theorem afterDefinitions?_eq (p : Program) (pc : Nat) :
    p.afterDefinitions? pc = some (p.afterDefinitions pc) := by
  fun_induction afterDefinitions? p pc with
  | case1 pc hend => rw [afterDefinitions_of_end hend]
  | case2 pc hend ih =>
    obtain ⟨line, hline⟩ := exists_line hend
    rw [read?_natCast, hline, afterDefinitions_of_line hline]
    simp only [Option.bind_eq_bind, Option.bind_some]
    split
    · exact ih
    · rfl

end Program

namespace Machine

variable {opts : Options} {m m' : Machine} {text : Text} {fuel : Nat} {r : Reply Machine Unit}

/-! ## Steps that read lines -/

/-- `unwind`, by reading lines. Whether a body ends is looked at before each return, also when no
call is pending. -/
def unwind? (p : Program) (target : Option Nat) (pc : Nat) :
    (calls : List Nat) → (size : Nat) → calls.length = size → Option Landing
  | [], size, h => do
    let _ ← p.leavesBlock? pc
    some ⟨pc, ⟨[], size, h⟩, [], false⟩
  | call :: calls, size, h => do
    let leaves ← p.leavesBlock? pc
    if leaves then
      let note := .note (.returned (call + 1) (size - 1))
      if target = some (size - 1) then
        some ⟨call + 1, ⟨calls, size - 1, Stack.length_tail h⟩, [note], true⟩
      else
        let landing ← unwind? p target (call + 1) calls (size - 1) (Stack.length_tail h)
        some { landing with events := note :: landing.events }
    else some ⟨pc, ⟨call :: calls, size, h⟩, [], false⟩

/-- What becomes of a machine whose control lands somewhere. -/
def land (m : Machine) (landing : Landing) : Progress :=
  let m := { m with pc := landing.pc, calls := landing.calls }
  if landing.arrived then ⟨m, landing.events, true⟩
  else if m.program.size ≤ landing.pc then
    let (m, events) := m.finish
    ⟨m, landing.events ++ events, true⟩
  else ⟨m, landing.events, false⟩

/-- `unwind` through all pending calls, by reading lines. -/
def unwindAll? (p : Program) (target : Option Nat) (pc : Nat) (calls : Stack Nat) :
    Option Landing :=
  unwind? p target pc calls.items calls.size calls.size_eq

/-- `advance`, by reading lines. -/
def advance? (m : Machine) : Option Progress :=
  (unwindAll? m.program m.returnDepth (m.pc + 1) m.calls).map m.land

/-- `skipDefinitions`, by reading lines. -/
def skipDefinitions? (m : Machine) : Option (Machine × List Event) :=
  if m.program.size ≤ m.pc then some (m, [])
  else do
    let line ← m.program.read? m.pc
    if Line.isDefinition line then
      let stop ← m.program.afterDefinitions? m.pc
      some ({ m with pc := stop }, [.note (.skipped m.pc stop)])
    else some (m, [])

/-- `cycle`, by reading lines. -/
def cycle? (opts : Options) (m : Machine) : Option (Reply Machine Bool) := do
  let (m, skipped) ← m.skipDefinitions?
  if m.program.size ≤ m.pc then
    let (m, events) := m.finish
    some ⟨m, skipped ++ events, .ok true⟩
  else
    let line ← m.program.read? m.pc
    match m.perform opts (Statement.ofLine line) with
    | .error fault => some ((m.failHere fault).after skipped)
    | .ok (m, events) =>
      let next ← m.advance?
      some ⟨next.machine, skipped ++ events ++ next.events,
        .ok (next.halted || decide (next.machine.pc = 0))⟩

/-- `step`, by reading lines. -/
def step? (opts : Options) (m : Machine) : Option (Reply Machine Bool) :=
  if m.isSpent opts then some (m.failHere (.bare .stepLimit))
  else (m.cycle? opts).map (·.mapState fun m => { m with steps := m.steps + 1 })

/-- Returning reads no line outside the table: control goes on behind a line. -/
theorem unwindAll?_eq (p : Program) (target : Option Nat) (calls : Stack Nat) (i : Nat) :
    unwindAll? p target (i + 1) calls = some (unwind p target (i + 1) calls) := by
  induction calls using Stack.push_induction generalizing i with
  | empty =>
    show (p.leavesBlock? (i + 1)).bind _ = _
    rw [Program.leavesBlock?_eq]
    rfl
  | push calls call ih =>
    show (p.leavesBlock? (i + 1)).bind _ = _
    rw [Program.leavesBlock?_eq, Option.bind_some, unwind_push]
    split
    · by_cases ht : target = some calls.size
      · rw [if_pos ht]
        exact if_pos ht
      · rw [if_neg ht]
        refine (if_neg ht).trans ?_
        show (unwindAll? p target (call + 1) calls).bind _ = _
        rw [ih]
        rfl
    · rfl

/-- **Moving control to the next line reads no line outside the table.** -/
theorem advance?_eq (m : Machine) : m.advance? = some m.advance := by
  rw [advance?, unwindAll?_eq]
  rfl

theorem skipDefinitions?_eq (m : Machine) : m.skipDefinitions? = some m.skipDefinitions := by
  unfold skipDefinitions? skipDefinitions
  by_cases hend : m.program.size ≤ m.pc
  · have hnone : m.program.lines[m.pc]? = none := Array.getElem?_eq_none hend
    rw [if_pos hend, hnone]
    rfl
  · obtain ⟨line, hline⟩ := Program.exists_line hend
    rw [if_neg hend, Program.read?_natCast, hline, Program.afterDefinitions?_eq]
    cases hdef : Line.isDefinition line <;> simp [hdef]

/-- **A cycle reads no line outside the table.** -/
theorem cycle?_eq (opts : Options) (m : Machine) : m.cycle? opts = some (m.cycle opts) := by
  unfold cycle? cycle
  rw [skipDefinitions?_eq, Option.bind_eq_bind, Option.bind_some]
  generalize m.skipDefinitions = q
  obtain ⟨m', skipped⟩ := q
  dsimp only
  by_cases hend : m'.program.size ≤ m'.pc
  · have hnone : m'.program.lines[m'.pc]? = none := Array.getElem?_eq_none hend
    rw [if_pos hend, hnone]
  · obtain ⟨line, hline⟩ := Program.exists_line hend
    rw [if_neg hend, Program.read?_natCast, hline]
    simp only [Option.bind_eq_bind, Option.bind_some, advance?_eq]
    cases m'.perform opts (Statement.ofLine line) <;> rfl

/-- **A step reads no line outside the table.** -/
theorem step?_eq (opts : Options) (m : Machine) : m.step? opts = some (m.step opts) := by
  unfold step? step
  rw [cycle?_eq]
  split <;> rfl

/-! ## Where control may be -/

/-- Control that has moved on to another line is in the table, and not at its first line. -/
theorem pc_of_running (h : m.advance.halted = false) :
    m.advance.machine.pc ≠ 0 ∧ m.advance.machine.pc < m.program.size := by
  have hlands := unwind_landsWithin m.program m.returnDepth m.calls (Nat.succ_pos m.pc)
  unfold advance at h ⊢
  generalize unwind m.program m.returnDepth (m.pc + 1) m.calls = landing at h hlands ⊢
  dsimp only at h ⊢
  split at h
  · cases h
  · next ha =>
    split at h
    · cases h
    · next hend =>
      -- control lands behind some line, so it is not at the first one
      rw [if_neg ha, if_neg hend]
      exact ⟨Nat.ne_of_gt hlands.pos, Nat.not_le.mp hend⟩

/-- The pending calls stand on lines of the table. -/
def CallsInTable (m : Machine) : Prop := ∀ call ∈ m.calls.items, call < m.program.size

/-- **The positions of a machine are inside the table**, at rest apart. -/
structure InTable (m : Machine) : Prop where
  pc : m.pc = 0 ∨ m.pc < m.program.size
  calls : m.CallsInTable

theorem InTable.reset (m : Machine) : m.reset.InTable :=
  ⟨Or.inl rfl, fun _ hcall => absurd hcall List.not_mem_nil⟩

theorem CallsInTable.of_suffix (hm : m.CallsInTable) (hp : m'.program = m.program)
    (hcalls : m'.calls.items <:+ m.calls.items) : m'.CallsInTable := by
  intro call hcall
  rw [hp]
  exact hm call (hcalls.subset hcall)

/-- Moving on gives up calls and adds none. -/
theorem CallsInTable.advance (hm : m.CallsInTable) : m.advance.machine.CallsInTable := by
  have hmoves := m.advance_moves
  generalize m.advance = next at hmoves
  cases hmoves with
  | arrived hcalls => exact hm.of_suffix rfl hcalls
  | finished => exact (InTable.reset m).calls
  | moved _ hcalls => exact hm.of_suffix rfl hcalls

/-- A statement on a line of the table may add that line to the calls. -/
theorem CallsInTable.perform {statement : Statement} {events : List Event} (hm : m.CallsInTable)
    (hpc : m.pc < m.program.size) (h : m.perform opts statement = .ok (m', events)) :
    m'.CallsInTable := by
  rcases perform_eq_ok h with ⟨s, rfl⟩ | ⟨definition, rfl⟩
  · exact hm
  · intro call hcall
    rcases List.mem_cons.mp hcall with rfl | hcall
    · exact hpc
    · exact hm call hcall

/-! ## What a step keeps -/

/-- **A step keeps the pending calls in the table**, wherever control is before it. -/
theorem CallsInTable.step (hm : m.CallsInTable) : (m.step opts).state.CallsInTable := by
  obtain ⟨-, hspent⟩ | ⟨r, hcycle, -, hstate⟩ := m.step_cases opts
  · rw [hspent]
    exact hm
  · obtain ⟨pc, hskip⟩ := m.skipDefinitions_eq
    rw [hstate]
    cases hcycle with
    | finished => exact (InTable.reset m).calls
    | failed =>
      change CallsInTable m.skipDefinitions.1
      rw [hskip]
      exact hm
    | @performed line m' events hline hperform =>
      -- the line that was read is the one that a call would add
      rw [hskip] at hline hperform
      have hm' : m'.CallsInTable :=
        CallsInTable.perform (m := { m with pc := pc }) hm (Program.lt_size_of_line hline) hperform
      exact hm'.advance

/-- A step that does not end execution leaves control in the table. -/
theorem pc_of_step_running (h : (m.step opts).result = .ok false) :
    (m.step opts).state.pc < m.program.size := by
  have hpasses := passes_of_running h
  generalize (m.step opts).state = next at hpasses
  cases hpasses with
  | intro m' _ hperform hrunning hmachine =>
    have hprogram : m'.program = m.program :=
      program_eq_of_code ((perform_code hperform).trans m.skipDefinitions_code)
    have hpc := (pc_of_running hrunning).2
    rwa [hmachine, hprogram] at hpc

/-- The failure names a line of the program and quotes it. -/
def NamesLine (p : Program) (failure : Failure) : Prop :=
  ∃ (i : Nat) (line : Text) (fault : Fault), p.lines[i]? = some line ∧
    failure = .atLine i line (.fault fault)

/-- **A step that fails names the line that it fails at.** There may be none when the step limit is
used up, but a loop has no step like that. -/
theorem step_names_line {failure : Failure}
    (hm : m.isSpent opts = false ∨ m.pc < m.program.size)
    (h : (m.step opts).result = .error failure) : NamesLine m.program failure := by
  obtain ⟨hspent, -, rfl⟩ | ⟨line, fault, hline, rfl, -⟩ := step_error_cases h
  · rcases hm with hfree | hpc
    · rw [hfree] at hspent
      cases hspent
    · obtain ⟨line, hline⟩ := Program.exists_line (Nat.not_le.mpr hpc)
      refine ⟨m.pc, line, .bare .stepLimit, hline, ?_⟩
      rw [currentLine, hline]
      rfl
  · exact ⟨_, line, fault, hline, rfl⟩

/-- **A step of a machine that waits for no call keeps the positions in the table.** -/
theorem InTable.step (hm : m.InTable) (htarget : m.returnDepth = none) :
    (m.step opts).state.InTable := by
  have hprogram : (m.step opts).state.program = m.program := program_eq_of_code (m.step_code opts)
  refine ⟨?_, hm.calls.step⟩
  rw [hprogram]
  cases h : (m.step opts).result with
  | error failure =>
    obtain ⟨-, hstate, -⟩ | ⟨line, fault, hline, -, hstate⟩ := step_error_cases h
    · rw [hstate]
      exact hm.pc
    · rw [hstate]
      exact Or.inr (Program.lt_size_of_line hline)
  | ok halted =>
    cases halted with
    | true =>
      rw [step_rest htarget h]
      exact Or.inl rfl
    | false => exact Or.inr (pc_of_step_running h)

/-! ## What a loop keeps -/

/-- **A loop keeps the pending calls in the table.** -/
theorem CallsInTable.loop (hm : m.CallsInTable) (h : loop opts fuel m = some r) :
    r.state.CallsInTable := by
  induction fuel generalizing m r with
  | zero => cases h
  | succ fuel ih =>
    cases hstep : (m.step opts).result with
    | error failure =>
      rw [loop_of_error hstep] at h
      cases h
      exact (InTable.reset _).calls
    | ok halted =>
      cases halted with
      | true =>
        rw [loop_of_halted hstep] at h
        cases h
        exact hm.step
      | false =>
        rw [loop_of_running hstep, Option.map_eq_some_iff] at h
        obtain ⟨r', hr', rfl⟩ := h
        have hrest := ih hm.step hr'
        exact hrest

/-- **A loop that fails names a line of the table**, if it may take a first step. Behind that step
control is in the table. -/
theorem loop_names_line {failure : Failure}
    (hm : m.isSpent opts = false ∨ m.pc < m.program.size) (h : Machine.loop opts fuel m = some r)
    (hr : r.result = .error failure) : NamesLine m.program failure := by
  induction fuel generalizing m r with
  | zero => cases h
  | succ fuel ih =>
    cases hstep : (m.step opts).result with
    | error failure' =>
      rw [loop_of_error hstep] at h
      cases h
      cases hr
      exact step_names_line hm hstep
    | ok halted =>
      cases halted with
      | true =>
        rw [loop_of_halted hstep] at h
        cases h
        cases hr
      | false =>
        rw [loop_of_running hstep, Option.map_eq_some_iff] at h
        obtain ⟨r', hr', rfl⟩ := h
        -- from here on control is in the table, whether the limit is used up or not
        have hprogram : (m.step opts).state.program = m.program :=
          program_eq_of_code (m.step_code opts)
        rw [← hprogram]
        refine ih (Or.inr ?_) hr' hr
        rw [hprogram]
        exact pc_of_step_running hstep

/-! ## Submissions -/

/-- An immediate call pushes the position of control, which is in the table since there is a
function. -/
theorem InTable.enterNow {function : Text} {definition : Nat} (hm : m.InTable)
    (hp : m.program.IndexesDefinitions)
    (hf : m.program.functions.get? function = some definition) :
    (m.enterNow definition).CallsInTable := by
  obtain ⟨line, hline, -⟩ := Program.exists_line_of_any (hp function definition hf)
  have hsize := Program.lt_size_of_line hline
  intro call hcall
  rcases List.mem_cons.mp hcall with rfl | hcall
  · rcases hm.pc with hpc | hpc
    · -- at rest it is the first line, and the table is not empty
      rw [hpc]
      exact Nat.zero_lt_of_lt hsize
    · exact hpc
  · exact hm.calls call hcall

/-- A larger program has room for the same positions. -/
theorem InTable.load (hm : m.InTable) (block : List Text) : (m.load opts block).state.InTable := by
  rcases m.load_cases opts block with ⟨fault, h⟩ | ⟨p, note, hload, h⟩
  · rw [h]
    exact hm
  · obtain ⟨found, -, rfl⟩ := Program.load_eq_ok hload
    have hle : m.program.size ≤ (m.program.append block found).size := by
      simp [Program.size, ← Array.length_toList]
    rw [h]
    exact ⟨hm.pc.imp_right fun hpc => Nat.lt_of_lt_of_le hpc hle,
      fun call hcall => Nat.lt_of_lt_of_le (hm.calls call hcall) hle⟩

/-- **A submission keeps the positions in the table**, and waits for no call when it is over. -/
theorem InTable.submit (hm : m.InTable) (hp : m.program.IndexesDefinitions)
    (htarget : m.returnDepth = none) (h : m.submit opts fuel text = some r) :
    r.state.InTable ∧ r.state.returnDepth = none := by
  cases submits_of_submit h with
  | nothing => exact ⟨hm, htarget⟩
  | opened => exact ⟨⟨hm.pc, hm.calls⟩, htarget⟩
  | closed => exact ⟨⟨hm.pc, hm.calls⟩, htarget⟩
  | ran h =>
    obtain ⟨n, hstate⟩ := run_rest h
    rw [hstate]
    exact ⟨⟨(InTable.reset m).pc, (InTable.reset m).calls⟩, rfl⟩
  | loaded =>
    refine ⟨hm.load (blockLines text), ?_⟩
    rcases m.load_cases opts (blockLines text) with ⟨fault, h⟩ | ⟨p, note, -, h⟩ <;> rw [h] <;>
      exact htarget
  | refused => exact ⟨hm, htarget⟩
  | updated => exact ⟨⟨hm.pc, hm.calls⟩, htarget⟩
  | called _ _ _ hf h =>
    have hentered := (hm.enterNow hp hf).advance
    -- what an immediate call leaves is settled
    obtain ⟨note, ⟨rfl, -⟩ | ⟨r', hr', rfl, -⟩⟩ := callNow_cases hf h
    · exact ⟨⟨Or.inl rfl, hentered⟩, rfl⟩
    · have hlooped := hentered.loop hr'
      exact ⟨⟨Or.inl rfl, hlooped⟩, rfl⟩

theorem returnDepth_step (htarget : m.returnDepth = none) :
    (m.step opts).state.returnDepth = none := by
  cases h : (m.step opts).result with
  | error failure =>
    obtain ⟨-, hstate, -⟩ | ⟨line, fault, -, -, hstate⟩ := step_error_cases h
    · rwa [hstate]
    · obtain ⟨pc, hskip⟩ := m.skipDefinitions_eq
      rw [hstate, hskip]
      exact htarget
  | ok halted =>
    cases halted with
    | true =>
      rw [step_rest htarget h]
      rfl
    | false => exact (returnDepth_of_running h).trans htarget

/-- **The positions of a reachable machine are inside the table.** -/
theorem Reachable.inTable (hm : m.Reachable opts) : m.InTable ∧ m.returnDepth = none := by
  induction hm with
  | initial => exact ⟨InTable.reset .initial, rfl⟩
  | submit hm h ih =>
    obtain ⟨fuel, h⟩ := h
    exact ih.1.submit hm.loaded.indexesDefinitions ih.2 h
  | step _ ih => exact ⟨ih.1.step ih.2, returnDepth_step ih.2⟩
  | @reset m _ _ => exact ⟨InTable.reset m, rfl⟩

/-- A failed submission that names a line names one of the table. -/
theorem submit_names_line {failure cause : Failure} {line : Int} {source : Text}
    (h : m.submit opts fuel text = some r) (hr : r.result = .error failure)
    (hline : failure.line? = some (line, source, cause)) :
    r.state.program = m.program ∧ ∃ i : Nat, line = i ∧ m.program.lines[i]? = some source := by
  rcases (submits_of_submit h).error hr with
    ⟨fault, rfl, rfl⟩ | ⟨start, r', hlaunch, hloop, hfail, hstate⟩
  · cases hline
  · have hprogram := program_eq_of_code hlaunch.code
    -- the steps are counted from zero, so the first one is allowed
    have hfree : start.isSpent opts = false := by
      simp only [isSpent, hlaunch.steps_eq, Bool.and_eq_false_iff, decide_eq_false_iff_not]
      omega
    obtain ⟨i, text, fault, htext, rfl⟩ := loop_names_line (Or.inl hfree) hloop hfail
    cases hline
    refine ⟨?_, i, rfl, hprogram ▸ htext⟩
    rw [hstate]
    exact (program_eq_of_code (loop_code hloop)).trans hprogram

/-- **No operation goes outside the table.** In a reachable machine control is at rest or at a line
of the table, and so are the pending calls. A step, and moving control to the next line, read no
line outside the table, whatever machine they start from, and control never comes back to the first
line by moving on. A submission that fails at a line names one of the table and quotes it. -/
theorem positions_in_table (hm : m.Reachable opts) :
    ((m.pc = 0 ∨ m.pc < m.program.size) ∧ ∀ call ∈ m.calls.items, call < m.program.size) ∧
    (∀ m' : Machine, m'.step? opts = some (m'.step opts) ∧ m'.advance? = some m'.advance ∧
      (m'.advance.halted = false → m'.advance.machine.pc ≠ 0)) ∧
    ∀ text r failure line source cause, m.Answers opts text r → r.result = .error failure →
      failure.line? = some (line, source, cause) →
      0 ≤ line ∧ line < r.state.program.size ∧ r.state.program.read? line = some source := by
  obtain ⟨⟨hpc, hcalls⟩, -⟩ := hm.inTable
  refine ⟨⟨hpc, hcalls⟩, fun m' => ⟨m'.step?_eq opts, m'.advance?_eq, ?_⟩, ?_⟩
  · intro hrunning
    exact (pc_of_running hrunning).1
  · rintro text r failure line source cause ⟨fuel, h⟩ hr hline
    obtain ⟨hprogram, i, rfl, hsource⟩ := submit_names_line h hr hline
    rw [hprogram]
    exact ⟨Int.natCast_nonneg i, Int.ofNat_lt.mpr (Program.lt_size_of_line hsource), hsource⟩

/-- Between two single steps a call is pending; a run from there fails at the last line. -/
theorem positions_between_steps :
    ∃ m r, Reachable {} m ∧ m.calls.items = [0] ∧ 0 < m.program.size ∧ m.pc = 2 ∧
      m.pc < m.program.size ∧ m.Answers {} ModeCommand.run.wording r ∧
      r.result = .error (.atLine 3 (utf8 " jump") (.fault (.unknownCommand (utf8 "jump")))) ∧
      r.state.program.read? 3 = some (utf8 " jump") := by
  have hopened : Reachable {} { Machine.initial with loading := true } :=
    .submit .initial ⟨0, (rfl : Machine.initial.submit _ 0 (utf8 "set code") = some _)⟩
  obtain ⟨r, hr, hcalls, hpc, r', hr', hresult⟩ : ∃ r,
      { Machine.initial with loading := true }.submit {} 0
        (utf8 "call f\ndef f\n set a 1\n jump") = some r ∧
      (r.state.step {}).state.calls.items = [0] ∧ (r.state.step {}).state.pc = 2 ∧
      ∃ r', (r.state.step {}).state.submit {} 2 ModeCommand.run.wording = some r' ∧ r'.result =
        .error (.atLine 3 (utf8 " jump") (.fault (.unknownCommand (utf8 "jump")))) :=
    ⟨_, rfl, rfl, rfl, _, rfl, rfl⟩
  have hm : Reachable {} (r.state.step {}).state := (hopened.submit ⟨0, hr⟩).step
  obtain ⟨⟨hinside, hpending⟩, -, hnames⟩ := positions_in_table hm
  obtain ⟨-, -, hread⟩ := hnames _ r' _ 3 _ _ ⟨2, hr'⟩ hresult rfl
  refine ⟨_, r', hm, hcalls, ?_, hpc, ?_, ⟨2, hr'⟩, hresult, hread⟩
  · exact hpending 0 (by simp [hcalls])
  · exact hinside.resolve_left (by simp [hpc])

end Machine

end LineScript

import LineScript.Proofs.Following
import Mathlib.Tactic.ByContra

/-!
# The machine follows structured execution

A machine keeps a position of control and the positions of the pending calls, and finds the end
of a body by the indentation of two neighbouring lines. Between two steps these data stand for
the rows that are still to be performed: the rest of the body that control is in, then for each
pending call the rest of the body that the call is in, and at last the rest of the table outside
the functions. A step performs the first of these rows; a call puts a body in front of them.

## Main definitions

* `Program.pending`: the rows that a position of control and pending calls stand for
* `Program.Nested`: pending calls stand inside bodies, except for the outermost one
* `Machine.Ready`: control is where a step may begin
* `Machine.Resumes`: these rows are pending

## Main results

* `Machine.unwind_spec`: returning from calls changes the pending rows by nothing
* `Machine.step_follows`: a step performs the first pending row
* `Machine.simulates_resumes`: so machines with pending rows follow them
* `Machine.run_refines_walk`: a run of the program is a walk down its table
-/

namespace LineScript

/-! ## Rows from an index on -/

namespace Program

variable {p : Program} {i : Nat} {line : Text}

theorem rows_map_text (p : Program) : p.rows.map Row.text = p.lines.toList := by
  refine List.ext_getElem? fun i => ?_
  cases h : p.lines[i]? <;> simp [rows, h]

theorem exists_line_of_any {q : Text → Bool} (h : p.lines[i]?.any q = true) :
    ∃ line, p.lines[i]? = some line ∧ q line = true := by
  cases hline : p.lines[i]? with
  | none => simp [hline] at h
  | some line => exact ⟨line, rfl, by simpa [hline] using h⟩

theorem drop_rows_of_eq_none (h : p.lines[i]? = none) : p.rows.drop i = [] := by
  have hi : p.lines.size ≤ i := Array.getElem?_eq_none_iff.mp h
  exact List.drop_eq_nil_of_le (by simpa [rows] using hi)

theorem drop_rows_of_eq_some (h : p.lines[i]? = some line) :
    p.rows.drop i = ⟨i, line⟩ :: p.rows.drop (i + 1) := by
  obtain ⟨hi, rfl⟩ := Array.getElem?_eq_some_iff.mp h
  have hlen : i < p.rows.length := by simpa [rows] using hi
  rw [List.drop_eq_getElem_cons hlen]
  simp [rows]

theorem drop_afterDefinitions (p : Program) (i : Nat) :
    p.rows.drop (p.afterDefinitions i) = (p.rows.drop i).dropWhile Row.isSkipped := by
  have hlines : p.lines.toList.drop i = (p.rows.drop i).map Row.text := by
    rw [← p.rows_map_text, List.map_drop]
  rw [afterDefinitions, hlines, List.takeWhile_map, List.length_map, ← List.drop_drop]
  generalize p.rows.drop i = rows
  calc rows.drop (rows.takeWhile Row.isSkipped).length
      = (rows.takeWhile Row.isSkipped ++ rows.dropWhile Row.isSkipped).drop
          (rows.takeWhile Row.isSkipped).length := by rw [List.takeWhile_append_dropWhile]
    _ = rows.dropWhile Row.isSkipped := List.drop_left

theorem blockFrom_of_indented (h : p.lines[i]? = some line) (hi : Line.isIndented line = true) :
    p.blockFrom i = ⟨i, line⟩ :: p.blockFrom (i + 1) := by
  rw [blockFrom, drop_rows_of_eq_some h]
  exact List.takeWhile_cons_of_pos hi

/-- Where a body ends, no indented rows follow. -/
theorem blockFrom_of_leavesBlock (h : p.leavesBlock i = true) : p.blockFrom i = [] := by
  unfold leavesBlock at h
  split at h
  · next hnone => rw [blockFrom, drop_rows_of_eq_none hnone, List.takeWhile_nil]
  · next line hline =>
    rw [blockFrom, drop_rows_of_eq_some hline]
    refine List.takeWhile_cons_of_neg ?_
    simp only [Bool.and_eq_true, Bool.not_eq_true'] at h
    simp [Row.isIndented, h.2]

/-- Behind a line of a function, control is at an indented line unless the body ends. -/
theorem indented_of_not_leavesBlock (h : p.leavesBlock i = false)
    (hprev : p.lines[i - 1]?.any Line.isSkipped = true) :
    p.lines[i]?.any Line.isIndented = true := by
  unfold leavesBlock at h
  split at h
  · cases h
  · next line hline =>
    rw [hprev, Bool.true_and, Bool.not_eq_false'] at h
    rw [hline]
    exact h

/-- Behind definitions control is at the next row outside the functions, if there is one. -/
theorem mainRows_afterDefinitions (h : p.lines[i]? = some line)
    (hd : Line.isDefinition line = true) :
    mainRows (p.rows.drop (p.afterDefinitions i)) = mainRows (p.rows.drop i) := by
  have hrow : Row.isDefinition ⟨i, line⟩ = true := hd
  have hskip : Row.isSkipped ⟨i, line⟩ = true := by simp [Row.isSkipped, hrow]
  rw [drop_afterDefinitions, drop_rows_of_eq_some h, List.dropWhile_cons_of_pos hskip, mainRows,
    if_pos hrow]

theorem not_isDefinition_afterDefinitions (p : Program) (i : Nat) :
    p.lines[p.afterDefinitions i]?.any Line.isDefinition = false := by
  cases hline : p.lines[p.afterDefinitions i]? with
  | none => rfl
  | some line =>
    have hhead := List.head?_dropWhile_not Row.isSkipped (p.rows.drop i)
    rw [← drop_afterDefinitions, drop_rows_of_eq_some hline] at hhead
    simp only [List.head?_cons, Row.isSkipped, Bool.or_eq_false_iff] at hhead
    exact hhead.2

/-! ## Pending rows -/

/-- The rows that are still to be performed when control is at `pc`, with these calls pending
from the innermost on. Nothing is left behind the call after whose return `target` calls are
pending. -/
def pending (p : Program) (target : Option Nat) : (pc : Nat) → (calls : List Nat) → List Row
  | pc, [] => mainRows (p.rows.drop pc)
  | pc, call :: calls =>
    p.blockFrom pc ++
      if target = some calls.length then [] else p.pending target (call + 1) calls

/-- Every pending call stands on an indented line, except for the outermost one and those below
the call that is waited for. Such a call is among the pending ones. -/
def Nested (p : Program) (target : Option Nat) : (calls : List Nat) → Prop
  | [] => target = none
  | call :: calls =>
    target = some calls.length ∨
      (calls ≠ [] → p.lines[call]?.any Line.isIndented = true) ∧ p.Nested target calls

/-- The call that is waited for is still pending. -/
theorem Nested.lt_length {n : Nat} {calls : List Nat} (h : p.Nested (some n) calls) :
    n < calls.length := by
  induction calls with
  | nil => cases h
  | cons call calls ih =>
    rcases h with h | ⟨-, h⟩
    · rw [Option.some.inj h]
      exact Nat.lt_succ_self _
    · exact Nat.lt_succ_of_lt (ih h)

theorem Nested.ne_nil {n : Nat} {calls : List Nat} (h : p.Nested (some n) calls) : calls ≠ [] :=
  List.ne_nil_of_length_pos (Nat.zero_lt_of_lt h.lt_length)

theorem Nested.ne_length {target : Option Nat} {calls : List Nat} (h : p.Nested target calls) :
    target ≠ some calls.length := by
  rintro rfl
  exact Nat.lt_irrefl _ h.lt_length

/-- No call is pending where control is inside a body if calls are pending, but at no indented
line. -/
theorem eq_nil_of_not_indented {calls : List Nat}
    (h : calls ≠ [] → p.lines[i]?.any Line.isIndented = true)
    (hi : p.lines[i]?.any Line.isIndented = false) : calls = [] := by
  by_contra hne
  rw [h hne] at hi
  cases hi

theorem any_isSkipped_of_isDefinition (h : p.lines[i]?.any Line.isDefinition = true) :
    p.lines[i]?.any Line.isSkipped = true := by
  obtain ⟨line, hline, hd⟩ := exists_line_of_any h
  simp [hline, Line.isSkipped, hd]

theorem any_isSkipped_of_isIndented (h : p.lines[i]?.any Line.isIndented = true) :
    p.lines[i]?.any Line.isSkipped = true := by
  obtain ⟨line, hline, hi⟩ := exists_line_of_any h
  rw [hline]
  exact Line.isSkipped_of_isIndented hi

end Program

namespace Machine

/-! ## Returning from calls -/

/-- Where control lands that has come to `pc` with these calls pending: it stands for the same
pending rows, or the call that was waited for is over and none are pending. -/
structure Lands (p : Program) (target : Option Nat) (pc : Nat) (calls : List Nat)
    (landing : Landing) : Prop where
  pos : 0 < landing.pc
  finished : landing.arrived = true → p.pending target pc calls = []
  nested : landing.arrived = false → p.Nested target landing.calls.items
  indented : landing.arrived = false → landing.calls.items ≠ [] →
    p.lines[landing.pc]?.any Line.isIndented = true
  pending_eq : landing.arrived = false →
    p.pending target landing.pc landing.calls.items = p.pending target pc calls

/-- **Returning from calls changes the pending rows by nothing.** Control has moved to `pc` from
the line before, which belongs to a function if calls are pending. -/
theorem unwind_spec (p : Program) (target : Option Nat) (calls : Stack Nat) {pc : Nat}
    (hpc : 0 < pc) (hprev : calls.items ≠ [] → p.lines[pc - 1]?.any Line.isSkipped = true)
    (hn : p.Nested target calls.items) :
    Lands p target pc calls.items (unwind p target pc calls) := by
  -- one call is given up at a time, and control goes on behind it
  induction calls using Stack.push_induction generalizing pc with
  | empty =>
    exact ⟨hpc, fun ha => (by cases ha), fun _ => hn, fun _ hne => absurd rfl hne, fun _ => rfl⟩
  | push calls call ih =>
    rw [unwind_push]
    split
    · next hleave =>
      have hblock := Program.blockFrom_of_leavesBlock hleave
      split
      · next ht =>
        -- the call that was waited for is over
        have hnone : p.pending target pc (call :: calls.items) = [] := by
          rw [Program.pending, hblock, if_pos (by rwa [calls.size_eq]), List.append_nil]
        exact ⟨Nat.succ_pos call, fun _ => hnone, fun ha => (by cases ha),
          fun ha => (by cases ha), fun ha => (by cases ha)⟩
      · next ht =>
        -- control goes on behind the call, as if the body had not been there
        have ht' : target ≠ some calls.items.length := by rwa [calls.size_eq]
        obtain ⟨hcall, hcalls⟩ := hn.resolve_left ht'
        have hlands := ih (Nat.succ_pos call)
          (fun hne => Program.any_isSkipped_of_isIndented (hcall hne)) hcalls
        have heq : p.pending target pc (call :: calls.items) =
            p.pending target (call + 1) calls.items := by
          rw [Program.pending, hblock, if_neg ht', List.nil_append]
        exact ⟨hlands.pos, fun ha => heq.trans (hlands.finished ha), hlands.nested,
          hlands.indented, fun ha => (hlands.pending_eq ha).trans heq.symm⟩
    · next hstay =>
      -- the line before belongs to a function, so what follows inside the body is indented
      have hline := Program.indented_of_not_leavesBlock (Bool.eq_false_iff.mpr hstay)
        (hprev (List.cons_ne_nil _ _))
      exact ⟨hpc, fun ha => (by cases ha), fun _ => hn, fun _ _ => hline, fun _ => rfl⟩

/-- The rows that a machine has still to perform. -/
def pending (m : Machine) : List Row :=
  m.program.pending m.returnDepth m.pc m.calls.items

/-- The rows that are pending behind the line that control is at. -/
def pendingBehind (m : Machine) : List Row :=
  m.program.pending m.returnDepth (m.pc + 1) m.calls.items

/-- Control is where a step may begin: inside a body, if calls are pending. -/
structure Ready (m : Machine) : Prop where
  nested : m.program.Nested m.returnDepth m.calls.items
  indented : m.calls.items ≠ [] → m.program.lines[m.pc]?.any Line.isIndented = true

/-- The state in which execution of a program goes on: these rows are pending, and these are the
variables. -/
structure Resumes (p : Program) (s : Store) (rows : List Row) (m : Machine) : Prop where
  ready : m.Ready
  pending_eq : m.pending = rows
  store_eq : m.store = s
  program_eq : m.program = p

/-- **Moving on leaves the rows behind the line**, or brings execution to its end when there are
none. -/
theorem advance_spec {m : Machine} (hn : m.program.Nested m.returnDepth m.calls.items)
    (hline : m.calls.items ≠ [] → m.program.lines[m.pc]?.any Line.isSkipped = true) :
    m.advance.halted = true ∧ m.pendingBehind = [] ∨
      m.advance.halted = false ∧ m.advance.machine.pc ≠ 0 ∧
        Resumes m.program m.store m.pendingBehind m.advance.machine := by
  have hlands := unwind_spec m.program m.returnDepth m.calls (Nat.succ_pos m.pc) hline hn
  unfold advance
  generalize unwind m.program m.returnDepth (m.pc + 1) m.calls = landing at hlands
  dsimp only
  split
  · next ha => exact Or.inl ⟨rfl, hlands.finished ha⟩
  · next ha =>
    have ha' := Bool.eq_false_iff.mpr ha
    split
    · next hend =>
      have hnone : m.program.lines[landing.pc]? = none := Array.getElem?_eq_none hend
      -- behind the table control is at no indented line
      have hcalls : landing.calls.items = [] :=
        Program.eq_nil_of_not_indented (hlands.indented ha') (by rw [hnone]; rfl)
      refine Or.inl ⟨rfl, ?_⟩
      rw [pendingBehind, ← hlands.pending_eq ha', hcalls, Program.pending,
        Program.drop_rows_of_eq_none hnone, mainRows]
    · exact Or.inr ⟨rfl, Nat.ne_of_gt hlands.pos,
        ⟨hlands.nested ha', hlands.indented ha'⟩, hlands.pending_eq ha', rfl, rfl⟩

/-! ## One step -/

variable {opts : Options} {m : Machine}

theorem pending_of_none (hm : m.Ready) (h : m.program.lines[m.pc]? = none) : m.pending = [] := by
  have hcalls := Program.eq_nil_of_not_indented hm.indented (by rw [h]; rfl)
  rw [pending, hcalls, Program.pending, Program.drop_rows_of_eq_none h, mainRows]

/-- At a line that defines no function, control is at the first pending row. -/
theorem pending_of_some (hm : m.Ready) {line : Text} (h : m.program.lines[m.pc]? = some line)
    (hd : Line.isDefinition line = false) : m.pending = ⟨m.pc, line⟩ :: m.pendingBehind := by
  rw [pending, pendingBehind]
  cases hcalls : m.calls.items with
  | nil =>
    have hrow : ¬ Row.isDefinition ⟨m.pc, line⟩ = true := by simp [Row.isDefinition, hd]
    rw [Program.pending, Program.drop_rows_of_eq_some h, mainRows, if_neg hrow]
    rfl
  | cons call calls =>
    have hline := hm.indented (by simp [hcalls])
    rw [h] at hline
    rw [Program.pending, Program.blockFrom_of_indented h hline]
    rfl

/-- **Passing over definitions leaves the pending rows.** Inside a body there are none. -/
theorem skipDefinitions_spec (hm : m.Ready) :
    Resumes m.program m.store m.pending m.skipDefinitions.1 ∧
      m.skipDefinitions.1.program.lines[m.skipDefinitions.1.pc]?.any Line.isDefinition = false := by
  unfold skipDefinitions
  split
  · next hdef =>
    obtain ⟨line, hline, hd⟩ := Program.exists_line_of_any hdef
    have hcalls : m.calls.items = [] := Program.eq_nil_of_not_indented hm.indented
      (by rw [hline]; exact Line.isIndented_eq_false_of_isDefinition hd)
    -- so control is on the walk down the table, which passes over definitions
    refine ⟨⟨⟨hm.nested, fun hne => absurd hcalls hne⟩, ?_, rfl, rfl⟩,
      m.program.not_isDefinition_afterDefinitions m.pc⟩
    simp only [pending, hcalls, Program.pending]
    exact Program.mainRows_afterDefinitions hline hd
  · next hdef => exact ⟨⟨hm, rfl, rfl, rfl⟩, Bool.eq_false_iff.mpr hdef⟩

/-- A machine that has performed a statement moves on to the rows behind it. -/
theorem continues_movedOn (hn : m.program.Nested m.returnDepth m.calls.items)
    (hline : m.calls.items ≠ [] → m.program.lines[m.pc]?.any Line.isSkipped = true)
    (events : List Event) :
    Continues (Resumes m.program) m.store m.pendingBehind (m.movedOn events) := by
  obtain ⟨hhalted, hnone⟩ | ⟨hhalted, hpc, hresumes⟩ := advance_spec hn hline
  · exact Or.inl ⟨by simp [movedOn, halts, hhalted], hnone⟩
  · exact Or.inr ⟨by simp [movedOn, halts, hhalted, hpc], hresumes⟩

/-- The rows behind the definition that a call enters: the body, then what is behind the call. -/
theorem pendingBehind_enter (hm : m.Ready) (definition : Nat) :
    (m.enter definition).pendingBehind = m.program.body definition ++ m.pendingBehind := by
  -- a call from inside is never the one that is waited for
  have hn : ¬ (m.enter definition).returnDepth = some m.calls.items.length := hm.nested.ne_length
  change m.program.blockFrom (definition + 1) ++ (if _ then _ else _) = _
  rw [if_neg hn]
  rfl

/-- A call keeps the pending calls nested. -/
theorem nested_enter (hm : m.Ready) (definition : Nat) :
    m.program.Nested m.returnDepth (m.enter definition).calls.items :=
  Or.inr ⟨hm.indented, hm.nested⟩

/-- An immediate call waits for the call that it makes. -/
theorem nested_enterNow (m : Machine) (definition : Nat) :
    m.program.Nested (m.enterNow definition).returnDepth (m.enterNow definition).calls.items :=
  Or.inl (congrArg some m.calls.size_eq.symm)

/-- The rows behind the definition that an immediate call enters: the body, and no others. -/
theorem pendingBehind_enterNow (m : Machine) (definition : Nat) :
    (m.enterNow definition).pendingBehind = m.program.body definition := by
  have htarget : (m.enterNow definition).returnDepth = some m.calls.items.length :=
    congrArg some m.calls.size_eq.symm
  change m.program.blockFrom (definition + 1) ++ (if _ then _ else _) = _
  rw [if_pos htarget, List.append_nil]
  rfl

/-- A machine that has performed a statement may move on: its calls are nested, and it is at a line
of a function if there are any. -/
theorem nested_of_perform (hp : m.program.IndexesDefinitions) (hm : m.Ready) {m' : Machine}
    {statement : Statement} {events : List Event}
    (h : m.perform opts statement = .ok (m', events)) :
    m'.program.Nested m'.returnDepth m'.calls.items ∧
      (m'.calls.items ≠ [] → m'.program.lines[m'.pc]?.any Line.isSkipped = true) := by
  obtain ⟨s, -, rfl⟩ | ⟨definition, ha, rfl⟩ := action_of_perform h
  · exact ⟨hm.nested, fun hne => Program.any_isSkipped_of_isIndented (hm.indented hne)⟩
  · obtain ⟨function, -, hindex⟩ := Statement.action_eq_enter ha
    exact ⟨nested_enter hm definition,
      fun _ => Program.any_isSkipped_of_isDefinition (hp function definition hindex)⟩

/-- **A cycle performs the first pending row.** -/
theorem cycle_spec (opts : Options) (hp : m.program.IndexesDefinitions) (hm : m.Ready) :
    Follows (Resumes m.program) opts m.program m.store (m.cycle opts) m.pending := by
  obtain ⟨⟨hready, hpending, hstore, hprogram⟩, hdef⟩ := skipDefinitions_spec hm
  refine cycle_follows hp (fun hline => ?_) fun line hline => ?_
  · rw [← hprogram] at hline
    rw [← hpending, pending_of_none hready hline]
  · rw [hprogram, hline] at hdef
    have hskipped := fun hne => Program.any_isSkipped_of_isIndented (hready.indented hne)
    generalize m.skipDefinitions.1 = m' at hready hpending hstore hprogram hdef hline hskipped ⊢
    rw [← hprogram] at hline ⊢
    rw [← hpending, ← hstore]
    refine ⟨m'.pendingBehind, pending_of_some hready hline hdef, fun s events => ?_,
      fun definition events hd => ?_⟩
    · exact continues_movedOn (m := { m' with store := s }) hready.nested hskipped events
    · -- control moves on from the definition, which is a line of a function like any other
      rw [← pendingBehind_enter hready]
      exact continues_movedOn (m := m'.enter definition) (nested_enter hready definition)
        (fun _ => Program.any_isSkipped_of_isDefinition hd) events

/-- **A step within the limit performs the first pending row.** -/
theorem step_follows {p : Program} {s : Store} {rows : List Row} (hspent : m.isSpent opts = false)
    (hp : p.IndexesDefinitions) (hm : Resumes p s rows m) :
    Follows (Resumes p) opts p s (m.step opts) rows := by
  obtain ⟨hready, rfl, rfl, rfl⟩ := hm
  refine step_of_cycle hspent ?_ (cycle_spec opts hp hready)
  rintro s rows m ⟨hready, hpending, hstore, hprogram⟩
  exact ⟨⟨hready.nested, hready.indented⟩, hpending, hstore, hprogram⟩

/-- A step without a limit performs the first pending row. -/
theorem step_spec {p : Program} {s : Store} {rows : List Row} (hlimit : opts.stepLimit = 0)
    (hp : p.IndexesDefinitions) (hm : Resumes p s rows m) :
    Follows (Resumes p) opts p s (m.step opts) rows :=
  step_follows (by simp [isSpent, hlimit]) hp hm

/-- **Without a limit, steps keep the pending rows.** -/
theorem simulates_resumes {p : Program} (hlimit : opts.stepLimit = 0)
    (hp : p.IndexesDefinitions) : Simulates opts p (Resumes p) :=
  ⟨step_spec hlimit hp⟩

/-! ## A run -/

/-- With control at the first line and no call pending, the rows of the whole walk are pending. -/
theorem resumes_of_idle (hpc : m.pc = 0) (hcalls : m.calls = .empty) :
    Resumes m.program m.store (mainRows m.program.rows)
      { m with steps := 0, returnDepth := none } := by
  refine ⟨⟨?_, ?_⟩, ?_, rfl, rfl⟩
  · rw [hcalls]
    rfl
  · intro hne
    exact absurd (congrArg Stack.items hcalls) hne
  · simp only [pending, hpc, hcalls]
    rfl

theorem answers_run_iff {r : Reply Machine Unit} :
    m.Answers opts ModeCommand.run.wording r ↔
      ∃ fuel r', loop opts fuel { m with steps := 0, returnDepth := none } = some r' ∧
        r'.after [.note (.runStarted m.program.size m.program.functions.size)] = r := by
  simp only [Answers, submit_run, run, Option.map_eq_some_iff]

/-- **A run is a walk down the table.** -/
theorem answers_run_iff_walks (hlimit : opts.stepLimit = 0) (hp : m.program.IndexesDefinitions)
    (hpc : m.pc = 0) (hcalls : m.calls = .empty) (out : Text) (result : Except Failure Unit) :
    (∃ r, m.Answers opts ModeCommand.run.wording r ∧ Event.outputOf r.events = out ∧
        r.result = result) ↔
      ∃ e, m.program.Walks opts m.store out e ∧ result = e.result := by
  refine Iff.trans ?_ ((simulates_resumes hlimit hp).loopsTo_iff (resumes_of_idle hpc hcalls))
  constructor
  · rintro ⟨r, hr, hout, hresult⟩
    obtain ⟨fuel, r', hr', rfl⟩ := answers_run_iff.mp hr
    exact ⟨fuel, r', hr', by simpa using hout, hresult⟩
  · rintro ⟨fuel, r', hr', hout, hresult⟩
    exact ⟨_, answers_run_iff.mpr ⟨fuel, r', hr', rfl⟩, by simpa using hout, hresult⟩

/-- **Running a program refines structured execution.** From rest, with any variables and without
a step limit, a run succeeds with some output exactly if the walk down the table is completed
with it; it fails at a line exactly if the statement on this line is the first one at fault in
the walk; and it has no answer exactly if the walk has no ending. An answer is unique. -/
theorem run_refines_walk {redefine : Bool} (hp : m.program.Loaded redefine)
    (hlimit : opts.stepLimit = 0) (hpc : m.pc = 0) (hcalls : m.calls = .empty) :
    (∀ out, (∃ r, m.Answers opts ModeCommand.run.wording r ∧ Event.outputOf r.events = out ∧
        r.result = .ok ()) ↔ ∃ s, m.program.Walks opts m.store out (.done s)) ∧
    (∀ out failure, (∃ r, m.Answers opts ModeCommand.run.wording r ∧
        Event.outputOf r.events = out ∧ r.result = .error failure) ↔
      ∃ row fault, failure = .atLine row.index row.text (.fault fault) ∧
        m.program.Walks opts m.store out (.failed row fault)) ∧
    ((∀ r, ¬ m.Answers opts ModeCommand.run.wording r) ↔
      ∀ out e, ¬ m.program.Walks opts m.store out e) ∧
    ∀ r r', m.Answers opts ModeCommand.run.wording r →
      m.Answers opts ModeCommand.run.wording r' → r = r' := by
  have hrun := answers_run_iff_walks hlimit hp.indexesDefinitions hpc hcalls
  refine ⟨fun out => ?_, fun out failure => ?_, ?_, fun r r' => Answers.unique⟩
  · rw [hrun]
    constructor
    · rintro ⟨_ | _, he, hresult⟩
      · exact ⟨_, he⟩
      · cases hresult
    · rintro ⟨s, he⟩
      exact ⟨.done s, he, rfl⟩
  · rw [hrun]
    constructor
    · rintro ⟨_ | ⟨row, fault⟩, he, hresult⟩
      · cases hresult
      · exact ⟨row, fault, Except.error.inj hresult, he⟩
    · rintro ⟨row, fault, rfl, he⟩
      exact ⟨.failed row fault, he, rfl⟩
  · -- every ending has a result, so an ending of the walk is an answer of the run
    constructor
    · intro hno out e he
      obtain ⟨r, hr, -⟩ := (hrun out e.result).mpr ⟨e, he, rfl⟩
      exact hno r hr
    · intro hno r hr
      obtain ⟨e, he, -⟩ := (hrun _ _).mp ⟨r, hr, rfl, rfl⟩
      exact hno _ e he

/-- Lines of which one body ends in a call, and the last statement takes off too much. -/
def tailCallLines : List Text :=
  [utf8 "def f", utf8 " call g", utf8 "def g", utf8 " print a", utf8 "set a 5", utf8 "call f",
    utf8 "sub a 7"]

theorem walks_tailCallLines :
    ∃ p, Program.empty.load false tailCallLines = .ok p ∧
      p.Walks {} .empty (utf8 "5\n")
        (.failed ⟨6, utf8 "sub a 7"⟩ (.underflow (utf8 "a") 5 7)) := by
  obtain ⟨p, hp, r, hr, hout, hresult⟩ : ∃ p, Program.empty.load false tailCallLines = .ok p ∧
      ∃ r, { Machine.initial with program := p }.submit {} 9 ModeCommand.run.wording = some r ∧
        Event.outputOf r.events = utf8 "5\n" ∧ r.result =
          .error (.atLine 6 (utf8 "sub a 7") (.fault (.underflow (utf8 "a") 5 7))) :=
    ⟨_, rfl, _, rfl, rfl, rfl⟩
  obtain ⟨-, hfails, -⟩ := @run_refines_walk {} { Machine.initial with program := p } false
    (.load .empty hp) rfl rfl rfl
  obtain ⟨⟨index, text⟩, fault, hfailure, hwalks⟩ :=
    (hfails _ _).mp ⟨r, ⟨9, hr⟩, hout, hresult⟩
  injection hfailure with hindex htext hcause
  injection hcause with hfault
  obtain rfl : 6 = index := Int.ofNat.inj hindex
  subst htext hfault
  exact ⟨p, hp, hwalks⟩

end Machine

end LineScript

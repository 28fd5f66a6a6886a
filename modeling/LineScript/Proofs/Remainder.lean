import LineScript.Proofs.Simulation

/-!
# What is left from any position

Single steps can be broken off anywhere, and a call from outside or a new block of lines may come
before the next run. Then control and the pending calls need not fit together any more: calls may be
pending while control is outside every function, even at the first line. What a run does from there
is still determined by rows. It walks down the table, and where an indented row is not followed by
another one it takes this for the end of a body: it gives up the innermost call and goes on behind
it. Where the table ends it returns as well, unless control has come there by passing over
definitions, which ends execution whatever is pending.

## Main definitions

* `stretch`: a walk down the table that returns at the end of a body
* `Program.remainder`: the rows that are left from any position, with any calls pending
* `Machine.Awaits`: these rows are left to a machine that waits for no call

## Main results

* `Program.afterReturns_body`: behind a definition, the body is left and then what the call leaves
* `Machine.unwind_remainder`: returning from calls is accounted for
* `Machine.simulates_awaits`: a step performs the first row that is left
-/

namespace LineScript

/-! ## Rows up to a return -/

/-- Control returns behind the row: it is the last one, or it is indented and the next one is
not. -/
def endsBody (row : Row) (rows : List Row) : Bool :=
  rows.head?.all fun next => row.isIndented && !next.isIndented

/-- The rows that a walk down the table performs up to a return, and then the rows `rest`. Behind
definitions at the end of the table there is no return. -/
def stretch (rest : List Row) : List Row → List Row
  | [] => []
  | row :: rows =>
    if row.isDefinition then stretch rest (rows.dropWhile Row.isSkipped)
    else row :: if endsBody row rows then rest else stretch rest rows
termination_by rows => rows.length
decreasing_by
  · exact Nat.lt_succ_of_le (List.dropWhile_sublist _).length_le
  · exact Nat.lt_succ_self _

theorem stretch_of_isDefinition {row : Row} (hd : row.isDefinition = true) (rest rows : List Row) :
    stretch rest (row :: rows) = stretch rest (rows.dropWhile Row.isSkipped) := by
  rw [stretch, if_pos hd]

theorem stretch_of_not_isDefinition {row : Row} (hd : row.isDefinition = false)
    (rest rows : List Row) :
    stretch rest (row :: rows) =
      row :: if endsBody row rows then rest else stretch rest rows := by
  rw [stretch, if_neg (Bool.eq_false_iff.mp hd)]

theorem Row.isDefinition_eq_false_of_isIndented {row : Row} (h : row.isIndented = true) :
    row.isDefinition = false := by
  have hline : Line.isIndented row.text = true := h
  simp [isDefinition, Line.isDefinition, hline]

/-- **Inside a body, the walk is the rest of the body.** -/
theorem stretch_of_isIndented {row : Row} (hrow : row.isIndented = true) (rest rows : List Row) :
    stretch rest (row :: rows) = (row :: rows).takeWhile Row.isIndented ++ rest := by
  -- the first row is kept apart: that it is indented is what lets control return behind it
  induction rows generalizing row with
  | nil =>
    rw [stretch_of_not_isDefinition (Row.isDefinition_eq_false_of_isIndented hrow),
      List.takeWhile_cons_of_pos hrow]
    rfl
  | cons next rows ih =>
    rw [stretch_of_not_isDefinition (Row.isDefinition_eq_false_of_isIndented hrow),
      List.takeWhile_cons_of_pos hrow]
    cases hnext : next.isIndented with
    | true =>
      rw [if_neg (by simp [endsBody, hnext]), ih hnext]
      rfl
    | false =>
      rw [if_pos (by simp [endsBody, hrow, hnext]), List.takeWhile_cons_of_neg (by simp [hnext])]
      rfl

namespace Program

variable {p : Program} {i : Nat} {line : Text} {calls : List Nat}

/-- The rows that are left when control has come to `pc` from the line before, with these calls
pending from the innermost on: returns may be due. -/
def afterReturns (p : Program) : (pc : Nat) → (calls : List Nat) → List Row
  | pc, [] => mainRows (p.rows.drop pc)
  | pc, call :: calls =>
    if p.leavesBlock pc then p.afterReturns (call + 1) calls
    else stretch (p.afterReturns (call + 1) calls) (p.rows.drop pc)

/-- **The rows that are left** when execution begins or goes on at `pc`, with these calls pending
from the innermost on. -/
def remainder (p : Program) (pc : Nat) : (calls : List Nat) → List Row
  | [] => mainRows (p.rows.drop pc)
  | call :: calls => stretch (p.afterReturns (call + 1) calls) (p.rows.drop pc)

theorem remainder_of_none (h : p.lines[i]? = none) (calls : List Nat) :
    p.remainder i calls = [] := by
  cases calls with
  | nil => rw [remainder, drop_rows_of_eq_none h, mainRows]
  | cons call calls => rw [remainder, drop_rows_of_eq_none h, stretch]

/-- A body ends behind a line that defines nothing exactly if control returns there. -/
theorem leavesBlock_succ (h : p.lines[i]? = some line) (hd : Line.isDefinition line = false) :
    p.leavesBlock (i + 1) = endsBody ⟨i, line⟩ (p.rows.drop (i + 1)) := by
  rw [leavesBlock, Nat.add_sub_cancel, h]
  cases hnext : p.lines[i + 1]? with
  | none =>
    rw [drop_rows_of_eq_none hnext]
    rfl
  | some next =>
    rw [drop_rows_of_eq_some hnext]
    simp [endsBody, Line.isSkipped, Row.isIndented, hd]

/-- At a line that defines no function, control is at the first row that is left. -/
theorem remainder_of_some (h : p.lines[i]? = some line) (hd : Line.isDefinition line = false)
    (calls : List Nat) :
    p.remainder i calls = ⟨i, line⟩ :: p.afterReturns (i + 1) calls := by
  have hrow : Row.isDefinition ⟨i, line⟩ = false := hd
  cases calls with
  | nil => rw [remainder, afterReturns, drop_rows_of_eq_some h, mainRows, if_neg (by simp [hrow])]
  | cons call calls =>
    rw [remainder, afterReturns, drop_rows_of_eq_some h, stretch_of_not_isDefinition hrow,
      leavesBlock_succ h hd]

/-- Passing over definitions leaves the same rows. -/
theorem remainder_afterDefinitions (h : p.lines[i]? = some line)
    (hd : Line.isDefinition line = true) (calls : List Nat) :
    p.remainder (p.afterDefinitions i) calls = p.remainder i calls := by
  cases calls with
  | nil => exact mainRows_afterDefinitions h hd
  | cons call calls =>
    have hrow : Row.isDefinition ⟨i, line⟩ = true := hd
    have hskip : Row.isSkipped ⟨i, line⟩ = true := by simp [Row.isSkipped, hrow]
    rw [remainder, remainder, drop_afterDefinitions, drop_rows_of_eq_some h,
      List.dropWhile_cons_of_pos hskip, stretch_of_isDefinition hrow]

/-- **Behind a definition, the body is left and then what the call leaves.** -/
theorem afterReturns_body {definition : Nat}
    (hd : p.lines[definition]?.any Line.isDefinition = true) (call : Nat) (calls : List Nat) :
    p.afterReturns (definition + 1) (call :: calls) =
      p.body definition ++ p.afterReturns (call + 1) calls := by
  rw [afterReturns, body]
  split
  · next hleave => rw [blockFrom_of_leavesBlock hleave, List.nil_append]
  · next hstay =>
    -- a definition is a line of a function, so the body goes on only with an indented line
    obtain ⟨line, hline, hindented⟩ := exists_line_of_any
      (indented_of_not_leavesBlock (Bool.eq_false_iff.mpr hstay) (any_isSkipped_of_isDefinition hd))
    have hrow : Row.isIndented ⟨definition + 1, line⟩ = true := hindented
    rw [blockFrom, drop_rows_of_eq_some hline, stretch_of_isIndented hrow]

end Program

namespace Machine

variable {opts : Options} {m : Machine}

/-! ## Steps -/

/-- **Returning from calls is accounted for.** -/
theorem unwind_remainder (p : Program) (pc : Nat) (calls : Stack Nat) :
    p.remainder (unwind p none pc calls).pc (unwind p none pc calls).calls.items =
      p.afterReturns pc calls.items := by
  -- both give up one call at a time, and ask the same question before they do
  induction calls using Stack.push_induction generalizing pc with
  | empty => rfl
  | push calls call ih =>
    rw [unwind_push, Stack.items_push, Program.afterReturns]
    split
    · rw [if_neg (by simp)]
      exact ih (call + 1)
    · rfl

/-- The rows that are left to a machine. -/
def remainder (m : Machine) : List Row := m.program.remainder m.pc m.calls.items

/-- These rows are left to a machine that waits for no call, with these variables. -/
structure Awaits (p : Program) (s : Store) (rows : List Row) (m : Machine) : Prop where
  target_eq : m.returnDepth = none
  remainder_eq : m.remainder = rows
  store_eq : m.store = s
  program_eq : m.program = p

/-- Moving on leaves what the returns leave. -/
theorem awaits_movedOn (hm : m.returnDepth = none) (events : List Event) :
    Continues (Awaits m.program) m.store (m.program.afterReturns (m.pc + 1) m.calls.items)
      (m.movedOn events) := by
  have hlands := unwind_landsWithin m.program none m.calls (Nat.succ_pos m.pc)
  have hrows := unwind_remainder m.program (m.pc + 1) m.calls
  unfold Continues movedOn halts advance
  rw [hm]
  generalize unwind m.program none (m.pc + 1) m.calls = landing at hlands hrows
  -- no call is waited for, so only the end of the table ends execution
  have harrived : landing.arrived = false :=
    Bool.eq_false_iff.mpr fun ha => by cases hlands.target_eq ha
  rw [← hrows]
  dsimp only
  rw [if_neg (by simp [harrived])]
  split
  · next hend =>
    exact Or.inl ⟨rfl, Program.remainder_of_none (Array.getElem?_eq_none hend) _⟩
  · exact Or.inr ⟨by simp [Nat.ne_of_gt hlands.pos], rfl, rfl, rfl, rfl⟩

/-- Passing over definitions leaves the same rows, and control at no definition. -/
theorem remainder_skipDefinitions (m : Machine) :
    m.skipDefinitions.1.remainder = m.remainder ∧
      m.program.lines[m.skipDefinitions.1.pc]?.any Line.isDefinition = false := by
  unfold skipDefinitions
  split
  · next hdef =>
    obtain ⟨line, hline, hd⟩ := Program.exists_line_of_any hdef
    exact ⟨Program.remainder_afterDefinitions hline hd _,
      m.program.not_isDefinition_afterDefinitions m.pc⟩
  · next hdef => exact ⟨rfl, Bool.eq_false_iff.mpr hdef⟩

/-- **A cycle performs the first row that is left.** -/
theorem cycle_remainder (opts : Options) (hp : m.program.IndexesDefinitions)
    (hm : m.returnDepth = none) :
    Follows (Awaits m.program) opts m.program m.store (m.cycle opts) m.remainder := by
  obtain ⟨hrows, hdef⟩ := m.remainder_skipDefinitions
  obtain ⟨pc, hskip⟩ := m.skipDefinitions_eq
  rw [← hrows]
  refine cycle_follows hp (fun hline => ?_) fun line hline => ?_
  · rw [hskip] at hline ⊢
    exact Program.remainder_of_none hline _
  · rw [hline] at hdef
    rw [hskip] at hline ⊢
    refine ⟨m.program.afterReturns (pc + 1) m.calls.items,
      Program.remainder_of_some hline hdef _, fun s events => ?_, fun definition events hd => ?_⟩
    · exact awaits_movedOn (m := { m with pc := pc, store := s }) hm events
    · -- the call itself is the innermost one when control moves on from the definition
      rw [← Program.afterReturns_body hd pc]
      exact awaits_movedOn (m := { m with pc := pc }.enter definition) hm events

/-- **Without a limit, a step performs the first row that is left**, wherever control is and
whatever calls are pending. -/
theorem simulates_awaits {p : Program} (hlimit : opts.stepLimit = 0) (hp : p.IndexesDefinitions) :
    Simulates opts p (Awaits p) where
  follows := by
    rintro s rows m ⟨hm, rfl, rfl, rfl⟩
    refine step_of_cycle (by simp [isSpent, hlimit]) ?_ (cycle_remainder opts hp hm)
    rintro s rows m ⟨htarget, hrows, hstore, hprogram⟩
    exact ⟨htarget, hrows, hstore, hprogram⟩

end Machine

end LineScript

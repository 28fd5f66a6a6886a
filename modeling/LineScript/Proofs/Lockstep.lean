import LineScript.Proofs.Simulation
import LineScript.Proofs.Stepping
import Mathlib.Data.List.TakeWhile

/-!
# Statements inside and outside a program

Statements may follow the functions in a program and be run with it, or be submitted one at a time
to a machine that holds the functions only. While a statement is performed the two machines take
the same steps: the immediate call of a function and the call from a line of the program have the
same rows to perform, and the program has the later statements to perform behind them. Which
statement it is shows in the outermost pending call.

## Main definitions

* `Program.Followed`: functions, and the same functions followed by statements
* `Machine.AtRest`: a machine that waits for a submission
* `Machine.InCall`: two machines inside the call from a statement
* `Machine.Matches`: the answer to a statement, and the step that ends it in the program

## Main results

* `Program.Followed.mainRows_rows`: the statements are what a walk down the table performs
* `Machine.InCall.step`: inside a call both machines take the same steps
* `Machine.begins`: a statement begins alike
-/

namespace LineScript

theorem Stack.eq_empty_of_size {α : Type} {s : Stack α} (h : s.size = 0) : s = .empty :=
  Stack.ext_items (List.eq_nil_of_length_eq_zero (s.size_eq.trans h))

/-! ## Functions followed by statements -/

/-- Rows outside the functions are all performed. -/
theorem mainRows_eq_self {rows : List Row} (h : ∀ row ∈ rows, row.isSkipped = false) :
    mainRows rows = rows := by
  induction rows with
  | nil => rw [mainRows]
  | cons row rows ih =>
    obtain ⟨hrow, hrows⟩ := List.forall_mem_cons.mp h
    have hdef : ¬ row.isDefinition = true := by
      rw [(Bool.or_eq_false_iff.mp hrow).2]
      exact Bool.false_ne_true
    rw [mainRows, if_neg hdef, ih hrows]

namespace Program

theorem length_rows (p : Program) : p.rows.length = p.size := by
  simp [rows, size]

/-- The program `p` holds functions only, and `p'` is `p` followed by statements. -/
structure Followed (p p' : Program) (statements : List Text) : Prop where
  indexed : p.IndexesDefinitions
  lines_eq : p'.lines.toList = p.lines.toList ++ statements
  functions_eq : p'.functions = p.functions
  /-- The lines of `p` are those of functions, -/
  skipped : ∀ line ∈ p.lines.toList, Line.isSkipped line = true
  /-- and the first one opens a definition. -/
  opened : ∀ line, p.lines.toList.head? = some line → Line.isDefinition line = true
  /-- The statements are no lines of functions, and may be submitted as statements. -/
  outside : ∀ text ∈ statements, Line.isSkipped text = false
  statement : ∀ text ∈ statements, text ≠ [] ∧ ModeCommand.ofText? text = none

namespace Followed

variable {p p' : Program} {statements : List Text} {i : Nat} {text : Text}

theorem getElem?_size_add (h : p.Followed p' statements) (i : Nat) :
    p'.lines[p.size + i]? = statements[i]? := by
  have hsize : p.lines.toList.length = p.size := Array.length_toList
  rw [← Array.getElem?_toList, h.lines_eq, List.getElem?_append_right (by omega)]
  congr 1
  omega

theorem getElem?_of_some {line : Text} (h : p.Followed p' statements)
    (hline : p.lines[i]? = some line) : p'.lines[i]? = some line := by
  rw [← Array.getElem?_toList] at hline ⊢
  rw [h.lines_eq, List.getElem?_append_left (List.getElem?_eq_some_iff.mp hline).1, hline]

theorem indexed' (h : p.Followed p' statements) : p'.IndexesDefinitions := by
  intro name i hi
  rw [h.functions_eq] at hi
  obtain ⟨line, hline, hd⟩ := exists_line_of_any (h.indexed name i hi)
  rw [h.getElem?_of_some hline]
  exact hd

/-- The rows of the statements come behind those of the functions. -/
theorem rows_eq (h : p.Followed p' statements) :
    p'.rows = p.rows ++ statements.mapIdx fun i => Row.mk (i + p.size) := by
  rw [rows, h.lines_eq, List.mapIdx_append, Array.length_toList]
  rfl

theorem drop_size (h : p.Followed p' statements) :
    p'.rows.drop p.size = statements.mapIdx fun i => Row.mk (i + p.size) := by
  rw [h.rows_eq, ← length_rows p, List.drop_left]

theorem isSkipped_of_mem (h : p.Followed p' statements) {row : Row}
    (hrow : row ∈ p'.rows.drop (p.size + i)) : row.isSkipped = false := by
  rw [← List.drop_drop, h.drop_size] at hrow
  obtain ⟨k, hk, rfl⟩ := List.mem_mapIdx.mp (List.mem_of_mem_drop hrow)
  exact h.outside _ (List.getElem_mem hk)

/-- Behind the functions everything is performed, -/
theorem mainRows_drop (h : p.Followed p' statements) (i : Nat) :
    mainRows (p'.rows.drop (p.size + i)) = p'.rows.drop (p.size + i) :=
  mainRows_eq_self fun _ => h.isSkipped_of_mem

theorem not_skipped_head (h : p.Followed p' statements) (hl : 0 < (p'.rows.drop p.size).length) :
    (p'.rows.drop p.size)[0].isSkipped = false :=
  h.isSkipped_of_mem (i := 0) (List.getElem_mem hl)

/-- and a walk down the table performs nothing else. -/
theorem mainRows_rows (h : p.Followed p' statements) :
    mainRows p'.rows = p'.rows.drop p.size := by
  have hrest : mainRows (p'.rows.drop p.size) = p'.rows.drop p.size := h.mainRows_drop 0
  have hrows : p'.rows = p.rows ++ p'.rows.drop p.size := by rw [h.drop_size, h.rows_eq]
  have hskipped : ∀ row ∈ p.rows, row.isSkipped = true := by
    intro row hrow
    obtain ⟨k, hk, rfl⟩ := List.mem_mapIdx.mp hrow
    exact h.skipped _ (List.getElem_mem hk)
  have hstop : (p'.rows.drop p.size).dropWhile Row.isSkipped = p'.rows.drop p.size := by
    refine List.dropWhile_eq_self_iff.mpr fun hl => ?_
    rw [h.not_skipped_head hl]
    exact Bool.false_ne_true
  cases hfirst : p.rows with
  | nil =>
    rw [hfirst, List.nil_append] at hrows
    rw [← hrows] at hrest
    rwa [← hrows]
  | cons row rows =>
    -- the first row opens a definition, so all rows up to the statements are passed over
    have hdef : row.isDefinition = true := by
      refine h.opened row.text ?_
      rw [← p.rows_map_text, hfirst]
      rfl
    rw [hfirst] at hskipped
    rw [hrows, hfirst, List.cons_append, mainRows, if_pos hdef,
      List.dropWhile_append_of_pos (List.forall_mem_cons.mp hskipped).2, hstop, hrest,
      ← List.cons_append, ← hfirst, ← hrows]

/-- The statements are no part of a body. -/
theorem body_eq (h : p.Followed p' statements) {name : Text} {definition : Nat}
    (hf : p.functions.get? name = some definition) : p'.body definition = p.body definition := by
  obtain ⟨line, hline, -⟩ := exists_line_of_any (h.indexed name definition hf)
  have hle : definition + 1 ≤ p.rows.length := by
    rw [length_rows]
    exact (Array.getElem?_eq_some_iff.mp hline).1
  have hstop : (p'.rows.drop p.size).takeWhile Row.isIndented = [] := by
    refine List.takeWhile_eq_nil_iff.mpr fun hl => ?_
    have hhead := (Bool.or_eq_false_iff.mp (h.not_skipped_head hl)).1
    rw [List.get_eq_getElem, hhead]
    exact Bool.false_ne_true
  rw [body, body, blockFrom, blockFrom, h.rows_eq, List.drop_append_of_le_length hle,
    List.takeWhile_append, ← h.drop_size, hstop, List.append_nil]
  -- a body may end with the functions, or before
  split
  · next hlen => exact (List.takeWhile_prefix _).eq_of_length hlen |>.symm
  · rfl

theorem drop_of_some (h : p.Followed p' statements) (htext : statements[i]? = some text) :
    p'.rows.drop (p.size + i) = ⟨p.size + i, text⟩ :: p'.rows.drop (p.size + (i + 1)) :=
  drop_rows_of_eq_some (by rw [h.getElem?_size_add, htext])

theorem drop_eq_nil_iff (h : p.Followed p' statements) :
    p'.rows.drop (p.size + i) = [] ↔ statements.length ≤ i := by
  rw [← List.drop_drop, h.drop_size, List.drop_eq_nil_iff, List.length_mapIdx]

/-- Statements mean the same in both programs. -/
theorem action_eq (h : p.Followed p' statements) (opts : Options) (s : Store) (row : Row) :
    row.action opts p' s = row.action opts p s := by
  rw [Row.action, h.functions_eq, Row.action]

end Followed

/-- Functions that can be loaded can be loaded with statements behind them. -/
theorem followed_of_load {redefine : Bool} {p : Program} {functions statements : List Text}
    (hp : empty.load redefine functions = .ok p)
    (hskipped : ∀ line ∈ functions, Line.isSkipped line = true)
    (hopened : ∀ line, functions.head? = some line → Line.isDefinition line = true)
    (houtside : ∀ text ∈ statements, Line.isSkipped text = false)
    (hstatement : ∀ text ∈ statements, text ≠ [] ∧ ModeCommand.ofText? text = none) :
    p.lines.toList = functions ∧
      ∃ p', empty.load redefine (functions ++ statements) = .ok p' ∧ p.Followed p' statements := by
  have hindexed := (Loaded.load .empty hp).indexesDefinitions
  obtain ⟨found, hfound, rfl⟩ := load_eq_ok hp
  have hdefs : ∀ text ∈ statements, Line.isDefinition text = false :=
    fun text htext => (Bool.or_eq_false_iff.mp (houtside text htext)).2
  have hfound' : empty.definitionsOf redefine (functions ++ statements) = .ok found :=
    definitions_append hdefs hfound
  have hlines : ∀ block : List Text, (empty.append block found).lines.toList = block := by
    intro block
    simp [append, empty]
  refine ⟨hlines functions, empty.append (functions ++ statements) found, ?_, hindexed, ?_, rfl, ?_,
    ?_, houtside, hstatement⟩
  · rw [load, hfound']
    rfl
  · rw [hlines, hlines]
  · rwa [hlines]
  · rwa [hlines]

end Program

/-- The variables that an action leaves. -/
def Action.leaves (s : Store) : Action → Store
  | .update s' _ => s'
  | _ => s

/-! ## Steps, seen from the outermost line -/

namespace Machine

variable {opts : Options} {m : Machine}

/-- A statement is performed for the sake of the same line outside the calls. -/
theorem outerLine_of_perform {m' : Machine} {statement : Statement} {events : List Event}
    (h : m.perform opts statement = .ok (m', events)) : m'.outerLine = m.outerLine := by
  rcases perform_eq_ok h with ⟨_, rfl⟩ | ⟨_, rfl⟩
  · rfl
  · simp [outerLine, enter, List.getLast?_cons]

/-- A step that does not end execution stays inside the outermost call, or is behind the line. -/
theorem outerLine_of_running (h : (m.step opts).result = .ok false) :
    (m.step opts).state.calls.items.getLast? = some m.skipDefinitions.1.outerLine ∨
      (m.step opts).state.calls.items = [] ∧
        (m.step opts).state.pc = m.skipDefinitions.1.outerLine + 1 := by
  have hpasses := passes_of_running h
  generalize (m.step opts).state = next at hpasses
  cases hpasses with
  | @intro m' line events pc calls hline hperform hrunning hmachine hcalls houter =>
    rw [← outerLine_of_perform hperform]
    by_cases hnil : calls.items = []
    · exact Or.inr ⟨hnil, houter hnil⟩
    · -- the calls that are left are the outermost ones
      obtain ⟨inner, hinner⟩ := hcalls
      obtain ⟨call, hcall⟩ : ∃ call, calls.items.getLast? = some call :=
        ⟨_, List.getLast?_eq_some_getLast hnil⟩
      have hlast : m'.calls.items.getLast? = some call := by
        rw [← hinner, List.getLast?_append, hcall]
        rfl
      rw [outerLine, hlast]
      exact Or.inl hcall

/-- A step without a limit fails at the line that control is at. -/
theorem step_error (hlimit : opts.stepLimit = 0) {failure : Failure}
    (h : (m.step opts).result = .error failure) :
    ∃ line fault, m.program.lines[m.skipDefinitions.1.pc]? = some line ∧
      failure = .atLine m.skipDefinitions.1.pc line (.fault fault) ∧
      (m.step opts).state.outerLine = m.skipDefinitions.1.outerLine := by
  obtain ⟨hspent, -⟩ | ⟨line, fault, hline, hfailure, hstate⟩ := step_error_cases h
  · simp [isSpent, hlimit] at hspent
  · rw [hstate]
    exact ⟨line, fault, hline, hfailure, rfl⟩

/-! ## Immediate calls -/

/-- Inside a call, control is at an indented line, whose row is to be performed next. -/
theorem pending_of_calls (hm : m.Ready) (hne : m.calls.items ≠ []) :
    ∃ line, Line.isIndented line = true ∧ m.pending = ⟨m.pc, line⟩ :: m.pendingBehind := by
  obtain ⟨line, hline, hindented⟩ := Program.exists_line_of_any (hm.indented hne)
  have hdef : Line.isDefinition line = false := by simp [Line.isDefinition, hindented]
  exact ⟨line, hindented, pending_of_some hm hline hdef⟩

/-- A machine that waits for a call to return has rows to perform. -/
theorem Ready.pending_ne_nil {n : Nat} (hm : m.Ready) (hwait : m.returnDepth = some n) :
    m.pending ≠ [] := by
  have hnested := hm.nested
  rw [hwait] at hnested
  obtain ⟨line, -, hpending⟩ := pending_of_calls hm hnested.ne_nil
  rw [hpending]
  exact List.cons_ne_nil _ _

theorem Resumes.ne_nil {p : Program} {s : Store} {rows : List Row} {n : Nat}
    (hm : Resumes p s rows m) (hwait : m.returnDepth = some n) : rows ≠ [] := by
  rw [← hm.pending_eq]
  exact hm.ready.pending_ne_nil hwait

/-- An immediate call is over when it has returned, and not before. -/
theorem advance_of_waiting {n : Nat} (hn : m.program.Nested m.returnDepth m.calls.items)
    (hline : m.calls.items ≠ [] → m.program.lines[m.pc]?.any Line.isSkipped = true)
    (hwait : m.returnDepth = some n) (h : m.advance.halted = true) :
    ∃ pc calls, m.advance.machine = { m with pc := pc, calls := calls } ∧ calls.size = n := by
  have hlands := unwind_spec m.program m.returnDepth m.calls (Nat.succ_pos m.pc) hline hn
  have hwithin := unwind_landsWithin m.program m.returnDepth m.calls (Nat.succ_pos m.pc)
  unfold advance at h ⊢
  generalize unwind m.program m.returnDepth (m.pc + 1) m.calls = landing at h hlands hwithin
  dsimp only at h ⊢
  split
  · next ha =>
    exact ⟨_, _, rfl, Option.some.inj ((hwithin.target_eq ha).symm.trans hwait)⟩
  · next ha =>
    rw [if_neg ha] at h
    split at h
    · next hend =>
      -- the call is still pending, so control is inside a body and not behind the table
      have hnested := hlands.nested (Bool.eq_false_iff.mpr ha)
      rw [hwait] at hnested
      obtain ⟨line, hat, -⟩ :=
        Program.exists_line_of_any (hlands.indented (Bool.eq_false_iff.mpr ha) hnested.ne_nil)
      rw [Array.getElem?_eq_none hend] at hat
      cases hat
    · cases h

/-- **The last step of an immediate call** performs a statement and returns; the variables are
those that the statement leaves. -/
theorem step_of_waiting {n : Nat} (hp : m.program.IndexesDefinitions) (hm : m.Ready)
    (hwait : m.returnDepth = some n) (h : (m.step opts).result = .ok true) :
    (m.step opts).state.calls.size = n ∧
      ∃ line m' events, m.program.lines[m.skipDefinitions.1.pc]? = some line ∧
        m.skipDefinitions.1.perform opts (Statement.ofLine line) = .ok (m', events) ∧
        (m.step opts).state.store = m'.store := by
  obtain ⟨hresumes, -⟩ := skipDefinitions_spec hm
  obtain ⟨pc, hskip⟩ := m.skipDefinitions_eq
  obtain ⟨-, hspent⟩ | ⟨r, hcycle, hresult, hstate⟩ := m.step_cases opts
  · rw [hspent] at h
    cases h
  · rw [hresult] at h
    rw [hstate]
    cases hcycle with
    | failed => cases h
    | finished hnone =>
      -- a machine that waits has a line to perform
      have hready := hresumes.ready
      rw [hskip] at hready hnone
      exact absurd (pending_of_none hready hnone) (hready.pending_ne_nil hwait)
    | @performed line m' events hline hperform =>
      -- the end of the table would lose the variables, but it is not reached before the return
      have hperform' := hperform
      have hready := hresumes.ready
      rw [hskip] at hperform' hready
      obtain ⟨hnested, hskipped⟩ := nested_of_perform (m := { m with pc := pc }) hp hready hperform'
      have hwait' : m'.returnDepth = some n := (perform_returnDepth hperform').trans hwait
      have hhalted : m'.advance.halted = true := by
        obtain ⟨hhalted, -⟩ | ⟨hrunning, hpc, -⟩ := advance_spec hnested hskipped
        · exact hhalted
        · simp [hrunning, hpc] at h
      obtain ⟨pc', calls, hmachine, hsize⟩ := advance_of_waiting hnested hskipped hwait' hhalted
      rw [hmachine]
      exact ⟨hsize, line, m', events, hline, hperform, rfl⟩

theorem store_of_perform {m' : Machine} {statement : Statement} {events : List Event}
    (h : m.perform opts statement = .ok (m', events)) :
    m'.store = (statement.action opts m.program.functions m.store).leaves m.store := by
  obtain ⟨s, ha, rfl⟩ | ⟨definition, ha, rfl⟩ := action_of_perform h
  · rw [ha]
    rfl
  · rw [ha]
    rfl

/-- When an immediate call is over, it has returned as far as it was to, and no variable is lost. -/
theorem Resumes.returned {p : Program} {s : Store} {row : Row} {rows : List Row} {n : Nat}
    (hp : p.IndexesDefinitions) (hm : Resumes p s (row :: rows) m) (hwait : m.returnDepth = some n)
    (h : (m.step opts).result = .ok true) :
    (m.step opts).state.calls.size = n ∧
      (m.step opts).state.store = (row.action opts p s).leaves s := by
  obtain ⟨hready, hpending, rfl, rfl⟩ := hm
  obtain ⟨hsize, line, m', events, hline, hperform, hstore⟩ := step_of_waiting hp hready hwait h
  refine ⟨hsize, ?_⟩
  obtain ⟨⟨hready', hpending', hstore', hprogram'⟩, hdef⟩ := skipDefinitions_spec hready
  rw [hprogram', hline] at hdef
  -- the statement that was performed is that of the first pending row
  have hrow : row = ⟨m.skipDefinitions.1.pc, line⟩ := by
    rw [← hprogram'] at hline
    rw [← hpending', pending_of_some hready' hline hdef] at hpending
    exact (List.cons.inj hpending).1.symm
  rw [hstore, store_of_perform hperform, hprogram', hstore', hrow]
  rfl

end Machine

/-! ## Statement by statement -/

/-- A failure at a statement, reported with the line of the statement unless it names a line. -/
def Failure.locatedAt (line : Nat) (text : Text) : Failure → Failure
  | .fault cause => .atLine line text (.fault cause)
  | failure => failure

/-- A failure of a statement that was submitted: its own, or that of a line of a called body. -/
def Program.Raises (p : Program) (failure : Failure) : Prop :=
  (∃ fault, failure = .fault fault) ∨
    ∃ (line : Nat) (text : Text) (fault : Fault), p.lines[line]? = some text ∧
      Line.isIndented text = true ∧ failure = .atLine line text (.fault fault)

namespace Machine

variable {p p' : Program} {statements : List Text} {i : Nat} {s : Store} {rows : List Row}

/-- A machine that holds the functions and waits for a submission. -/
structure AtRest (p : Program) (s : Store) (m : Machine) : Prop where
  program_eq : m.program = p
  store_eq : m.store = s
  calls_eq : m.calls = .empty
  pc_eq : m.pc = 0
  loading_eq : m.loading = false

/-- Two machines inside the call from the statement at `i`: one performs the rows of an immediate
call, the other one the same rows and then the later statements. -/
structure InCall (p p' : Program) (i : Nat) (s : Store) (rows : List Row) (m b : Machine) :
    Prop where
  resumes : Resumes p s rows m
  waits : m.returnDepth = some 0
  loading_eq : m.loading = false
  resumes' : Resumes p' s (rows ++ p'.rows.drop (p.size + (i + 1))) b
  outer : b.calls.items.getLast? = some (p.size + i)

/-- The answer to the statement at `i` and the reply of the step that ends it in the program: both
succeed and leave the same variables, or both fail. -/
inductive Matches (p p' : Program) (statements : List Text) (i : Nat) (r : Reply Machine Unit)
    (r' : Reply Machine Bool) : Prop
  /-- The statement is performed, and the later ones are to come. -/
  | passed {s : Store} (hout : Event.outputOf r'.events = Event.outputOf r.events)
      (hr : r.result = .ok ()) (hrest : AtRest p s r.state)
      (hr' : Continues (Resumes p') s (p'.rows.drop (p.size + (i + 1))) r')
  /-- The statement fails. In the program, its own fault is named with its line. -/
  | failed {text : Text} {cause : Failure}
      (hout : Event.outputOf r'.events = Event.outputOf r.events)
      (htext : statements[i]? = some text) (hr : r.result = .error cause)
      (hcause : p.Raises cause)
      (hr' : r'.result = .error (cause.locatedAt (p.size + i) text))
      (houter : r'.state.outerLine = p.size + i)

/-- The replies of two machines inside a call: both go on, or the call is over. -/
inductive StepsAlike (p p' : Program) (statements : List Text) (i : Nat)
    (r r' : Reply Machine Bool) : Prop
  | running {s : Store} {rows : List Row}
      (hout : Event.outputOf r'.events = Event.outputOf r.events) (hr : r.result = .ok false)
      (hr' : r'.result = .ok false) (h : InCall p p' i s rows r.state r'.state)
  | ended {answer : Reply Machine Unit} (hr : conclude r = some answer)
      (h : Matches p p' statements i (answer.mapState settle) r')

/-- Where the program has the later statements to perform and nothing before them, no call is
pending. -/
theorem calls_eq_nil (hp : p.Followed p' statements)
    (hb : Resumes p' s (p'.rows.drop (p.size + i)) m) : m.calls.items = [] := by
  by_contra hne
  obtain ⟨hready, hpending, -, rfl⟩ := hb
  obtain ⟨line, hindented, hrow⟩ := pending_of_calls hready hne
  rw [hrow] at hpending
  have hskipped := hp.isSkipped_of_mem (hpending ▸ List.mem_cons_self)
  rw [Row.isSkipped, show Row.isIndented ⟨m.pc, line⟩ = true from hindented] at hskipped
  cases hskipped

/-- Where the program has more to perform before the later statements, it is still inside the call
from the statement. -/
theorem getLast?_of_ne_nil (hp : p.Followed p' statements)
    (hb : Resumes p' s (rows ++ p'.rows.drop (p.size + (i + 1))) m) (hne : rows ≠ [])
    (houter : m.calls.items.getLast? = some (p.size + i) ∨
      m.calls.items = [] ∧ m.pc = p.size + i + 1) :
    m.calls.items.getLast? = some (p.size + i) := by
  refine houter.resolve_right ?_
  rintro ⟨hcalls, hpc⟩
  obtain ⟨-, hpending, -, rfl⟩ := hb
  rw [pending, hcalls, hpc, Program.pending, Nat.add_assoc, hp.mainRows_drop] at hpending
  exact hne (List.self_eq_append_left.mp hpending)

theorem outerLine_skipDefinitions {m : Machine} {line : Nat}
    (h : m.calls.items.getLast? = some line) : m.skipDefinitions.1.outerLine = line := by
  obtain ⟨pc, hskip⟩ := m.skipDefinitions_eq
  rw [hskip, outerLine, h]
  rfl

section Lockstep

variable {opts : Options} {m b : Machine} {text : Text}

/-- An immediate call fails at a line of a body. -/
theorem Resumes.raises (hlimit : opts.stepLimit = 0) (hm : Resumes p s rows m)
    (hwait : m.returnDepth = some 0) {failure : Failure}
    (h : (m.step opts).result = .error failure) : p.Raises failure := by
  obtain ⟨line, fault, hline, rfl, -⟩ := step_error hlimit h
  obtain ⟨hready, -, -, rfl⟩ := hm
  obtain ⟨⟨hready', -, -, hprogram⟩, -⟩ := skipDefinitions_spec hready
  have hcalls : m.skipDefinitions.1.calls.items ≠ [] := by
    obtain ⟨pc, hskip⟩ := m.skipDefinitions_eq
    have hnested := hready.nested
    rw [hwait] at hnested
    rw [hskip]
    exact hnested.ne_nil
  have hindented := hready'.indented hcalls
  rw [hprogram, hline] at hindented
  exact Or.inr ⟨_, line, fault, hline, hindented, rfl⟩

/-- Steps that leave the same rows to two machines inside a call leave them alike. -/
theorem InCall.of_continues (hp : p.Followed p' statements) (h : InCall p p' i s rows m b)
    {s' : Store} {rows' : List Row} (hm : Continues (Resumes p) s' rows' (m.step opts))
    (hb : Continues (Resumes p') s' (rows' ++ p'.rows.drop (p.size + (i + 1))) (b.step opts))
    (hout : Event.outputOf (b.step opts).events = Event.outputOf (m.step opts).events)
    (hreturned : (m.step opts).result = .ok true →
      (m.step opts).state.calls.size = 0 ∧ (m.step opts).state.store = s') :
    StepsAlike p p' statements i (m.step opts) (b.step opts) := by
  rcases hm with ⟨hended, rfl⟩ | ⟨hrunning, hresumes⟩
  · -- the immediate call has returned, and the program has the later statements left
    obtain ⟨hsize, hstore⟩ := hreturned hended
    have hcalls := Stack.eq_empty_of_size hsize
    have hcode := m.step_code opts
    have hprogram : (m.step opts).state.program = p :=
      (program_eq_of_code hcode).trans h.resumes.program_eq
    have hloading : (m.step opts).state.loading = false :=
      (loading_eq_of_code hcode).trans h.loading_eq
    exact .ended (conclude_of_halted hended)
      (.passed hout rfl ⟨hprogram, hstore, hcalls, rfl, hloading⟩ hb)
  · -- rows of the call are left to both, so the program is still inside it
    have hwait := (returnDepth_of_running hrunning).trans h.waits
    have hne := hresumes.ne_nil hwait
    rcases hb with ⟨-, hnil⟩ | ⟨hrunning', hresumes'⟩
    · exact absurd (List.append_eq_nil_iff.mp hnil).1 hne
    · have houter := outerLine_of_running hrunning'
      rw [outerLine_skipDefinitions h.outer] at houter
      exact .running hout hrunning hrunning' ⟨hresumes, hwait,
        (loading_eq_of_code (m.step_code opts)).trans h.loading_eq, hresumes',
        getLast?_of_ne_nil hp hresumes' hne houter⟩

/-- **Inside a call both machines take the same steps.** -/
theorem InCall.step (hp : p.Followed p' statements) (hlimit : opts.stepLimit = 0)
    (htext : statements[i]? = some text) (h : InCall p p' i s rows m b) :
    StepsAlike p p' statements i (m.step opts) (b.step opts) := by
  cases rows with
  | nil => exact absurd rfl (h.resumes.ne_nil h.waits)
  | cons row rows =>
    have hfollows := step_spec hlimit hp.indexed h.resumes
    have hfollows' : Follows (Resumes p') opts p' s (b.step opts)
        (row :: (rows ++ p'.rows.drop (p.size + (i + 1)))) :=
      step_spec hlimit hp.indexed' h.resumes'
    -- both perform the same row from the same variables
    have haction := hp.action_eq opts s row
    cases ha : row.action opts p s with
    | refuse fault =>
      obtain ⟨hresult, hout⟩ := hfollows.of_refuse ha
      obtain ⟨hresult', hout'⟩ := hfollows'.of_refuse (haction.trans ha)
      obtain ⟨_, _, -, -, houter⟩ := step_error hlimit hresult'
      refine .ended (conclude_of_error hresult) (.failed ?_ htext rfl
        (h.resumes.raises hlimit h.waits hresult) hresult' ?_)
      · simp [hout, hout']
      · rw [houter, outerLine_skipDefinitions h.outer]
    | update s' out =>
      obtain ⟨hm, hout⟩ := hfollows.of_update ha
      obtain ⟨hb, hout'⟩ := hfollows'.of_update (haction.trans ha)
      refine h.of_continues hp hm hb (hout'.trans hout.symm) fun hended => ?_
      have hreturned := h.resumes.returned hp.indexed h.waits hended
      rwa [ha] at hreturned
    | enter definition =>
      obtain ⟨hm, hout⟩ := hfollows.of_enter ha
      obtain ⟨hb, hout'⟩ := hfollows'.of_enter (haction.trans ha)
      obtain ⟨function, -, hf⟩ := Statement.action_eq_enter ha
      rw [hp.body_eq hf, ← List.append_assoc] at hb
      refine h.of_continues hp hm hb (hout'.trans hout.symm) fun hended => ?_
      have hreturned := h.resumes.returned hp.indexed h.waits hended
      rwa [ha] at hreturned

/-- A statement at fault is refused. -/
theorem submit_of_refuse {fault : Fault} (hne : text ≠ []) (hc : ModeCommand.ofText? text = none)
    (hl : m.loading = false) (ha : m.actionOf opts text = .refuse fault) (fuel : Nat) :
    m.submit opts fuel text = some (.fail m (.fault fault)) := by
  rw [submit_eq_performNow hne hc hl]
  have hperform := m.perform_spec opts (Statement.ofLine text)
  rw [actionOf] at ha
  rw [ha] at hperform
  cases hs : Statement.ofLine text with
  | call function =>
    -- only the call of a function that is not defined is refused
    rw [hs, Statement.action] at ha
    split at ha
    · next hf =>
      cases ha
      simp [performNow, callNow, hf]
    · cases ha
  | _ =>
    rw [hs] at hperform
    exact performNow_of_error (fun _ h => by cases h) hperform

/-- A statement about the variables is performed at once. -/
theorem submit_of_update {out : Text} (hne : text ≠ []) (hc : ModeCommand.ofText? text = none)
    (hl : m.loading = false) (ha : m.actionOf opts text = .update s out) :
    ∃ events, Event.outputOf events = out ∧
      ∀ fuel, m.submit opts fuel text = some ⟨{ m with store := s }, events, .ok ()⟩ := by
  have hperform := m.perform_spec opts (Statement.ofLine text)
  rw [actionOf] at ha
  rw [ha] at hperform
  obtain ⟨events, hperform, hout⟩ := hperform
  refine ⟨events, hout, fun fuel => ?_⟩
  rw [submit_eq_performNow hne hc hl]
  refine performNow_of_ok (fun function hs => ?_) hperform
  rw [hs, Statement.action] at ha
  split at ha <;> cases ha

/-- The submission of the statement at `i` and the step that performs it in the program: both are
over, or both are inside a call. -/
inductive Begins (opts : Options) (p p' : Program) (statements : List Text) (i : Nat) (text : Text)
    (m : Machine) (r' : Reply Machine Bool) : Prop
  | answered {r : Reply Machine Unit} (hr : ∀ fuel, m.submit opts fuel text = some r)
      (h : Matches p p' statements i r r')
  | launched {start : Machine} {before : List Event} {s : Store} {rows : List Row}
      (hlaunch : m.Launches text start) (hbefore : Event.outputOf before = [])
      (hsubmit : ∀ fuel, m.submit opts fuel text =
        (loop opts fuel start).map fun r => (r.mapState settle).after before)
      (hout : Event.outputOf r'.events = []) (hr' : r'.result = .ok false)
      (h : InCall p p' i s rows start r'.state)

/-- In the program, control is at the statement that is to be performed next. -/
theorem outerLine_of_rest (hp : p.Followed p' statements) (htext : statements[i]? = some text)
    (hb : Resumes p' s (p'.rows.drop (p.size + i)) b) :
    b.skipDefinitions.1.outerLine = p.size + i := by
  have hcalls := calls_eq_nil hp hb
  obtain ⟨hready, hpending, -, rfl⟩ := hb
  obtain ⟨⟨hready', hpending', -, hprogram'⟩, hdef⟩ := skipDefinitions_spec hready
  rw [hpending, hp.drop_of_some htext] at hpending'
  cases hline : b.skipDefinitions.1.program.lines[b.skipDefinitions.1.pc]? with
  | none =>
    rw [pending_of_none hready' hline] at hpending'
    cases hpending'
  | some line =>
    rw [hline] at hdef
    rw [pending_of_some hready' hline hdef] at hpending'
    have hpc : b.skipDefinitions.1.pc = p.size + i :=
      congrArg Row.index (List.cons.inj hpending').1
    obtain ⟨pc, hskip⟩ := b.skipDefinitions_eq
    rw [hskip] at hpc ⊢
    rw [outerLine, hcalls]
    exact hpc

/-- A call begins alike: when the body is empty it is over, and otherwise both machines have the
body to perform. -/
theorem begins_call (hp : m.program.Followed p' statements) {function : Text} {definition : Nat}
    (hcalls : m.calls = .empty) (hc : ModeCommand.ofText? text = none) (hl : m.loading = false)
    (hs : Statement.ofLine text = .call function)
    (hf : m.program.functions.get? function = some definition)
    (houter : b.skipDefinitions.1.outerLine = m.program.size + i)
    (hb : Continues (Resumes p') m.store
      (m.program.body definition ++ p'.rows.drop (m.program.size + (i + 1))) (b.step opts))
    (hout : Event.outputOf (b.step opts).events = []) :
    Begins opts m.program p' statements i text m (b.step opts) := by
  have hnested := m.nested_enterNow definition
  have hskipped : m.program.lines[definition]?.any Line.isSkipped = true :=
    Program.any_isSkipped_of_isDefinition (hp.indexed function definition hf)
  have hdepth : m.depth = 0 := congrArg Stack.size hcalls
  obtain ⟨hhalted, hnone⟩ | ⟨hrunning, -, hresumes⟩ :=
    advance_spec (m := m.enterNow definition) hnested fun _ => hskipped
  · -- the body is empty: the immediate call is over before a step, the call after one
    rw [pendingBehind_enterNow] at hnone
    rw [hnone, List.nil_append] at hb
    obtain ⟨pc, calls, hmachine, hsize⟩ :=
      advance_of_waiting (m := m.enterNow definition) hnested (fun _ => hskipped) rfl hhalted
    have hempty : calls = .empty :=
      Stack.ext_items (List.eq_nil_of_length_eq_zero (by rw [calls.size_eq, hsize, hdepth]))
    refine .answered (fun fuel => (submit_eq_callNow hc hl hs).trans
      (callNow_of_halted hf hhalted)) (.passed (by simp [hout]) rfl ?_ hb)
    rw [hmachine]
    exact ⟨rfl, rfl, hempty, rfl, hl⟩
  · rw [pendingBehind_enterNow] at hresumes
    have hwait : (m.enterNow definition).advance.machine.returnDepth = some 0 :=
      (returnDepth_advance hrunning).trans (congrArg some hdepth)
    have hne := hresumes.ne_nil hwait
    rcases hb with ⟨-, hnil⟩ | ⟨hrunning', hresumes'⟩
    · exact absurd (List.append_eq_nil_iff.mp hnil).1 hne
    · have houter' := outerLine_of_running hrunning'
      rw [houter] at houter'
      have hloading : (m.enterNow definition).advance.machine.loading = false :=
        (loading_eq_of_code (m.enterNow definition).advance_code).trans hl
      exact .launched (.call hc hl hs hf hrunning) (by simp)
        (fun fuel => (submit_eq_callNow hc hl hs).trans (callNow_of_running hf hrunning)) hout
        hrunning' ⟨hresumes, hwait, hloading, hresumes',
          getLast?_of_ne_nil hp hresumes' hne houter'⟩

/-- **A statement begins alike**, submitted or performed in the program. -/
theorem begins (hp : p.Followed p' statements) (hlimit : opts.stepLimit = 0)
    (htext : statements[i]? = some text) (hm : AtRest p s m)
    (hb : Resumes p' s (p'.rows.drop (p.size + i)) b) :
    Begins opts p p' statements i text m (b.step opts) := by
  obtain ⟨hne, hc⟩ := hp.statement text (List.mem_of_getElem? htext)
  obtain ⟨rfl, rfl, hcalls, hpc, hl⟩ := hm
  have houter := outerLine_of_rest hp htext hb
  have hfollows := step_spec hlimit hp.indexed' hb
  rw [hp.drop_of_some htext] at hfollows
  have haction := hp.action_eq opts m.store ⟨m.program.size + i, text⟩
  cases ha : m.actionOf opts text with
  | refuse fault =>
    obtain ⟨hresult, hout⟩ := hfollows.of_refuse (haction.trans ha)
    obtain ⟨_, _, -, -, houter'⟩ := step_error hlimit hresult
    exact .answered (submit_of_refuse hne hc hl ha) (.failed hout htext rfl
      (Or.inl ⟨fault, rfl⟩) hresult (houter'.trans houter))
  | update s' out =>
    obtain ⟨hb', hout⟩ := hfollows.of_update (haction.trans ha)
    obtain ⟨events, hevents, hsubmit⟩ := submit_of_update hne hc hl ha
    exact .answered hsubmit (.passed (hout.trans hevents.symm) rfl ⟨rfl, rfl, hcalls, hpc, hl⟩ hb')
  | enter definition =>
    obtain ⟨function, hs, hf⟩ := Statement.action_eq_enter ha
    obtain ⟨hb', hout⟩ := hfollows.of_enter (haction.trans ha)
    rw [hp.body_eq hf] at hb'
    exact begins_call hp hcalls hc hl hs hf houter hb' hout

end Lockstep

end Machine

end LineScript

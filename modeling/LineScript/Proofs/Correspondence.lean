import LineScript.Proofs.Resumption
import Mathlib.Data.List.Forall2

/-!
# Programs that correspond

Two programs do the same when their rows correspond: corresponding rows change the variables in the
same way, are at fault in the same way, and enter bodies whose rows correspond again. Positions of
control and pending calls need not be compared, since structured execution has none. Rows without a
statement do nothing, so a correspondence passes over them.

## Main definitions

* `effective`: the rows that hold a statement
* `RowsAgree`: rows correspond, apart from those without a statement
* `Program.Corresponds`: a relation of rows is a correspondence between two programs
* `Machine.RunsOn`: a run goes on forever, and has written a text
* `Machine.RunsAlike`: two machines run alike, up to the lines that failures name

## Main results

* `RowsAgree.of_cons`: a row with a statement has a partner
* `Program.Corresponds.performs`, `Program.Corresponds.begun`: corresponding rows are performed
  alike, and have written the same at some point
* `Machine.runsAlike_of_corresponds`: programs that correspond run alike
-/

namespace LineScript

/-! ## Rows without a statement -/

/-- The row holds no words. -/
def Row.isBlank (row : Row) : Bool := row.text.words.isEmpty

/-- The rows that hold a statement. -/
def effective (rows : List Row) : List Row := rows.filter fun row => !row.isBlank

section Effective

variable {opts : Options} {p : Program} {row : Row} {rows : List Row} {s : Store} {out : Text}
  {e : Ending}

theorem effective_cons_of_isBlank (h : row.isBlank = true) (rows : List Row) :
    effective (row :: rows) = effective rows :=
  List.filter_cons_of_neg (by simp [h])

theorem effective_cons_of_not_isBlank (h : row.isBlank = false) (rows : List Row) :
    effective (row :: rows) = row :: effective rows :=
  List.filter_cons_of_pos (by simp [h])

theorem effective_cons_congr {rows' : List Row} (row : Row) (h : effective rows = effective rows') :
    effective (row :: rows) = effective (row :: rows') := by
  cases hblank : row.isBlank with
  | true => rw [effective_cons_of_isBlank hblank, effective_cons_of_isBlank hblank, h]
  | false => rw [effective_cons_of_not_isBlank hblank, effective_cons_of_not_isBlank hblank, h]

theorem Row.action_of_isBlank (h : row.isBlank = true) : row.action opts p s = .update s [] := by
  rw [Row.action, Statement.ofLine, List.isEmpty_iff.mp h]
  rfl

theorem Row.isBlank_eq_false {a : Action} (ha : row.action opts p s = a) (hne : a ≠ .update s []) :
    row.isBlank = false := by
  refine Bool.eq_false_iff.mpr fun hblank => hne ?_
  rw [← ha, Row.action_of_isBlank hblank]

/-- **Rows without a statement in front of others make no difference.** -/
theorem Performs.blanks_append {blanks : List Row} (hblanks : ∀ row ∈ blanks, row.isBlank = true)
    (h : Performs opts p rows s out e) : Performs opts p (blanks ++ rows) s out e := by
  induction blanks with
  | nil => exact h
  | cons row blanks ih =>
    obtain ⟨hrow, hblanks⟩ := List.forall_mem_cons.mp hblanks
    exact .update (Row.action_of_isBlank hrow) (ih hblanks)

theorem Begun.blanks_append {blanks : List Row} (hblanks : ∀ row ∈ blanks, row.isBlank = true)
    (h : Begun opts p rows s out) : Begun opts p (blanks ++ rows) s out := by
  induction blanks with
  | nil => exact h
  | cons row blanks ih =>
    obtain ⟨hrow, hblanks⟩ := List.forall_mem_cons.mp hblanks
    exact .update (Row.action_of_isBlank hrow) (ih hblanks)

end Effective

/-! ## Corresponding rows -/

/-- Two effects agree: they are the same, or enter bodies that are related. -/
inductive Action.Agrees (bodies : Nat → Nat → Prop) : Action → Action → Prop
  | update (s : Store) (out : Text) : Agrees bodies (.update s out) (.update s out)
  | enter {definition definition' : Nat} (h : bodies definition definition') :
      Agrees bodies (.enter definition) (.enter definition')
  | refuse (fault : Fault) : Agrees bodies (.refuse fault) (.refuse fault)

/-- A statement has effects that agree, if the function that it calls is found at related
definitions. -/
theorem Statement.action_agrees {opts : Options} {functions functions' : Table Nat} {s : Store}
    {statement : Statement} {bodies : Nat → Nat → Prop} (shift : Nat → Nat)
    (hcall : ∀ function, statement = .call function →
      functions'.get? function = (functions.get? function).map shift)
    (hbodies : ∀ definition, bodies definition (shift definition)) :
    Action.Agrees bodies (statement.action opts functions s)
      (statement.action opts functions' s) := by
  by_cases hfunction : ∃ function, statement = .call function
  · obtain ⟨function, rfl⟩ := hfunction
    rw [action, action, hcall function rfl]
    cases functions.get? function with
    | none => exact .refuse _
    | some definition => exact .enter (hbodies definition)
  · -- no other statement looks at the functions
    have hsame : statement.action opts functions' s = statement.action opts functions s := by
      cases statement with
      | call function => exact absurd ⟨function, rfl⟩ hfunction
      | _ => rfl
    rw [hsame]
    cases ha : statement.action opts functions s with
    | update s' out => exact .update s' out
    | refuse fault => exact .refuse fault
    | enter definition =>
      obtain ⟨function, hstatement, -⟩ := action_eq_enter ha
      exact absurd ⟨function, hstatement⟩ hfunction

/-- Two endings agree: they leave the same variables, or related rows are at the same fault. -/
inductive Ending.Agrees (related : Row → Row → Prop) : Ending → Ending → Prop
  | done (s : Store) : Agrees related (.done s) (.done s)
  | failed {row row' : Row} (h : related row row') (fault : Fault) :
      Agrees related (.failed row fault) (.failed row' fault)

/-- The rows are related one by one, apart from those without a statement. -/
def RowsAgree (related : Row → Row → Prop) (rows rows' : List Row) : Prop :=
  List.Forall₂ related (effective rows) (effective rows')

/-- A relation of rows is a **correspondence** between two programs: related rows have the same
effect whatever the variables are, and the rows of the bodies that they enter are related. -/
def Program.Corresponds (opts : Options) (related : Row → Row → Prop) (p q : Program) : Prop :=
  ∀ row row', related row row' → ∀ s, Action.Agrees
    (fun definition definition' => RowsAgree related (p.body definition) (q.body definition'))
    (row.action opts p s) (row'.action opts q s)

section Agree

variable {related : Row → Row → Prop} {row row' : Row} {rows rows' : List Row}

theorem RowsAgree.flip (h : RowsAgree related rows rows') : RowsAgree (flip related) rows' rows :=
  List.Forall₂.flip h

theorem RowsAgree.append {later later' : List Row} (h : RowsAgree related rows rows')
    (hlater : RowsAgree related later later') :
    RowsAgree related (rows ++ later) (rows' ++ later') := by
  rw [RowsAgree, effective, effective, List.filter_append, List.filter_append]
  exact List.rel_append h hlater

theorem RowsAgree.of_nil (h : RowsAgree related [] rows') :
    ∀ row ∈ rows', row.isBlank = true := by
  have hnone : effective rows' = [] := List.forall₂_nil_left_iff.mp h
  intro row hrow
  simpa using List.filter_eq_nil_iff.mp hnone row hrow

/-- A row without a statement may be left out. -/
theorem RowsAgree.of_cons_isBlank (h : RowsAgree related (row :: rows) rows')
    (hblank : row.isBlank = true) : RowsAgree related rows rows' := by
  rwa [RowsAgree, effective_cons_of_isBlank hblank] at h

/-- A row with a statement has a partner, in front of which no row holds a statement. -/
theorem RowsAgree.of_cons (h : RowsAgree related (row :: rows) rows')
    (hblank : row.isBlank = false) :
    ∃ blanks row' rest, rows' = blanks ++ row' :: rest ∧
      (∀ other ∈ blanks, other.isBlank = true) ∧ related row row' ∧
      RowsAgree related rows rest := by
  rw [RowsAgree, effective_cons_of_not_isBlank hblank] at h
  obtain ⟨row', partners, hrow, hpartners, heq⟩ := List.forall₂_cons_left_iff.mp h
  obtain ⟨blanks, rest, rfl, hblanks, -, rfl⟩ := List.filter_eq_cons_iff.mp heq
  exact ⟨blanks, row', rest, rfl, fun other hother => by simpa using hblanks other hother, hrow,
    hpartners⟩

end Agree

namespace Program.Corresponds

variable {opts : Options} {related : Row → Row → Prop} {p q : Program} {row row' : Row}
  {rows rows' : List Row} {s s' : Store} {out : Text} {e : Ending}

/-- A correspondence may be read from either side. -/
theorem flip (h : p.Corresponds opts related q) : q.Corresponds opts (flip related) p := by
  intro row' row hrow s
  have hagrees := h row row' hrow s
  generalize row.action opts p s = a at hagrees
  generalize row'.action opts q s = a' at hagrees
  cases hagrees with
  | update s out => exact .update s out
  | enter hbody => exact .enter hbody.flip
  | refuse fault => exact .refuse fault

theorem update (h : p.Corresponds opts related q) (hrow : related row row')
    (ha : row.action opts p s = .update s' out) : row'.action opts q s = .update s' out := by
  have hagrees := h row row' hrow s
  rw [ha] at hagrees
  generalize row'.action opts q s = a' at hagrees ⊢
  cases hagrees
  rfl

theorem refuse {fault : Fault} (h : p.Corresponds opts related q) (hrow : related row row')
    (ha : row.action opts p s = .refuse fault) : row'.action opts q s = .refuse fault := by
  have hagrees := h row row' hrow s
  rw [ha] at hagrees
  generalize row'.action opts q s = a' at hagrees ⊢
  cases hagrees
  rfl

theorem enter {definition : Nat} (h : p.Corresponds opts related q) (hrow : related row row')
    (ha : row.action opts p s = .enter definition) :
    ∃ definition', row'.action opts q s = .enter definition' ∧
      RowsAgree related (p.body definition) (q.body definition') := by
  have hagrees := h row row' hrow s
  rw [ha] at hagrees
  generalize row'.action opts q s = a' at hagrees ⊢
  cases hagrees with
  | enter hbody => exact ⟨_, rfl, hbody⟩

/-- **Corresponding rows are performed alike**: with the same output, and with endings that
agree. -/
theorem performs (h : p.Corresponds opts related q) (hperforms : Performs opts p rows s out e)
    (hrows : RowsAgree related rows rows') :
    ∃ e', Performs opts q rows' s out e' ∧ e.Agrees related e' := by
  -- a row that does something has a partner, which does the same
  induction hperforms generalizing rows' with
  | @nil s =>
    refine ⟨.done s, ?_, .done s⟩
    rw [← List.append_nil rows']
    exact Performs.nil.blanks_append hrows.of_nil
  | @update row rows s s' out out' e ha _ ih =>
    cases hblank : row.isBlank with
    | true =>
      cases (Row.action_of_isBlank hblank).symm.trans ha
      exact ih (hrows.of_cons_isBlank hblank)
    | false =>
      obtain ⟨blanks, row', rest, rfl, hblanks, hrow, hrest⟩ := hrows.of_cons hblank
      obtain ⟨e', he', hagrees⟩ := ih hrest
      exact ⟨e', .blanks_append hblanks (.update (h.update hrow ha) he'), hagrees⟩
  | @refuse row rows s fault ha =>
    obtain ⟨blanks, row', rest, rfl, hblanks, hrow, -⟩ :=
      hrows.of_cons (Row.isBlank_eq_false ha nofun)
    exact ⟨.failed row' fault, .blanks_append hblanks (.refuse (h.refuse hrow ha)),
      .failed hrow fault⟩
  | call ha _ _ ihbody ih =>
    obtain ⟨blanks, row', rest, rfl, hblanks, hrow, hrest⟩ :=
      hrows.of_cons (Row.isBlank_eq_false ha nofun)
    obtain ⟨definition', ha', hbody⟩ := h.enter hrow ha
    obtain ⟨ebody, hebody, hdone⟩ := ihbody hbody
    obtain ⟨e', he', hagrees⟩ := ih hrest
    cases hdone
    exact ⟨e', .blanks_append hblanks (.call ha' hebody he'), hagrees⟩
  | abort ha _ ihbody =>
    obtain ⟨blanks, row', rest, rfl, hblanks, hrow, -⟩ :=
      hrows.of_cons (Row.isBlank_eq_false ha nofun)
    obtain ⟨definition', ha', hbody⟩ := h.enter hrow ha
    obtain ⟨ebody, hebody, hfailed⟩ := ihbody hbody
    cases hfailed with
    | failed hfailing =>
      exact ⟨_, .blanks_append hblanks (.abort ha' hebody), .failed hfailing _⟩

/-- **Corresponding rows have written the same at some point.** -/
theorem begun (h : p.Corresponds opts related q) (hbegun : Begun opts p rows s out)
    (hrows : RowsAgree related rows rows') : Begun opts q rows' s out := by
  induction hbegun generalizing rows' with
  | start => exact .start
  | @update row rows s s' out out' ha _ ih =>
    cases hblank : row.isBlank with
    | true =>
      cases (Row.action_of_isBlank hblank).symm.trans ha
      exact ih (hrows.of_cons_isBlank hblank)
    | false =>
      obtain ⟨blanks, row', rest, rfl, hblanks, hrow, hrest⟩ := hrows.of_cons hblank
      exact .blanks_append hblanks (.update (h.update hrow ha) (ih hrest))
  | call ha _ ih =>
    -- a body is put in front of the rows behind the call, in both programs
    obtain ⟨blanks, row', rest, rfl, hblanks, hrow, hrest⟩ :=
      hrows.of_cons (Row.isBlank_eq_false ha nofun)
    obtain ⟨definition', ha', hbody⟩ := h.enter hrow ha
    exact .blanks_append hblanks (.call ha' (ih (hbody.append hrest)))

end Program.Corresponds

/-! ## Runs -/

namespace Machine

/-- A run goes on forever, and has written this at some point. -/
def RunsOn (opts : Options) (m : Machine) (out : Text) : Prop :=
  (∀ r, ¬ m.Answers opts ModeCommand.run.wording r) ∧ m.RunShows opts out

/-- **Two machines run alike**, where `shift` leads from the lines of the one program to those of
the other: one run succeeds exactly if the other does, with the same output; one fails exactly if
the other does, with the same output and cause, at the line that corresponds; and one runs on
exactly if the other does, where what the one has written at some point the other has as well. -/
structure RunsAlike (opts : Options) (shift : Nat → Nat) (m m' : Machine) : Prop where
  succeeds : ∀ out, m.RunsTo opts out (.ok ()) ↔ m'.RunsTo opts out (.ok ())
  fails : ∀ out failure, m.RunsTo opts out (.error failure) →
    ∃ (line : Nat) (source : Text) (cause : Failure), failure = .atLine line source cause ∧
      m'.RunsTo opts out (.error (.atLine (shift line) source cause))
  fails_of_fails : ∀ out failure, m'.RunsTo opts out (.error failure) →
    ∃ (line : Nat) (source : Text) (cause : Failure), failure = .atLine (shift line) source cause ∧
      m.RunsTo opts out (.error (.atLine line source cause))
  runsOn : ∀ out, m.RunsOn opts out ↔ m'.RunsOn opts out

/-- A failure of one run is one of the other, at the line that corresponds. -/
theorem RunsAlike.fails_at {opts : Options} {shift : Nat → Nat} {m m' : Machine} {out source : Text}
    {cause : Failure} (h : RunsAlike opts shift m m') (line : Nat)
    (hrun : m.RunsTo opts out (.error (.atLine line source cause))) :
    m'.RunsTo opts out (.error (.atLine (shift line) source cause)) := by
  obtain ⟨line', source', cause', heq, hrun'⟩ := h.fails _ _ hrun
  injection heq with hline hsource hcause
  obtain rfl : line = line' := Int.ofNat.inj hline
  rwa [hsource, hcause]

section Runs

variable {opts : Options} {related : Row → Row → Prop} {m m' : Machine} {out : Text}
  {result : Except Failure Unit}

/-- Two machines whose programs correspond, both at rest and with the same variables. -/
structure Parallel (opts : Options) (related : Row → Row → Prop) (m m' : Machine) : Prop where
  indexed : m.program.IndexesDefinitions
  indexed' : m'.program.IndexesDefinitions
  idle : m.Idle
  idle' : m'.Idle
  store_eq : m.store = m'.store
  corresponds : m.program.Corresponds opts related m'.program
  rows : RowsAgree related (mainRows m.program.rows) (mainRows m'.program.rows)

theorem Parallel.flip (h : Parallel opts related m m') : Parallel opts (flip related) m' m :=
  ⟨h.indexed', h.indexed, h.idle', h.idle, h.store_eq.symm, h.corresponds.flip, h.rows.flip⟩

/-- What one run does, the other does up to corresponding rows. -/
theorem Parallel.runsTo (hlimit : opts.stepLimit = 0) (h : Parallel opts related m m')
    (hrun : m.RunsTo opts out result) :
    ∃ e e' : Ending, result = e.result ∧ e.Agrees related e' ∧ m'.RunsTo opts out e'.result := by
  obtain ⟨e, hwalks, rfl⟩ :=
    (answers_run_iff_walks hlimit h.indexed h.idle.1 h.idle.2 out result).mp hrun
  obtain ⟨e', hwalks', hagrees⟩ := h.corresponds.performs hwalks h.rows
  rw [h.store_eq] at hwalks'
  exact ⟨e, e', rfl, hagrees,
    (answers_run_iff_walks hlimit h.indexed' h.idle'.1 h.idle'.2 out _).mpr ⟨e', hwalks', rfl⟩⟩

theorem Parallel.succeeds (hlimit : opts.stepLimit = 0) (h : Parallel opts related m m')
    (hrun : m.RunsTo opts out (.ok ())) : m'.RunsTo opts out (.ok ()) := by
  obtain ⟨e, e', hresult, hagrees, hrun'⟩ := h.runsTo hlimit hrun
  cases hagrees with
  | done => exact hrun'
  | failed => cases hresult

theorem Parallel.fails (hlimit : opts.stepLimit = 0) (h : Parallel opts related m m')
    {failure : Failure} (hrun : m.RunsTo opts out (.error failure)) :
    ∃ row row' fault, related row row' ∧ failure = .atLine row.index row.text (.fault fault) ∧
      m'.RunsTo opts out (.error (.atLine row'.index row'.text (.fault fault))) := by
  obtain ⟨e, e', hresult, hagrees, hrun'⟩ := h.runsTo hlimit hrun
  cases hagrees with
  | done => cases hresult
  | @failed row row' hrow fault => exact ⟨row, row', fault, hrow, Except.error.inj hresult, hrun'⟩

theorem Parallel.answers (hlimit : opts.stepLimit = 0) (h : Parallel opts related m m')
    {r : Reply Machine Unit} (hr : m.Answers opts ModeCommand.run.wording r) :
    ∃ r', m'.Answers opts ModeCommand.run.wording r' := by
  obtain ⟨_, _, -, -, r', hr', -⟩ := h.runsTo hlimit ⟨r, hr, rfl, rfl⟩
  exact ⟨r', hr'⟩

/-- Where one run goes on forever the other does, and has written the same. -/
theorem Parallel.runsOn (hlimit : opts.stepLimit = 0) (h : Parallel opts related m m')
    (hrun : m.RunsOn opts out) : m'.RunsOn opts out := by
  obtain ⟨hendless, hshows⟩ := hrun
  constructor
  · intro r' hr'
    obtain ⟨r, hr⟩ := h.flip.answers hlimit hr'
    exact hendless r hr
  · rw [runShows_iff_begun hlimit h.indexed, h.idle.remainder_eq, h.store_eq] at hshows
    rw [runShows_iff_begun hlimit h.indexed', h.idle'.remainder_eq]
    exact h.corresponds.begun hshows h.rows

/-- **Programs that correspond run alike.** -/
theorem runsAlike_of_corresponds {shift : Nat → Nat} (hlimit : opts.stepLimit = 0)
    (h : Parallel opts related m m')
    (hshift : ∀ row row', related row row' → row' = ⟨shift row.index, row.text⟩) :
    RunsAlike opts shift m m' where
  succeeds out := ⟨h.succeeds hlimit, h.flip.succeeds hlimit⟩
  fails out failure hrun := by
    obtain ⟨row, row', fault, hrow, rfl, hrun'⟩ := h.fails hlimit hrun
    obtain rfl := hshift row row' hrow
    exact ⟨row.index, row.text, .fault fault, rfl, hrun'⟩
  fails_of_fails out failure hrun := by
    obtain ⟨row', row, fault, hrow, rfl, hrun'⟩ := h.flip.fails hlimit hrun
    obtain rfl := hshift row row' hrow
    exact ⟨row.index, row.text, .fault fault, rfl, hrun'⟩
  runsOn out := ⟨h.runsOn hlimit, h.flip.runsOn hlimit⟩

end Runs

end Machine

end LineScript

import LineScript.Proofs.Recursion
import LineScript.Proofs.SingleSteps

/-!
# Control does not depend on the variables

A statement may take another branch when a variable has another value, or none: it writes something
else, and one statement may be refused where another is performed. None of this moves control. Which
row is performed next, where a call leads and where a body ends is read off the program, the
position of control and the pending calls. So two executions of a program that begin with different
variables go through the same positions and the same pending calls, step by step, for as long as no
statement is refused in either of them.

## Main definitions

* `Machine.follow`: where the statement of a row leaves control
* `Machine.SameButStore`: two machines that differ in the variables only

## Main results

* `Machine.cycle_sameControl`: a cycle that succeeds moves control without looking at the variables
* `Machine.SameButStore.step`: steps that succeed keep machines the same but for the variables
* `Machine.control_independent_of_store`: executions from different variables move alike
-/

namespace LineScript

namespace Machine

variable {opts : Options} {m n : Machine}

/-! ## Where a statement leaves control -/

/-- Where the statement of a row leaves control, if it is performed: at a definition, or where it
was. -/
def follow (m : Machine) (row : Row) : Machine :=
  (m.program.entered? row).elim m m.enter

theorem SameControl.follow (h : m.SameControl n) (row : Row) :
    (m.follow row).SameControl (n.follow row) := by
  unfold Machine.follow
  rw [h.program]
  cases m.program.entered? row with
  | none => exact h
  | some definition => exact h.enter definition

/-- A row that is performed leaves control where it follows, whatever the variables are, and then
control moves on. -/
theorem Acts.moves {row : Row} {r : Reply Machine Bool} {halted : Bool}
    (h : m.Acts (some (row, row.action opts m.program m.store)) r) (hr : r.result = .ok halted) :
    ∃ m', (m.skipDefinitions.1.follow row).SameControl m' ∧ m'.steps = m.steps ∧
      r.state = m'.advance.machine ∧ halted = m'.halts := by
  have hprogram : m.skipDefinitions.1.program = m.program :=
    program_eq_of_code m.skipDefinitions_code
  have hsteps := m.skipDefinitions_data.2
  unfold follow
  rw [hprogram]
  generalize ha : row.action opts m.program m.store = action at h
  cases h with
  | refused => cases hr
  | @updated _ s =>
    refine ⟨{ m.skipDefinitions.1 with store := s }, ?_, hsteps, rfl, (Except.ok.inj hr).symm⟩
    rw [Program.entered?_of_update ha]
    exact SameControl.withStore (.refl _) _ s
  | @entered _ definition =>
    refine ⟨m.skipDefinitions.1.enter definition, ?_, hsteps, rfl, (Except.ok.inj hr).symm⟩
    rw [Program.entered?_of_enter ha]
    exact .refl _

/-- **A cycle that succeeds moves control without looking at the variables.** -/
theorem cycle_sameControl {halted halted' : Bool} (h : m.SameControl n)
    (hm : (m.cycle opts).result = .ok halted) (hn : (n.cycle opts).result = .ok halted') :
    halted' = halted ∧ (m.cycle opts).state.SameControl (n.cycle opts).state ∧
      (n.steps = m.steps → (n.cycle opts).state.steps = (m.cycle opts).state.steps) := by
  have hskip := h.skipDefinitions
  have hacts := m.cycle_acts opts
  have hacts' := n.cycle_acts opts
  generalize m.cycle opts = r at hm hacts
  generalize n.cycle opts = r' at hn hacts'
  unfold upcoming? at hacts hacts'
  rw [h.program, hskip.pc] at hacts'
  -- both machines come to the same line
  cases hline : m.program.lines[m.skipDefinitions.1.pc]? with
  | none =>
    rw [hline] at hacts hacts'
    cases hacts
    cases hacts'
    cases hm
    cases hn
    exact ⟨rfl, h.reset ▸ .refl _, fun _ => rfl⟩
  | some line =>
    rw [hline] at hacts hacts'
    obtain ⟨m', hcontrol, hsteps, hstate, hhalts⟩ := Acts.moves hacts hm
    obtain ⟨n', hcontrol', hsteps', hstate', hhalts'⟩ := Acts.moves hacts' hn
    have hsame : m'.SameControl n' := (hcontrol.symm.trans (hskip.follow _)).trans hcontrol'
    obtain ⟨heq, hnext, -, hcount⟩ := hsame.advance
    rw [hstate, hstate', hhalts, hhalts']
    refine ⟨heq, hnext, fun hbefore => hcount ?_⟩
    rw [hsteps, hsteps', hbefore]

/-! ## Step by step -/

/-- Two machines that differ in the variables only. -/
def SameButStore (m n : Machine) : Prop := n = { m with store := n.store }

theorem SameButStore.sameControl (h : m.SameButStore n) : m.SameControl n ∧ n.steps = m.steps := by
  rw [SameButStore] at h
  rw [h]
  exact ⟨rfl, rfl⟩

theorem SameControl.sameButStore (h : m.SameControl n) (hsteps : n.steps = m.steps) :
    m.SameButStore n := by
  rw [SameControl, hsteps] at h
  exact h

theorem SameButStore.isSpent (h : m.SameButStore n) (opts : Options) :
    n.isSpent opts = m.isSpent opts := by
  rw [h]
  rfl

/-- A step that succeeds is a cycle within the limit, and is counted. -/
theorem cycle_of_step_ok {halted : Bool} (h : (m.step opts).result = .ok halted) :
    (m.cycle opts).result = .ok halted ∧
      (m.step opts).state = (m.cycle opts).state.withData (m.cycle opts).state.store
        ((m.cycle opts).state.steps + 1) := by
  unfold step at h ⊢
  split at h
  · cases h
  · next hfree =>
    rw [if_neg hfree]
    exact ⟨h, rfl⟩

/-- **Steps that succeed keep machines the same but for the variables**, and end execution both or
neither. -/
theorem SameButStore.step {halted halted' : Bool} (h : m.SameButStore n)
    (hm : (m.step opts).result = .ok halted) (hn : (n.step opts).result = .ok halted') :
    halted' = halted ∧ (m.step opts).state.SameButStore (n.step opts).state := by
  obtain ⟨hcycle, hstate⟩ := cycle_of_step_ok hm
  obtain ⟨hcycle', hstate'⟩ := cycle_of_step_ok hn
  obtain ⟨hcontrol, hsteps⟩ := h.sameControl
  obtain ⟨heq, hnext, hcount⟩ := cycle_sameControl hcontrol hcycle hcycle'
  refine ⟨heq, SameControl.sameButStore ?_ ?_⟩
  · rw [hstate, hstate', SameControl, hnext]
    rfl
  · rw [hstate, hstate']
    exact congrArg (· + 1) (hcount hsteps)

/-- Single steps that succeed move alike. -/
theorem SameButStore.singleSteps {k : Nat} (h : m.SameButStore n)
    (hm : AllOk (m.singleSteps opts k)) (hn : AllOk (n.singleSteps opts k)) :
    (n.singleSteps opts k).map Reply.result = (m.singleSteps opts k).map Reply.result ∧
      (m.afterSteps opts k).SameButStore (n.afterSteps opts k) := by
  induction k generalizing m n with
  | zero => exact ⟨rfl, h⟩
  | succ k ih =>
    rw [Machine.singleSteps, AllOk, List.forall_mem_cons] at hm hn
    obtain ⟨⟨halted, hhalted⟩, hm⟩ := hm
    obtain ⟨⟨halted', hhalted'⟩, hn⟩ := hn
    obtain ⟨heq, hnext⟩ := h.step hhalted hhalted'
    obtain ⟨hresults, hafter⟩ := ih hnext hm hn
    refine ⟨?_, hafter⟩
    rw [Machine.singleSteps, Machine.singleSteps, List.map_cons, List.map_cons, hresults, hhalted,
      hhalted', heq]

/-- A step that fails has used up the limit, and so has the same step with other variables; or it
has come to a row that is refused with these variables, and with others it comes to the same row. -/
theorem SameButStore.step_error {failure : Failure} (h : m.SameButStore n)
    (hm : (m.step opts).result = .error failure) :
    (n.step opts).result = .error failure ∧ m.isSpent opts = true ∨
      ∃ row fault, failure = .atLine row.index row.text (.fault fault) ∧
        m.upcoming? opts = some (row, .refuse fault) ∧
        (n.upcoming? opts).map Prod.fst = some row := by
  have hcontrol := h.sameControl.1
  obtain ⟨hspent, hfail⟩ | ⟨-, r, hacts, hstep⟩ := m.step_acts opts
  · obtain ⟨-, hfail'⟩ | ⟨hfree, -⟩ := n.step_acts opts
    · rw [hfail] at hm
      rw [hfail', ← hm, h]
      exact Or.inl ⟨rfl, hspent⟩
    · rw [h.isSpent, hspent] at hfree
      cases hfree
  · rw [hstep] at hm
    have hrow : (n.upcoming? opts).map Prod.fst = (m.upcoming? opts).map Prod.fst := by
      rw [upcoming?, upcoming?, hcontrol.program, hcontrol.skipDefinitions.pc, Option.map_map,
        Option.map_map]
      rfl
    generalize hupcoming : m.upcoming? opts = row? at hacts hrow
    cases hacts with
    | finished => cases hm
    | refused => exact Or.inr ⟨_, _, (Except.error.inj hm).symm, rfl, hrow⟩
    | updated => cases hm
    | entered => cases hm

/-- **Control does not depend on the variables.** The same machine with either of two stores takes
`k` steps, and none of them fails. Then the steps report the same, and after each of them control is
at the same position with the same calls pending; in fact nothing but the variables differs. A step
that fails next has used up the limit in both, or it comes to a row that is refused, given the
variables that it finds, and this is the row that both come to. -/
theorem control_independent_of_store (opts : Options) (m : Machine) (s t : Store) (k : Nat)
    (hs : AllOk ({ m with store := s }.singleSteps opts k))
    (ht : AllOk ({ m with store := t }.singleSteps opts k)) :
    ({ m with store := t }.singleSteps opts k).map Reply.result =
      ({ m with store := s }.singleSteps opts k).map Reply.result ∧
    (∀ i ≤ k, ({ m with store := t }.afterSteps opts i).pc =
          ({ m with store := s }.afterSteps opts i).pc ∧
        ({ m with store := t }.afterSteps opts i).calls =
          ({ m with store := s }.afterSteps opts i).calls ∧
        ({ m with store := s }.afterSteps opts i).SameButStore
          ({ m with store := t }.afterSteps opts i)) ∧
    ∀ failure, (({ m with store := s }.afterSteps opts k).step opts).result = .error failure →
      (({ m with store := t }.afterSteps opts k).step opts).result = .error failure ∧
          ({ m with store := s }.afterSteps opts k).isSpent opts = true ∨
        ∃ row fault, failure = .atLine row.index row.text (.fault fault) ∧
          ({ m with store := s }.afterSteps opts k).upcoming? opts = some (row, .refuse fault) ∧
          (({ m with store := t }.afterSteps opts k).upcoming? opts).map Prod.fst = some row := by
  have hsame : SameButStore { m with store := s } { m with store := t } := rfl
  obtain ⟨hresults, hafter⟩ := hsame.singleSteps hs ht
  refine ⟨hresults, fun i hi => ?_, fun failure => hafter.step_error⟩
  obtain ⟨-, hafter⟩ := hsame.singleSteps (hs.of_le hi) (ht.of_le hi)
  exact ⟨hafter.sameControl.1.pc, hafter.sameControl.1.calls, hafter⟩

/-- A program whose statements take other branches when its variables have no values. -/
def branching (s : Store) : Machine :=
  { Machine.initial with
    program := ⟨#[utf8 "sub a 2", utf8 "call f", utf8 "rem b", utf8 "def f", utf8 " print a"],
      Table.empty.insert (utf8 "f") 3⟩
    store := s }

/-- Variables of `branching`. -/
def branchingStore : Store := (Table.empty.insert (utf8 "a") 5).insert (utf8 "b") 1

/-- Five steps bring it to its end with variables and without. In between the same call is pending,
and other text is written. -/
theorem branching_moves_alike :
    AllOk ((branching branchingStore).singleSteps {} 5) ∧
      AllOk ((branching .empty).singleSteps {} 5) ∧
      ((branching .empty).singleSteps {} 5).map Reply.result =
        ((branching branchingStore).singleSteps {} 5).map Reply.result ∧
      ((branching .empty).afterSteps {} 2).pc = 4 ∧
      ((branching .empty).afterSteps {} 2).calls.items = [1] ∧
      ((branching branchingStore).singleSteps {} 5).map (fun r => Event.outputOf r.events) ≠
        ((branching .empty).singleSteps {} 5).map fun r => Event.outputOf r.events := by
  have hs : AllOk ((branching branchingStore).singleSteps {} 5) := by decide +kernel
  have ht : AllOk ((branching .empty).singleSteps {} 5) := by decide +kernel
  obtain ⟨hresults, hpositions, -⟩ :=
    control_independent_of_store {} (branching .empty) branchingStore .empty 5 hs ht
  obtain ⟨hpc, hcalls, -⟩ := hpositions 2 (by decide)
  refine ⟨hs, ht, hresults, hpc.trans ?_, (congrArg Stack.items hcalls).trans ?_, ?_⟩
  all_goals decide +kernel

end Machine

end LineScript

import LineScript.Proofs.Simulation
import LineScript.Proofs.Stepping
import Mathlib.Data.List.Perm.Subperm

/-!
# Recursion does not end

Which statement is performed next does not depend on the variables, unless one is refused. So the
number of rows that are performed until the rows at hand are through is a function of these rows:
a body takes as many whenever it is entered. A function that is called again while a call of it is
pending would need as many rows as the first call, though less is left. Hence an execution that
comes to its end without a failure never has two calls of the same function pending.

## Main definitions

* `Takes`: how many rows are performed until some rows are through
* `Program.functionsOf`: the functions of pending calls
* `Program.Frames`: pending calls had more to perform than is left, the outer ones more than the
  inner ones
* `Machine.Bounded`: a machine that has only so many rows to perform
* `Machine.Visits`: the machines that a submission goes through

## Main results

* `Takes.unique`, `Takes.split`: rows take what they take, one part after the other
* `Program.Frames.nodup`: the functions of pending calls are different
* `Machine.Bounded.step`: a step keeps a machine bounded
* `Machine.pending_functions_distinct`: at no point of an execution that ends well are two calls
  of the same function pending
-/

namespace LineScript

/-! ## How long rows take -/

/-- The function that a statement calls. -/
def Statement.function? : Statement → Option Text
  | .call function => some function
  | _ => none

namespace Program

/-- The definition that a row enters. -/
def entered? (p : Program) (row : Row) : Option Nat :=
  (Statement.ofLine row.text).function?.bind p.functions.get?

variable {p : Program} {row : Row} {opts : Options} {s : Store}

theorem entered?_of_enter {definition : Nat} (h : row.action opts p s = .enter definition) :
    p.entered? row = some definition := by
  obtain ⟨function, hs, hf⟩ := Statement.action_eq_enter h
  simp [entered?, hs, Statement.function?, hf]

theorem entered?_of_update {s' : Store} {out : Text} (h : row.action opts p s = .update s' out) :
    p.entered? row = none := by
  unfold Row.action at h
  unfold entered?
  cases hs : Statement.ofLine row.text with
  | call function =>
    -- a call is refused or enters
    rw [hs] at h
    simp only [Statement.action] at h
    split at h <;> cases h
  | _ => rfl

end Program

/-- The rows take so many rows to perform, those of called functions included. -/
inductive Takes (p : Program) : List Row → Nat → Prop
  | nil : Takes p [] 0
  | plain {row : Row} {rows : List Row} {n : Nat} (hrow : p.entered? row = none)
      (h : Takes p rows n) : Takes p (row :: rows) (n + 1)
  | call {row : Row} {rows : List Row} {definition n : Nat}
      (hrow : p.entered? row = some definition) (h : Takes p (p.body definition ++ rows) n) :
      Takes p (row :: rows) (n + 1)

section Takes

variable {p : Program} {rows xs ys : List Row} {n n' : Nat}

/-- **Rows take what they take**, whatever the variables are. -/
theorem Takes.unique (h : Takes p rows n) (h' : Takes p rows n') : n = n' := by
  induction h generalizing n' with
  | nil =>
    cases h'
    rfl
  | plain hrow _ ih =>
    cases h' with
    | plain _ h' => rw [ih h']
    | call hrow' => cases hrow.symm.trans hrow'
  | call hrow _ ih =>
    cases h' with
    | plain hrow' => cases hrow.symm.trans hrow'
    | call hrow' h' =>
      cases hrow.symm.trans hrow'
      rw [ih h']

/-- Rows are through when their first part is and then the second. -/
theorem Takes.split (h : Takes p (xs ++ ys) n) :
    ∃ a b, Takes p xs a ∧ Takes p ys b ∧ n = a + b := by
  generalize hrows : xs ++ ys = rows at h
  induction h generalizing xs with
  | nil =>
    obtain ⟨rfl, rfl⟩ := List.append_eq_nil_iff.mp hrows
    exact ⟨0, 0, .nil, .nil, rfl⟩
  | @plain row rows n hrow h ih =>
    cases xs with
    | nil =>
      rw [List.nil_append] at hrows
      exact ⟨0, n + 1, .nil, hrows ▸ .plain hrow h, (Nat.zero_add _).symm⟩
    | cons x xs =>
      rw [List.cons_append] at hrows
      obtain ⟨rfl, hrest⟩ := List.cons_eq_cons.mp hrows
      obtain ⟨a, b, ha, hb, rfl⟩ := ih hrest
      exact ⟨a + 1, b, .plain hrow ha, hb, by omega⟩
  | @call row rows definition n hrow h ih =>
    cases xs with
    | nil =>
      rw [List.nil_append] at hrows
      exact ⟨0, n + 1, .nil, hrows ▸ .call hrow h, (Nat.zero_add _).symm⟩
    | cons x xs =>
      rw [List.cons_append] at hrows
      obtain ⟨rfl, hrest⟩ := List.cons_eq_cons.mp hrows
      have hbody : (p.body definition ++ xs) ++ ys = p.body definition ++ rows := by
        rw [List.append_assoc, hrest]
      obtain ⟨a, b, ha, hb, rfl⟩ := ih hbody
      exact ⟨a + 1, b, .call hrow ha, hb, by omega⟩

/-- Rows that are performed to their end take some number of rows. -/
theorem Unrolled.takes {opts : Options} {s s' : Store} {out : Text}
    (h : Unrolled opts p rows s out (.done s')) : ∃ n, Takes p rows n := by
  generalize he : Ending.done s' = e at h
  induction h with
  | nil => exact ⟨0, .nil⟩
  | update ha _ ih =>
    obtain ⟨n, hn⟩ := ih he
    exact ⟨n + 1, .plain (Program.entered?_of_update ha) hn⟩
  | refuse => cases he
  | call ha _ ih =>
    obtain ⟨n, hn⟩ := ih he
    exact ⟨n + 1, .call (Program.entered?_of_enter ha) hn⟩

end Takes

/-! ## Pending calls -/

namespace Program

variable {p : Program} {target : Option Nat} {outer : Option Text} {n : Nat} {calls : List Nat}

/-- The function that the line at an index calls. -/
def calledAt (p : Program) (i : Nat) : Option Text :=
  p.lines[i]?.bind fun line => (Statement.ofLine line).function?

/-- The functions of pending calls, from the innermost on. The outermost call may have come from
outside the program, and is of the function `outer` then. -/
def functionsOf (p : Program) (outer : Option Text) : (calls : List Nat) → List (Option Text)
  | [] => []
  | call :: calls =>
    (if calls = [] then outer.or (p.calledAt call) else p.calledAt call) ::
      p.functionsOf outer calls

@[simp] theorem length_functionsOf (p : Program) (outer : Option Text) (calls : List Nat) :
    (p.functionsOf outer calls).length = calls.length := by
  induction calls with
  | nil => rfl
  | cons call calls ih => simp [functionsOf, ih]

/-- The rows that are pending behind a call when it returns. -/
def behindCall (p : Program) (target : Option Nat) (call : Nat) (calls : List Nat) : List Row :=
  if target = some calls.length then [] else p.pending target (call + 1) calls

/-- **Pending calls had more to perform than is left.** Here `n` rows are left; each call, when it
was made, had at least as many to perform, and more than that call had which it is pending for. -/
def Frames (p : Program) (target : Option Nat) (outer : Option Text) :
    (n : Nat) → (calls : List Nat) → Prop
  | _, [] => True
  | n, call :: calls =>
    ∃ function definition total,
      (p.functionsOf outer (call :: calls)).head? = some (some function) ∧
      p.functions.get? function = some definition ∧
      Takes p (p.body definition ++ p.behindCall target call calls) total ∧ n ≤ total ∧
      p.Frames target outer (total + 1) calls

theorem Frames.mono {n' : Nat} (h : p.Frames target outer n calls) (hle : n' ≤ n) :
    p.Frames target outer n' calls := by
  cases calls with
  | nil => trivial
  | cons call calls =>
    obtain ⟨function, definition, total, hhead, hf, htakes, hn, hrest⟩ := h
    exact ⟨function, definition, total, hhead, hf, htakes, Nat.le_trans hle hn, hrest⟩

/-- Returning from the innermost calls leaves the others as they are. -/
theorem Frames.of_suffix {calls' : List Nat} (h : p.Frames target outer n calls)
    (hsuffix : calls' <:+ calls) : p.Frames target outer n calls' := by
  induction calls generalizing n with
  | nil =>
    rw [List.suffix_nil.mp hsuffix]
    trivial
  | cons call calls ih =>
    rcases List.suffix_cons_iff.mp hsuffix with rfl | hsuffix
    · exact h
    · obtain ⟨_, _, total, -, -, -, hn, hrest⟩ := h
      exact (ih hrest hsuffix).mono (by omega)

/-- Every pending call is of a defined function. -/
theorem Frames.defined (h : p.Frames target outer n calls) :
    ∀ x ∈ p.functionsOf outer calls, ∃ function definition, x = some function ∧
      p.functions.get? function = some definition := by
  induction calls generalizing n with
  | nil => exact fun x hx => absurd hx List.not_mem_nil
  | cons call calls ih =>
    obtain ⟨function, definition, total, hhead, hf, -, -, hrest⟩ := h
    intro x hx
    rcases List.mem_cons.mp hx with rfl | hx
    · exact ⟨function, definition, Option.some.inj hhead, hf⟩
    · exact ih hrest x hx

/-- What a pending call has to perform: its body, and behind it rows that are still to come behind
every call further inside. -/
theorem Frames.takes (htarget : ∀ k, target ≠ some (k + 1))
    (h : p.Frames target outer n calls) {function : Text} {definition : Nat}
    (hmem : some function ∈ p.functionsOf outer calls)
    (hf : p.functions.get? function = some definition) :
    ∃ a b, Takes p (p.body definition) a ∧ n ≤ a + b ∧
      ∀ call total, Takes p (p.behindCall target call calls) total → b ≤ total := by
  induction calls generalizing n with
  | nil => exact absurd hmem List.not_mem_nil
  | cons call calls ih =>
    obtain ⟨function', definition', total, hhead, hf', htakes, hn, hrest⟩ := h
    -- behind a call further inside come the rest of its body and what comes behind this call
    have hbehind : ∀ call', p.behindCall target call' (call :: calls) =
        p.blockFrom (call' + 1) ++ p.behindCall target call calls := by
      intro call'
      have hne : target ≠ some (call :: calls).length := htarget calls.length
      rw [behindCall, if_neg hne]
      rfl
    rcases List.mem_cons.mp hmem with heq | hmem
    · obtain rfl : function = function' := Option.some.inj (heq.trans (Option.some.inj hhead))
      obtain rfl : definition = definition' := Option.some.inj (hf.symm.trans hf')
      obtain ⟨a, b, ha, hb, rfl⟩ := htakes.split
      refine ⟨a, b, ha, hn, fun call' total' h' => ?_⟩
      rw [hbehind] at h'
      obtain ⟨_, b', -, hb', rfl⟩ := h'.split
      rw [hb.unique hb']
      omega
    · obtain ⟨a, b, ha, hab, hrows⟩ := ih hrest hmem
      refine ⟨a, b, ha, by omega, fun call' total' h' => ?_⟩
      rw [hbehind] at h'
      obtain ⟨_, b', -, hb', rfl⟩ := h'.split
      have hle := hrows call b' hb'
      omega

/-- **The functions of pending calls are different.** A second call of a function would have to
perform the same body, and no fewer rows behind it, but has fewer rows left. -/
theorem Frames.nodup (htarget : ∀ k, target ≠ some (k + 1))
    (h : p.Frames target outer n calls) : (p.functionsOf outer calls).Nodup := by
  induction calls generalizing n with
  | nil => exact List.nodup_nil
  | cons call calls ih =>
    obtain ⟨function, definition, total, hhead, hf, htakes, hn, hrest⟩ := h
    refine List.nodup_cons.mpr ⟨fun hmem => ?_, ih hrest⟩
    rw [Option.some.inj hhead] at hmem
    obtain ⟨a, b, ha, hab, hrows⟩ := hrest.takes htarget hmem hf
    obtain ⟨a', b', ha', hb', rfl⟩ := htakes.split
    have hle := hrows call b' hb'
    have heq := ha.unique ha'
    omega

theorem Frames.length_le (htarget : ∀ k, target ≠ some (k + 1))
    (h : p.Frames target outer n calls) : calls.length ≤ p.functions.size := by
  -- different names, and all of them are in the index
  have hsubset : p.functionsOf outer calls ⊆ p.functions.entries.map fun entry => some entry.1 := by
    intro x hx
    obtain ⟨function, definition, rfl, hf⟩ := h.defined x hx
    exact List.mem_map.mpr ⟨_, Table.mem_entries_of_get? hf, rfl⟩
  have hle := (List.subperm_of_subset (h.nodup htarget) hsubset).length_le
  rwa [length_functionsOf, List.length_map] at hle

end Program

/-! ## Machines between two steps -/

namespace Machine

variable {p : Program} {outer : Option Text} {opts : Options} {m : Machine}

/-- The functions of the pending calls, from the innermost on. -/
def pendingFunctions (m : Machine) (outer : Option Text) : List (Option Text) :=
  m.program.functionsOf outer m.calls.items

/-- A machine that has only so many rows to perform, and fewer than each pending call had when it
was made. -/
structure Bounded (p : Program) (outer : Option Text) (m : Machine) : Prop where
  ready : m.Ready
  program_eq : m.program = p
  /-- At most the outermost call is waited for, -/
  target_ne : ∀ k, m.returnDepth ≠ some (k + 1)
  /-- and only then it has come from outside. -/
  outer_eq : m.returnDepth = none → outer = none
  frames : ∃ n, Takes p m.pending n ∧ p.Frames m.returnDepth outer n m.calls.items

/-- The same of a machine that has performed a statement and is about to move on. -/
structure BoundedBehind (p : Program) (outer : Option Text) (m : Machine) : Prop where
  nested : m.program.Nested m.returnDepth m.calls.items
  skipped : m.calls.items ≠ [] → m.program.lines[m.pc]?.any Line.isSkipped = true
  program_eq : m.program = p
  target_ne : ∀ k, m.returnDepth ≠ some (k + 1)
  outer_eq : m.returnDepth = none → outer = none
  frames : ∃ n, Takes p m.pendingBehind n ∧ p.Frames m.returnDepth outer n m.calls.items

theorem Bounded.count (hm : m.Bounded p outer) (n : Nat) :
    Bounded p outer { m with steps := n } :=
  ⟨⟨hm.ready.nested, hm.ready.indented⟩, hm.program_eq, hm.target_ne, hm.outer_eq, hm.frames⟩

/-- Moving on keeps a machine bounded: the calls that are left are some of those before. -/
theorem BoundedBehind.advance (hm : m.BoundedBehind p outer) (h : m.advance.halted = false) :
    Bounded p outer m.advance.machine := by
  obtain ⟨hhalted, -⟩ | ⟨-, -, hready, hpending, -, -⟩ := advance_spec hm.nested hm.skipped
  · rw [h] at hhalted
    cases hhalted
  · obtain ⟨n, htakes, hframes⟩ := hm.frames
    have hmoves := m.advance_moves
    generalize m.advance = next at h hready hpending hmoves
    cases hmoves with
    | arrived => cases h
    | finished => cases h
    | moved hpc hcalls =>
      refine ⟨hready, hm.program_eq, hm.target_ne, hm.outer_eq, n, ?_, hframes.of_suffix hcalls⟩
      rw [hpending]
      exact htakes

section Statements

variable {line : Text} {definition pc : Nat}

/-- **A call adds a frame**: it leaves fewer rows to perform than any pending call had. -/
theorem Bounded.enter (hm : m.Bounded p outer) (hskip : m.skipDefinitions.1 = { m with pc := pc })
    (hline : p.lines[pc]? = some line) (henter : p.entered? ⟨pc, line⟩ = some definition) :
    ∃ n, Takes p ({ m with pc := pc }.enter definition).pendingBehind n ∧
      p.Frames m.returnDepth outer n (pc :: m.calls.items) := by
  obtain ⟨⟨hready, hpending, -, -⟩, hdef⟩ := skipDefinitions_spec hm.ready
  obtain ⟨n, htakes, hframes⟩ := hm.frames
  obtain ⟨function, hfunction, hf⟩ := Option.bind_eq_some_iff.mp henter
  obtain rfl := hm.program_eq
  rw [hskip] at hready hpending hdef
  rw [hline] at hdef
  -- the row of the call is the first pending one
  rw [← hpending, pending_of_some hready hline hdef] at htakes
  cases htakes with
  | plain hrow => cases hrow.symm.trans henter
  | @call _ _ _ n hrow htakes =>
    cases hrow.symm.trans henter
    have hcalled : m.program.calledAt pc = some function := by
      simpa [Program.calledAt, hline] using hfunction
    refine ⟨n, by rwa [pendingBehind_enter hready], function, definition, n, ?_, hf, ?_,
      Nat.le_refl n, hframes⟩
    · by_cases hcalls : m.calls.items = []
      · have hnone : m.returnDepth = none := by
          have hnested := hm.ready.nested
          rwa [hcalls] at hnested
        simp [Program.functionsOf, hcalls, hm.outer_eq hnone, hcalled]
      · simp [Program.functionsOf, hcalls, hcalled]
    · -- a call from inside is never the one that is waited for
      have hne : m.returnDepth ≠ some m.calls.items.length := hm.ready.nested.ne_length
      rw [Program.behindCall, if_neg hne]
      exact htakes

/-- A statement that enters nothing leaves one row less. -/
theorem Bounded.update (hm : m.Bounded p outer) (hskip : m.skipDefinitions.1 = { m with pc := pc })
    (hline : p.lines[pc]? = some line) (hrow : p.entered? ⟨pc, line⟩ = none) :
    ∃ n, Takes p { m with pc := pc }.pendingBehind n ∧
      p.Frames m.returnDepth outer n m.calls.items := by
  obtain ⟨⟨hready, hpending, -, -⟩, hdef⟩ := skipDefinitions_spec hm.ready
  obtain ⟨n, htakes, hframes⟩ := hm.frames
  obtain rfl := hm.program_eq
  rw [hskip] at hready hpending hdef
  rw [hline] at hdef
  rw [← hpending, pending_of_some hready hline hdef] at htakes
  cases htakes with
  | call hrow' => cases hrow.symm.trans hrow'
  | plain _ htakes => exact ⟨_, htakes, hframes.mono (Nat.le_succ _)⟩

/-- **Performing a statement keeps a machine bounded.** -/
theorem Bounded.perform (hp : p.IndexesDefinitions) (hm : m.Bounded p outer) {m' : Machine}
    {events : List Event} (hline : m.program.lines[m.skipDefinitions.1.pc]? = some line)
    (h : m.skipDefinitions.1.perform opts (Statement.ofLine line) = .ok (m', events)) :
    BoundedBehind p outer m' := by
  obtain ⟨⟨hready, -, -, -⟩, -⟩ := skipDefinitions_spec hm.ready
  obtain ⟨pc, hskip⟩ := m.skipDefinitions_eq
  obtain rfl := hm.program_eq
  rw [hskip] at hready hline h
  obtain ⟨hnested, hskipped⟩ := nested_of_perform (m := { m with pc := pc }) hp hready h
  obtain ⟨s, ha, rfl⟩ | ⟨definition, ha, rfl⟩ := action_of_perform h
  · exact ⟨hnested, hskipped, rfl, hm.target_ne, hm.outer_eq,
      hm.update hskip hline (Program.entered?_of_update ha)⟩
  · exact ⟨hnested, hskipped, rfl, hm.target_ne, hm.outer_eq,
      hm.enter hskip hline (Program.entered?_of_enter ha)⟩

end Statements

/-- **A step keeps a machine bounded.** -/
theorem Bounded.step (hp : p.IndexesDefinitions) (hm : m.Bounded p outer)
    (h : (m.step opts).result = .ok false) : Bounded p outer (m.step opts).state := by
  have hpasses := passes_of_running h
  generalize (m.step opts).state = next at hpasses
  cases hpasses with
  | intro m' hline hperform hrunning hmachine =>
    have hnext := (hm.perform hp hline hperform).advance hrunning
    rw [hmachine] at hnext
    exact hnext.count _

/-- A machine stays bounded for as long as it goes on. -/
theorem Bounded.proceed (hp : p.IndexesDefinitions) (hm : m.Bounded p outer) {k : Nat}
    (h : (m.proceed opts k).result = .ok false) : Bounded p outer (m.proceed opts k).state := by
  induction k generalizing m with
  | zero => exact hm
  | succ k ih =>
    by_cases hstep : (m.step opts).result = .ok false
    · rw [proceed_succ_of_running hstep] at h ⊢
      exact ih (hm.step hp hstep) h
    · rw [proceed_succ_of_ended hstep] at h
      exact absurd h hstep

/-! ## Executions that end well -/

section Launches

variable {text : Text} {start : Machine} {r : Reply Machine Unit} {fuel : Nat}

/-- A loop that ends well has only so many rows to perform. -/
theorem takes_of_loop {s : Store} {rows : List Row} (hlimit : opts.stepLimit = 0)
    (hp : p.IndexesDefinitions) (hm : Resumes p s rows m) (h : loop opts fuel m = some r)
    (hok : r.result = .ok ()) : ∃ n, Takes p rows n := by
  obtain ⟨e, he, hresult⟩ := (simulates_resumes hlimit hp).unrolled hm h
  cases e with
  | done s' => exact he.takes
  | failed row fault => cases hok.symm.trans hresult

/-- A run from rest begins bounded, if it ends well. -/
theorem bounded_run (hlimit : opts.stepLimit = 0) (hp : m.program.IndexesDefinitions)
    (hpc : m.pc = 0) (hcalls : m.calls = .empty)
    (h : loop opts fuel { m with steps := 0, returnDepth := none } = some r)
    (hok : r.result = .ok ()) :
    Bounded m.program none { m with steps := 0, returnDepth := none } := by
  have hresumes := resumes_of_idle hpc hcalls
  obtain ⟨n, htakes⟩ := takes_of_loop hlimit hp hresumes h hok
  refine ⟨hresumes.ready, rfl, fun k hk => (by cases hk), fun _ => rfl, n, ?_, ?_⟩
  · rwa [hresumes.pending_eq]
  · rw [hcalls]
    trivial

/-- An immediate call from rest enters its function bounded, if it ends well: its own frame is the
outermost one. -/
theorem boundedBehind_call {function : Text} {definition : Nat} (hlimit : opts.stepLimit = 0)
    (hp : m.program.IndexesDefinitions) (hcalls : m.calls = .empty)
    (hf : m.program.functions.get? function = some definition)
    (h : m.callNow opts fuel function = some r) (hok : r.result = .ok ()) :
    BoundedBehind m.program (some function) (m.enterNow definition) := by
  have hnested := m.nested_enterNow definition
  have hskipped : m.program.lines[definition]?.any Line.isSkipped = true :=
    Program.any_isSkipped_of_isDefinition (hp function definition hf)
  -- an empty body takes no rows, and any other one is what the loop performs
  have htakes : ∃ n, Takes m.program (m.enterNow definition).pendingBehind n := by
    obtain ⟨-, hnone⟩ | ⟨hrunning, -, hresumes⟩ :=
      advance_spec (m := m.enterNow definition) hnested fun _ => hskipped
    · exact ⟨0, hnone ▸ .nil⟩
    · rw [callNow_of_running hf hrunning] at h
      obtain ⟨r', hloop, rfl⟩ := Option.map_eq_some_iff.mp h
      exact takes_of_loop hlimit hp hresumes hloop hok
  obtain ⟨n, htakes⟩ := htakes
  have hitems : m.calls.items = [] := congrArg Stack.items hcalls
  refine ⟨hnested, fun _ => hskipped, rfl, fun k hk => ?_, fun hnone => (by cases hnone), n,
    htakes, function, definition, n, ?_, hf, htakes, Nat.le_refl n, ?_⟩
  · simp [enterNow, depth, hcalls] at hk
  · simp [Program.functionsOf, hitems]
  · rw [hitems]
    trivial

/-- A submission that ends well begins its loop bounded. -/
theorem Launches.bounded (hlimit : opts.stepLimit = 0) (hp : m.program.IndexesDefinitions)
    (hpc : m.pc = 0) (hcalls : m.calls = .empty) (hlaunch : m.Launches text start)
    (h : m.submit opts fuel text = some r) (hok : r.result = .ok ()) :
    Bounded m.program (Statement.ofLine text).function? start := by
  cases hlaunch with
  | run =>
    obtain ⟨r', hloop, rfl⟩ := Option.map_eq_some_iff.mp h
    exact bounded_run hlimit hp hpc hcalls hloop hok
  | call hc hl hs hf hrunning =>
    rw [submit_eq_callNow hc hl hs] at h
    rw [hs]
    exact (boundedBehind_call hlimit hp hcalls hf h hok).advance hrunning

/-- The machines that a submission goes through, wherever a call may have become pending. -/
inductive Visits (opts : Options) (m : Machine) (text : Text) : Machine → Prop
  /-- The called function is just entered. -/
  | called {function : Text} {definition : Nat} (hc : ModeCommand.ofText? text = none)
      (hl : m.loading = false) (hs : Statement.ofLine text = .call function)
      (hf : m.program.functions.get? function = some definition) :
      Visits opts m text (m.enterNow definition)
  /-- Some steps are taken, and there are more to come. -/
  | between {start m' : Machine} {k : Nat} {events : List Event} (h : m.Launches text start)
      (hsteps : start.proceed opts k = ⟨m', events, .ok false⟩) : Visits opts m text m'
  /-- In the next step, a function is just entered. -/
  | entered {start m' : Machine} {k : Nat} {events : List Event} (h : m.Launches text start)
      (hsteps : start.proceed opts k = ⟨m', events, .ok false⟩) {line function : Text}
      {definition : Nat} (hline : m'.program.lines[m'.skipDefinitions.1.pc]? = some line)
      (hs : Statement.ofLine line = .call function)
      (hf : m'.program.functions.get? function = some definition) :
      Visits opts m text (m'.skipDefinitions.1.enter definition)

/-- **Recursion does not end**: a run or an immediate call from rest that comes to its end without
a failure has at no point two calls of the same function pending, and never more calls than there
are functions. -/
theorem pending_functions_distinct {redefine : Bool} (hp : m.program.Loaded redefine)
    (hlimit : opts.stepLimit = 0) (hpc : m.pc = 0) (hcalls : m.calls = .empty)
    (hr : m.Answers opts text r) (hok : r.result = .ok ()) :
    ∀ m', m.Visits opts text m' →
      (m'.pendingFunctions (Statement.ofLine text).function?).Nodup ∧
      (∀ x ∈ m'.pendingFunctions (Statement.ofLine text).function?,
        ∃ function definition, x = some function ∧
          m.program.functions.get? function = some definition) ∧
      m'.depth ≤ m.program.functions.size := by
  have hindex := hp.indexesDefinitions
  -- it suffices to have the frames
  suffices hframes : ∀ m', m.Visits opts text m' →
      m'.program = m.program ∧ (∀ k, m'.returnDepth ≠ some (k + 1)) ∧
      ∃ n, m.program.Frames m'.returnDepth (Statement.ofLine text).function? n m'.calls.items by
    intro m' hvisit
    obtain ⟨hprogram, htarget, n, hn⟩ := hframes m' hvisit
    unfold pendingFunctions
    rw [hprogram]
    refine ⟨hn.nodup htarget, hn.defined, ?_⟩
    rw [depth, ← m'.calls.size_eq]
    exact hn.length_le htarget
  obtain ⟨fuel, hr⟩ := hr
  have hbounded : ∀ {start m' : Machine} {k : Nat} {events : List Event},
      m.Launches text start → start.proceed opts k = ⟨m', events, .ok false⟩ →
      m'.Bounded m.program (Statement.ofLine text).function? := by
    intro start m' k events hlaunch hsteps
    have hstart := hlaunch.bounded hlimit hindex hpc hcalls hr hok
    have hnext := hstart.proceed hindex (congrArg Reply.result hsteps)
    rwa [hsteps] at hnext
  intro m' hvisit
  cases hvisit with
  | called hc hl hs hf =>
    rw [submit_eq_callNow hc hl hs] at hr
    rw [hs]
    have hbehind := boundedBehind_call hlimit hindex hcalls hf hr hok
    obtain ⟨n, -, hn⟩ := hbehind.frames
    exact ⟨rfl, hbehind.target_ne, n, hn⟩
  | between hlaunch hsteps =>
    have hm' := hbounded hlaunch hsteps
    obtain ⟨n, -, hn⟩ := hm'.frames
    exact ⟨hm'.program_eq, hm'.target_ne, n, hn⟩
  | @entered start m' k events hlaunch hsteps line function definition hline hs hf =>
    have hm' := hbounded hlaunch hsteps
    obtain ⟨pc, hskip⟩ := m'.skipDefinitions_eq
    rw [hskip] at hline ⊢
    rw [hm'.program_eq] at hline hf
    have henter : m.program.entered? ⟨pc, line⟩ = some definition := by
      simp [Program.entered?, hs, Statement.function?, hf]
    obtain ⟨n, -, hn⟩ := hm'.enter hskip hline henter
    exact ⟨hm'.program_eq, hm'.target_ne, n, hn⟩

/-- A function that calls another one. -/
def nestedLines : List Text :=
  [utf8 "def f", utf8 " set a 1", utf8 " call g", utf8 "def g", utf8 " print a"]

/-- Both calls are pending when the inner body is reached, and there are two functions. -/
theorem nested_functions_distinct :
    ∃ m r m', (Machine.initial.load {} nestedLines).state = m ∧ m.Answers {} (utf8 "call f") r ∧
      r.result = .ok () ∧ m.Visits {} (utf8 "call f") m' ∧
      m'.pendingFunctions (some (utf8 "f")) = [some (utf8 "g"), some (utf8 "f")] ∧
      (m'.pendingFunctions (some (utf8 "f"))).Nodup ∧ m'.depth ≤ m.program.functions.size := by
  have hp : (Machine.initial.load {} nestedLines).state.program.Loaded false :=
    .load .empty (rfl : Program.empty.load false nestedLines = .ok _)
  obtain ⟨r, hr, hok⟩ : ∃ r, (Machine.initial.load {} nestedLines).state.submit {} 3
      (utf8 "call f") = some r ∧ r.result = .ok () := ⟨_, rfl, rfl⟩
  obtain ⟨start, hlaunch, m', events, hsteps, hpending⟩ : ∃ start,
      (Machine.initial.load {} nestedLines).state.Launches (utf8 "call f") start ∧
      ∃ m' events, start.proceed {} 2 = ⟨m', events, .ok false⟩ ∧
        m'.pendingFunctions (some (utf8 "f")) = [some (utf8 "g"), some (utf8 "f")] :=
    ⟨_, .call rfl rfl rfl (rfl : _ = some 0) rfl, _, _, rfl, rfl⟩
  have hvisit := Visits.between hlaunch hsteps
  obtain ⟨hnodup, -, hdepth⟩ := pending_functions_distinct hp rfl rfl rfl ⟨3, hr⟩ hok m' hvisit
  exact ⟨_, r, m', rfl, ⟨3, hr⟩, hok, hvisit, hpending, hnodup, hdepth⟩

end Launches

end Machine

end LineScript

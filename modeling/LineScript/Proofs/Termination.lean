import LineScript.Proofs.Recursion
import Mathlib.Order.WellFoundedSet

/-!
# Programs without recursion end

Whether a program comes to its end is a matter of its calls. The functions are finitely many, so if
none of them reaches itself, going from a function to the functions that its body calls is
well-founded. By induction along these calls every body takes some number of rows to perform, and
so does the walk down the table. A loop performs one row in each step, unless it fails before, so
the same number bounds its steps, whatever the variables are.

## Main definitions

* `Program.Calls`: the body of one function calls another
* `Program.Nonrecursive`: no function reaches itself by such calls

## Main results

* `Program.Nonrecursive.takes`: without recursion all rows take some number of rows to perform
* `Machine.loop_of_takes`: a loop takes at most one step more than there are rows to perform
* `Machine.nonrecursive_terminates`: without recursion and without a step limit, runs and immediate
  calls come to their end
-/

namespace LineScript

theorem Statement.eq_call_of_function? {statement : Statement} {function : Text}
    (h : statement.function? = some function) : statement = .call function := by
  cases statement with
  | call called => rw [Option.some.inj h]
  | _ => cases h

/-- A text that calls a function is no mode command. -/
theorem ModeCommand.ofText?_of_call {text function : Text}
    (h : Statement.ofLine text = .call function) : ModeCommand.ofText? text = none := by
  cases hc : ModeCommand.ofText? text with
  | none => rfl
  | some c =>
    rw [ModeCommand.eq_wording_of_ofText? hc] at h
    cases c <;> cases h

/-! ## Calls between functions -/

namespace Program

/-- The body of one function calls another one, which is defined. -/
def Calls (p : Program) (caller callee : Text) : Prop :=
  ∃ definition target, p.functions.get? caller = some definition ∧
    p.functions.get? callee = some target ∧
    ∃ row ∈ p.body definition, Statement.ofLine row.text = .call callee

/-- No function reaches itself by calls from bodies. -/
def Nonrecursive (p : Program) : Prop :=
  ∀ function, ¬ Relation.TransGen p.Calls function function

variable {p : Program}

/-- A program whose calls go down in some rank has no recursion. -/
theorem nonrecursive_of_rank (rank : Text → Nat)
    (h : ∀ caller callee, p.Calls caller callee → rank callee < rank caller) :
    p.Nonrecursive := by
  have hdown : ∀ caller callee, Relation.TransGen p.Calls caller callee →
      rank callee < rank caller := by
    intro caller callee hreach
    induction hreach with
    | single hcall => exact h _ _ hcall
    | tail _ hcall ih => exact Nat.lt_trans (h _ _ hcall) ih
  intro function hself
  exact Nat.lt_irrefl _ (hdown function function hself)

theorem finite_defined (p : Program) : {name | p.functions.get? name ≠ none}.Finite := by
  refine Set.Finite.subset (List.finite_toSet (p.functions.entries.map Prod.fst)) ?_
  intro name hname
  obtain ⟨definition, hf⟩ := Option.ne_none_iff_exists'.mp hname
  exact List.mem_map.mpr ⟨_, Table.mem_entries_of_get? hf, rfl⟩

/-- **Going from a function to the functions that it reaches is well-founded**, without recursion:
the functions are finitely many. -/
theorem Nonrecursive.wellFoundedOn (h : p.Nonrecursive) :
    {name | p.functions.get? name ≠ none}.WellFoundedOn
      fun callee caller => Relation.TransGen p.Calls caller callee := by
  have hstrict : IsStrictOrder Text fun callee caller => Relation.TransGen p.Calls caller callee :=
    { irrefl := h
      trans := fun _ _ _ hab hbc => hbc.trans hab }
  exact p.finite_defined.wellFoundedOn

end Program

/-! ## Rows without recursion -/

section Takes

variable {p : Program} {rows xs ys : List Row} {row : Row}

theorem Program.entered?_eq_some {definition : Nat} (h : p.entered? row = some definition) :
    ∃ function, Statement.ofLine row.text = .call function ∧
      p.functions.get? function = some definition := by
  obtain ⟨function, hfunction, hf⟩ := Option.bind_eq_some_iff.mp h
  exact ⟨function, Statement.eq_call_of_function? hfunction, hf⟩

/-- Rows take together what their two parts take. -/
theorem Takes.append {a b : Nat} (hx : Takes p xs a) (hy : Takes p ys b) :
    Takes p (xs ++ ys) (a + b) := by
  induction hx with
  | nil =>
    rw [Nat.zero_add]
    exact hy
  | plain hrow _ ih =>
    rw [Nat.succ_add]
    exact .plain hrow ih
  | call hrow _ ih =>
    rw [Nat.succ_add]
    rw [List.append_assoc] at ih
    exact .call hrow ih

/-- Rows take some number of rows if the bodies that they enter do. -/
theorem takes_of_bodies
    (h : ∀ row ∈ rows, ∀ definition, p.entered? row = some definition →
      ∃ n, Takes p (p.body definition) n) :
    ∃ n, Takes p rows n := by
  induction rows with
  | nil => exact ⟨0, .nil⟩
  | cons row rows ih =>
    obtain ⟨hrow, hrows⟩ := List.forall_mem_cons.mp h
    obtain ⟨n, hn⟩ := ih hrows
    cases hentered : p.entered? row with
    | none => exact ⟨n + 1, .plain hentered hn⟩
    | some definition =>
      -- the body comes in the place of the row that enters it
      obtain ⟨k, hk⟩ := hrow definition hentered
      exact ⟨k + n + 1, .call hentered (hk.append hn)⟩

/-- The body of a function takes some number of rows, if there is no recursion. -/
theorem Program.Nonrecursive.takes_body (h : p.Nonrecursive) {function : Text} {definition : Nat}
    (hf : p.functions.get? function = some definition) : ∃ n, Takes p (p.body definition) n := by
  have hdefined : p.functions.get? function ≠ none := Option.ne_none_iff_exists'.mpr ⟨_, hf⟩
  -- the induction goes from a function to those that it reaches
  refine h.wellFoundedOn.induction (P := fun caller => ∀ definition,
    p.functions.get? caller = some definition → ∃ n, Takes p (p.body definition) n) hdefined ?_
    definition hf
  intro caller _ ih definition hcaller
  apply takes_of_bodies
  intro row hrow target hentered
  obtain ⟨callee, hcall, hcallee⟩ := Program.entered?_eq_some hentered
  have hcalls : p.Calls caller callee := ⟨definition, target, hcaller, hcallee, row, hrow, hcall⟩
  have hdefined : p.functions.get? callee ≠ none := Option.ne_none_iff_exists'.mpr ⟨_, hcallee⟩
  exact ih callee hdefined (.single hcalls) target hcallee

/-- **Without recursion all rows take some number of rows to perform.** -/
theorem Program.Nonrecursive.takes (h : p.Nonrecursive) (rows : List Row) :
    ∃ n, Takes p rows n := by
  apply takes_of_bodies
  intro row _ definition hentered
  obtain ⟨function, -, hf⟩ := Program.entered?_eq_some hentered
  exact h.takes_body hf

end Takes

/-! ## Loops that end -/

namespace Machine

variable {opts : Options} {p : Program} {m : Machine} {s : Store} {rows : List Row} {n : Nat}

/-- A loop ends behind a step if it ends with the rows that the step leaves. -/
theorem loop_of_continues {fuel : Nat} (hr : Continues (Resumes p) s rows (m.step opts))
    (hloop : ∀ m', Resumes p s rows m' → ∃ r, loop opts fuel m' = some r) :
    ∃ r, loop opts (fuel + 1) m = some r := by
  rcases hr with ⟨hhalted, -⟩ | ⟨hrunning, hresumes⟩
  · exact ⟨_, loop_of_halted hhalted fuel⟩
  · obtain ⟨r, hr⟩ := hloop _ hresumes
    refine ⟨r.after (m.step opts).events, ?_⟩
    rw [loop_of_running hrunning, hr, Option.map_some]

/-- **A loop takes at most one step more than there are rows to perform.** A step performs the
first of them or fails, and the last step finds that none are left. -/
theorem loop_of_takes (hlimit : opts.stepLimit = 0) (hp : p.IndexesDefinitions)
    (h : Takes p rows n) (hm : Resumes p s rows m) : ∃ r, loop opts (n + 1) m = some r := by
  induction h generalizing m s with
  | nil =>
    cases step_spec hlimit hp hm with
    | halted hresult => exact ⟨_, loop_of_halted hresult 0⟩
  | plain hrow _ ih =>
    cases step_spec hlimit hp hm with
    | refused _ hresult => exact ⟨_, loop_of_error hresult _⟩
    | updated _ hr => exact loop_of_continues hr fun _ => ih
    | entered ha => cases hrow.symm.trans (Program.entered?_of_enter ha)
  | call hrow _ ih =>
    cases step_spec hlimit hp hm with
    | refused _ hresult => exact ⟨_, loop_of_error hresult _⟩
    | updated ha => cases hrow.symm.trans (Program.entered?_of_update ha)
    | entered ha hr =>
      cases hrow.symm.trans (Program.entered?_of_enter ha)
      exact loop_of_continues hr fun _ => ih

/-- A run from rest ends when the walk down the table takes so many rows. -/
theorem submit_run_of_takes (hlimit : opts.stepLimit = 0) (hp : m.program.IndexesDefinitions)
    (h : Takes m.program (mainRows m.program.rows) n) (hpc : m.pc = 0) (hcalls : m.calls = .empty) :
    ∃ r, m.submit opts (n + 1) ModeCommand.run.wording = some r := by
  obtain ⟨r, hr⟩ := loop_of_takes hlimit hp h (resumes_of_idle hpc hcalls)
  rw [submit_run, run, hr]
  exact ⟨_, rfl⟩

/-- An immediate call ends when the body of its function takes so many rows. -/
theorem callNow_of_takes {function : Text} {definition : Nat} (hlimit : opts.stepLimit = 0)
    (hp : m.program.IndexesDefinitions)
    (hf : m.program.functions.get? function = some definition)
    (h : Takes m.program (m.program.body definition) n) :
    ∃ r, m.callNow opts (n + 1) function = some r := by
  have hskipped : m.program.lines[definition]?.any Line.isSkipped = true :=
    Program.any_isSkipped_of_isDefinition (hp function definition hf)
  -- a call of a function without a body is over before its first step
  obtain ⟨hhalted, -⟩ | ⟨hrunning, -, hresumes⟩ :=
    advance_spec (m := m.enterNow definition) (m.nested_enterNow definition) fun _ => hskipped
  · exact ⟨_, callNow_of_halted hf hhalted⟩
  · rw [pendingBehind_enterNow] at hresumes
    obtain ⟨r, hr⟩ := loop_of_takes hlimit hp h hresumes
    rw [callNow_of_running hf hrunning, hr]
    exact ⟨_, rfl⟩

/-- **Programs without recursion end.** If no function reaches itself by calls, a run from rest and
an immediate call of a defined function come to their end without a step limit. The number of
steps that suffices depends on the program and on the function only, not on the variables. -/
theorem nonrecursive_terminates {redefine : Bool} (hp : p.Loaded redefine) (h : p.Nonrecursive)
    (hlimit : opts.stepLimit = 0) :
    (∃ fuel, ∀ m : Machine, m.program = p → m.pc = 0 → m.calls = .empty →
      ∃ r, m.submit opts fuel ModeCommand.run.wording = some r) ∧
    ∀ text function, Statement.ofLine text = .call function →
      p.functions.get? function ≠ none →
      ∃ fuel, ∀ m : Machine, m.program = p → m.loading = false →
        ∃ r, m.submit opts fuel text = some r := by
  have hindex := hp.indexesDefinitions
  constructor
  · obtain ⟨n, hn⟩ := h.takes (mainRows p.rows)
    refine ⟨n + 1, ?_⟩
    rintro m rfl hpc hcalls
    exact submit_run_of_takes hlimit hindex hn hpc hcalls
  · intro text function hs hdefined
    obtain ⟨definition, hf⟩ := Option.ne_none_iff_exists'.mp hdefined
    obtain ⟨n, hn⟩ := h.takes_body hf
    refine ⟨n + 1, ?_⟩
    rintro m rfl hloading
    rw [submit_eq_callNow (ModeCommand.ofText?_of_call hs) hloading hs]
    exact callNow_of_takes hlimit hindex hf hn

/-- Two functions, of which one calls the other twice, and a walk that calls both. -/
def ladderLines : List Text :=
  [utf8 "def f", utf8 " call g", utf8 " call g", utf8 "def g", utf8 " print a", utf8 "call f",
    utf8 "call g"]

/-- Whatever the variables are, the walk and a call of the first function come to their end. -/
theorem ladder_terminates :
    ∃ p, Program.empty.load false ladderLines = .ok p ∧ p.Nonrecursive ∧
      p.Calls (utf8 "f") (utf8 "g") ∧
      ∀ s : Store, ∃ r r',
        Answers {} { Machine.initial with program := p, store := s } ModeCommand.run.wording r ∧
        Answers {} { Machine.initial with program := p, store := s } (utf8 "call f") r' := by
  obtain ⟨p, hp, hentries, hfirst, hsecond, hf, hg⟩ : ∃ p,
      Program.empty.load false ladderLines = .ok p ∧
      p.functions.entries = [(utf8 "f", 0), (utf8 "g", 3)] ∧
      p.body 0 = [⟨1, utf8 " call g"⟩, ⟨2, utf8 " call g"⟩] ∧ p.body 3 = [⟨4, utf8 " print a"⟩] ∧
      p.functions.get? (utf8 "f") = some 0 ∧ p.functions.get? (utf8 "g") = some 3 :=
    ⟨_, rfl, rfl, rfl, rfl, rfl, rfl⟩
  have hcalls : p.Calls (utf8 "f") (utf8 "g") :=
    ⟨0, 3, hf, hg, ⟨1, utf8 " call g"⟩, by simp [hfirst], rfl⟩
  -- only the first function calls anything
  have hrank : ∀ caller callee, p.Calls caller callee → caller = utf8 "f" ∧ callee = utf8 "g" := by
    rintro caller callee ⟨definition, target, hcaller, -, row, hrow, hcall⟩
    have hentry := Table.mem_entries_of_get? hcaller
    rw [hentries] at hentry
    simp only [List.mem_cons, Prod.mk.injEq, List.not_mem_nil, or_false] at hentry
    rcases hentry with ⟨rfl, rfl⟩ | ⟨rfl, rfl⟩
    · rw [hfirst] at hrow
      simp only [List.mem_cons, List.not_mem_nil, or_false] at hrow
      rcases hrow with rfl | rfl <;> cases hcall <;> exact ⟨rfl, rfl⟩
    · rw [hsecond, List.mem_singleton] at hrow
      subst hrow
      cases hcall
  have hnonrecursive : p.Nonrecursive := by
    refine Program.nonrecursive_of_rank (fun name => if name = utf8 "f" then 1 else 0) ?_
    intro caller callee hcall
    obtain ⟨rfl, rfl⟩ := hrank caller callee hcall
    decide
  obtain ⟨⟨fuel, hrun⟩, hcall⟩ := nonrecursive_terminates (.load .empty hp) hnonrecursive
    (rfl : ({} : Options).stepLimit = 0)
  obtain ⟨fuel', hcall⟩ := hcall (utf8 "call f") (utf8 "f") rfl (by simp [hf])
  refine ⟨p, hp, hnonrecursive, hcalls, fun s => ?_⟩
  obtain ⟨r, hr⟩ := hrun { Machine.initial with program := p, store := s } rfl rfl rfl
  obtain ⟨r', hr'⟩ := hcall { Machine.initial with program := p, store := s } rfl rfl
  exact ⟨r, r', ⟨fuel, hr⟩, ⟨fuel', hr'⟩⟩

end Machine

end LineScript

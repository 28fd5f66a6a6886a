import LineScript.Proofs.SingleSteps

/-!
# Executing a program again by single steps

The step that brings a program to its end clears the variables, the pending calls and the count of
steps, and is then counted itself. So the next pass over the program, if it is made by single steps,
begins with one step counted already. It cannot be told from the first pass unless the first pass
has used up the step limit exactly: then the last step of the next one is refused. A run counts
anew and has no such last step.

## Main results

* `Machine.afterSteps_of_halted`: a pass leaves a machine at rest with one step counted
* `Machine.pass_repeats`: a pass within the limit is followed by the same steps as at first
* `Machine.pass_exceeds_limit`: a pass that has used up the limit is followed by one that exceeds it
* `Machine.second_pass_same_iff`: when the steps of a pass may be made again
-/

namespace LineScript

namespace Machine

variable {opts : Options} {m : Machine} {k l : Nat}

/-! ## The end of a pass -/

/-- Steps that succeed go on, or one of them is the first to end execution. -/
theorem AllOk.first_halted (h : AllOk (m.singleSteps opts k)) :
    AllRunning (m.singleSteps opts k) ∨
      ∃ l < k, AllRunning (m.singleSteps opts l) ∧
        ((m.afterSteps opts l).step opts).result = .ok true := by
  induction k with
  | zero => exact Or.inl fun _ hr => absurd hr List.not_mem_nil
  | succ k ih =>
    rcases ih (h.of_le (Nat.le_succ k)) with hrunning | ⟨l, hl, hfirst⟩
    · rw [singleSteps_succ] at h
      obtain ⟨halted, hlast⟩ := h _ (List.mem_append_right _ (List.mem_singleton_self _))
      cases halted with
      | true => exact Or.inr ⟨k, Nat.lt_succ_self k, hrunning, hlast⟩
      | false => exact Or.inl (allRunning_succ.mpr ⟨hrunning, hlast⟩)
    · exact Or.inr ⟨l, Nat.lt_succ_of_lt hl, hfirst⟩

/-- **A pass leaves a machine at rest with one step counted**: the last one. -/
theorem afterSteps_of_halted (hm : m.returnDepth = none)
    (h : ((m.afterSteps opts l).step opts).result = .ok true) :
    m.afterSteps opts (l + 1) = { m.reset with steps := 1 } := by
  rw [afterSteps_succ, step_rest (returnDepth_afterSteps hm) h,
    reset_eq_of_code (code_afterSteps opts l m)]

/-- A fresh machine is at rest and has counted nothing. -/
theorem Fresh.reset_eq (hm : m.Fresh opts) : m.reset = m := by
  obtain ⟨-, heq⟩ := hm.spec
  rw [heq]
  rfl

/-! ## The next pass -/

/-- The steps of a pass before its last one are within the limit. -/
theorem limit_of_halted (hm : m.reset = m) (hrunning : AllRunning (m.singleSteps opts l))
    (h : ((m.afterSteps opts l).step opts).result = .ok true) :
    opts.stepLimit = 0 ∨ l < opts.stepLimit := by
  have hsteps : m.steps = 0 := congrArg Machine.steps hm.symm
  have hfree := isSpent_of_ok h
  rwa [isSpent_eq, Options.isSpentAt_eq_false_iff, steps_afterSteps hrunning, hsteps,
    Nat.zero_add] at hfree

/-- The next pass begins with the same steps, up to the last one. -/
theorem pass_begins_same (hm : m.reset = m) (hrunning : AllRunning (m.singleSteps opts l))
    (hlimit : opts.stepLimit = 0 ∨ l < opts.stepLimit) :
    ({ m with steps := 1 }.singleSteps opts l).map shown = (m.singleSteps opts l).map shown ∧
      AllRunning ({ m with steps := 1 }.singleSteps opts l) ∧
      (m.afterSteps opts l).SameControl ({ m with steps := 1 }.afterSteps opts l) ∧
      ({ m with steps := 1 }.afterSteps opts l).store = (m.afterSteps opts l).store := by
  have hsteps : m.steps = 0 := congrArg Machine.steps hm.symm
  refine @singleSteps_same opts m { m with steps := 1 } l opts.stepLimit opts.stepLimit rfl rfl
    (fun i hi => ?_) hrunning
  -- neither count reaches the limit before the last step
  change opts.isSpentAt (1 + i) = opts.isSpentAt (m.steps + i)
  rw [Options.isSpentAt_eq_false_iff.mpr (by omega), Options.isSpentAt_eq_false_iff.mpr (by omega)]

/-- **A pass within the limit is followed by the same steps as at first.** From the end of the next
pass on, both machines are the same. -/
theorem pass_repeats (hm : m.reset = m) (hrunning : AllRunning (m.singleSteps opts l))
    (hhalted : ((m.afterSteps opts l).step opts).result = .ok true) (hne : l + 1 ≠ opts.stepLimit)
    (k : Nat) :
    ({ m with steps := 1 }.singleSteps opts k).map shown = (m.singleSteps opts k).map shown := by
  have hlimit := limit_of_halted hm hrunning hhalted
  have hsteps : m.steps = 0 := congrArg Machine.steps hm.symm
  have htarget : m.returnDepth = none := congrArg Machine.returnDepth hm.symm
  rcases Nat.lt_or_ge l k with hlt | hle
  · obtain ⟨d, rfl⟩ := Nat.exists_eq_add_of_le hlt
    obtain ⟨hshown, hrunning', hcontrol, hstore⟩ := pass_begins_same hm hrunning hlimit
    have hreply : SameReply ((m.afterSteps opts l).step opts)
        (({ m with steps := 1 }.afterSteps opts l).step opts) := by
      refine step_same opts opts.stepLimit opts.stepLimit hcontrol hstore ?_
      change Options.isSpentAt opts _ = Options.isSpentAt opts _
      rw [steps_afterSteps hrunning, steps_afterSteps hrunning',
        Options.isSpentAt_eq_false_iff.mpr (by simp only; omega),
        Options.isSpentAt_eq_false_iff.mpr (by omega)]
    have hend : m.afterSteps opts (l + 1) = { m with steps := 1 }.afterSteps opts (l + 1) := by
      rw [afterSteps_of_halted htarget hhalted, afterSteps_of_halted
        (m := { m with steps := 1 }) htarget (hreply.result.trans hhalted)]
      rfl
    rw [singleSteps_add, singleSteps_add, singleSteps_succ, singleSteps_succ, hend]
    simp only [List.map_append, List.map_singleton, hshown, hreply.shown_eq]
  · exact (pass_begins_same hm (hrunning.of_le hle) (by omega)).1

/-- **A pass that has used up the limit is followed by one that exceeds it** in its last step. -/
theorem pass_exceeds_limit (hm : m.reset = m) (hrunning : AllRunning (m.singleSteps opts l))
    (hlimit : l + 1 = opts.stepLimit) :
    (({ m with steps := 1 }.afterSteps opts l).step opts).result =
      .error (m.afterSteps opts l).limitFailure := by
  obtain ⟨-, hrunning', hcontrol, -⟩ := pass_begins_same hm hrunning (by omega)
  have hspent : ({ m with steps := 1 }.afterSteps opts l).isSpent opts = true := by
    rw [isSpent_eq, steps_afterSteps hrunning']
    simp only [Options.isSpentAt, Bool.and_eq_true, decide_eq_true_eq]
    omega
  have hfailure : ({ m with steps := 1 }.afterSteps opts l).limitFailure =
      (m.afterSteps opts l).limitFailure := by
    rw [hcontrol]
    rfl
  obtain ⟨-, hfail⟩ | ⟨hfree, -⟩ := ({ m with steps := 1 }.afterSteps opts l).step_acts opts
  · rw [hfail, ← hfailure]
    rfl
  · rw [hspent] at hfree
    cases hfree

/-- If the steps go on behind a pass that has used up the limit, then they do not end another
pass. -/
theorem not_halted_behind_limit (hm : m.reset = m) (hrunning : AllRunning (m.singleSteps opts l))
    (hlimit : l + 1 = opts.stepLimit)
    (hok : AllOk ({ m with steps := 1 }.singleSteps opts (k + 1))) :
    (({ m with steps := 1 }.afterSteps opts k).step opts).result ≠ .ok true := by
  rcases Nat.lt_or_ge k l with hlt | hle
  · -- the step is one of those before the last one
    obtain ⟨-, hrunning', -⟩ := pass_begins_same hm hrunning (by omega)
    obtain ⟨-, hgoes⟩ := allRunning_succ.mp (hrunning'.of_le hlt)
    rw [hgoes]
    simp
  · -- the step that exceeds the limit would have been among them
    have hok' := hok.of_le (Nat.succ_le_succ hle)
    rw [singleSteps_succ] at hok'
    obtain ⟨halted, hlast⟩ := hok' _ (List.mem_append_right _ (List.mem_singleton_self _))
    rw [pass_exceeds_limit hm hrunning hlimit] at hlast
    cases hlast

/-- A pass that ends with the `k`-th step has used up the limit exactly: no step before the last one
has ended execution, and there are as many as the limit allows. -/
def UsesUp (opts : Options) (k : Nat) (m : Machine) : Prop :=
  k = opts.stepLimit ∧ AllRunning (m.singleSteps opts (k - 1))

/-- **When the steps of a pass may be made again.** A fresh machine takes `k` single steps, none of
which fails, and the last one ends execution. The next `k` steps report and write the same, one by
one, exactly if these have not used up the step limit. If they have, the next steps are the same up
to the last one, and this one is refused for the limit at the line where the `k`-th step was
made. -/
theorem second_pass_same_iff (hm : m.Fresh opts) (hok : AllOk (m.singleSteps opts k))
    (hlast : (m.singleSteps opts k).getLast?.map Reply.result = some (.ok true)) :
    (((m.afterSteps opts k).singleSteps opts k).map shown = (m.singleSteps opts k).map shown ↔
      ¬ m.UsesUp opts k) ∧
    (m.UsesUp opts k →
      ((m.afterSteps opts k).singleSteps opts (k - 1)).map shown =
          (m.singleSteps opts (k - 1)).map shown ∧
        (((m.afterSteps opts k).afterSteps opts (k - 1)).step opts).result =
          .error (m.afterSteps opts (k - 1)).limitFailure) := by
  have hrest := hm.reset_eq
  have htarget : m.returnDepth = none := congrArg Machine.returnDepth hrest.symm
  cases k with
  | zero => cases hlast
  | succ k =>
    have hhalted : ((m.afterSteps opts k).step opts).result = .ok true := by
      rw [singleSteps_succ, List.getLast?_append, List.getLast?_singleton] at hlast
      exact Option.some.inj hlast
    -- behind the `k + 1` steps the machine is at rest, with one step counted
    have hafter : m.afterSteps opts (k + 1) = { m with steps := 1 } := by
      rw [afterSteps_of_halted htarget hhalted, hrest]
    rw [hafter, Nat.add_sub_cancel]
    have hexceeds : m.UsesUp opts (k + 1) →
        ({ m with steps := 1 }.singleSteps opts k).map shown = (m.singleSteps opts k).map shown ∧
          (({ m with steps := 1 }.afterSteps opts k).step opts).result =
            .error (m.afterSteps opts k).limitFailure := by
      rintro ⟨hlimit, hrunning⟩
      rw [Nat.add_sub_cancel] at hrunning
      exact ⟨(pass_begins_same hrest hrunning (by omega)).1,
        pass_exceeds_limit hrest hrunning hlimit⟩
    refine ⟨⟨fun hsame huses => ?_, fun hfree => ?_⟩, hexceeds⟩
    · -- one last step fails and the other does not
      obtain ⟨-, hfails⟩ := hexceeds huses
      rw [singleSteps_succ, singleSteps_succ, List.map_append, List.map_append] at hsame
      have hstep := (List.append_inj' hsame rfl).2
      simp only [List.map_singleton, List.cons.injEq, and_true, shown, Prod.mk.injEq, hfails,
        hhalted] at hstep
      cases hstep.1
    · rcases hok.first_halted with hrunning | ⟨l, hl, hrunning, hfirst⟩
      · rw [(allRunning_succ.mp hrunning).2] at hhalted
        cases hhalted
      · refine pass_repeats hrest hrunning hfirst (fun hlimit => ?_) (k + 1)
        -- the first pass has used up the limit, so that no other can have ended
        rcases Nat.lt_or_eq_of_le (Nat.le_of_lt_succ hl) with hlt | rfl
        · obtain ⟨d, rfl⟩ := Nat.exists_eq_add_of_le hlt
          have hend := afterSteps_of_halted htarget hfirst
          rw [Nat.add_assoc, singleSteps_add, hend, hrest] at hok
          rw [afterSteps_add, hend, hrest] at hhalted
          exact not_halted_behind_limit hrest hrunning hlimit
            (fun r hr => hok r (List.mem_append_right _ hr)) hhalted
        · exact hfree ⟨hlimit, hrunning⟩

/-- A program of two lines, loaded under a limit of two steps. -/
def twoLines : Machine :=
  (Machine.initial.load { stepLimit := 2 } [utf8 "set a 1", utf8 "print a"]).state

/-- Two steps bring it to its end; of the next two, the second is refused. -/
theorem second_pass_of_twoLines :
    AllOk (twoLines.singleSteps { stepLimit := 2 } 2) ∧ twoLines.UsesUp { stepLimit := 2 } 2 ∧
      ((twoLines.afterSteps { stepLimit := 2 } 2).singleSteps { stepLimit := 2 } 2).map shown ≠
        (twoLines.singleSteps { stepLimit := 2 } 2).map shown ∧
      (((twoLines.afterSteps { stepLimit := 2 } 2).afterSteps { stepLimit := 2 } 1).step
        { stepLimit := 2 }).result =
          .error (.atLine 1 (utf8 "print a") (.fault (.bare .stepLimit))) := by
  have hok : AllOk (twoLines.singleSteps { stepLimit := 2 } 2) := by decide +kernel
  have huses : twoLines.UsesUp { stepLimit := 2 } 2 := ⟨rfl, List.forall_mem_singleton.mpr rfl⟩
  obtain ⟨hsame, hexceeds⟩ := second_pass_same_iff (.load .initial _) hok rfl
  exact ⟨hok, huses, fun h => hsame.mp h huses, (hexceeds huses).2.trans rfl⟩

end Machine

end LineScript

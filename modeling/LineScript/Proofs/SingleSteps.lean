import LineScript.Proofs.Positions

/-!
# Single steps

A program may be executed by single steps, without a run around them. Then there is nothing that
stops when execution is over: the next step begins anew. A step consults three things. The position
of control and the pending calls decide where control goes; the variables decide what is written
and whether the statement is refused; and the count of steps is compared with the step limit, and
matters for nothing else.

## Main definitions

* `Machine.runsOut`: moving control on from here leads behind the last line
* `Machine.SameControl`: two machines that differ in the variables and the count of steps only
* `Machine.singleSteps`, `Machine.afterSteps`: the replies of single steps, and where they lead
* `Machine.SameReply`: two replies that nothing but the log and the count of steps tells apart

## Main results

* `Machine.SameControl.advance`: where control moves depends on control only
* `Machine.step_same`: the count of steps matters to a step through the limit only
-/

namespace LineScript

/-- Is the step limit used up when so many steps have been counted? -/
def Options.isSpentAt (opts : Options) (steps : Nat) : Bool :=
  decide (0 < opts.stepLimit) && decide (opts.stepLimit ≤ steps)

theorem Options.isSpentAt_eq_false_iff {opts : Options} {steps : Nat} :
    opts.isSpentAt steps = false ↔ opts.stepLimit = 0 ∨ steps < opts.stepLimit := by
  simp only [isSpentAt, Bool.and_eq_false_iff, decide_eq_false_iff_not]
  omega

namespace Machine

variable {opts : Options} {m n : Machine}

/-! ## Moving on -/

/-- Where control lands that moves on from the line it is at. -/
def landing (m : Machine) : Landing :=
  unwind m.program m.returnDepth (m.pc + 1) m.calls

theorem advance_eq_land (m : Machine) : m.advance = m.land m.landing := rfl

/-- Moving on leads behind the last line. -/
def runsOut (m : Machine) : Bool :=
  !m.landing.arrived && decide (m.program.size ≤ m.landing.pc)

theorem advance_of_runsOut (h : m.runsOut = true) :
    m.advance.machine = m.reset ∧ m.advance.halted = true := by
  simp only [runsOut, Bool.and_eq_true, Bool.not_eq_true', decide_eq_true_eq] at h
  obtain ⟨ha, hend⟩ := h
  simp only [advance_eq_land, land, ha, Bool.false_eq_true, if_false, if_pos hend]
  exact ⟨rfl, trivial⟩

theorem advance_of_not_runsOut (h : m.runsOut = false) :
    m.advance.machine = { m with pc := m.landing.pc, calls := m.landing.calls } ∧
      m.advance.halted = m.landing.arrived := by
  rw [advance_eq_land, land]
  cases ha : m.landing.arrived with
  | true => exact ⟨rfl, rfl⟩
  | false =>
    have hinside : ¬ m.program.size ≤ m.landing.pc := by simpa [runsOut, ha] using h
    simp only [Bool.false_eq_true, if_false, if_neg hinside]
    exact ⟨trivial, trivial⟩

/-! ## What a step does -/

/-- A step is a cycle that is counted, unless the limit is used up. -/
theorem step_acts (opts : Options) (m : Machine) :
    m.isSpent opts = true ∧ m.step opts = .fail m m.limitFailure ∨
      m.isSpent opts = false ∧ ∃ r, m.Acts (m.upcoming? opts) r ∧
        m.step opts = r.mapState fun m => { m with steps := m.steps + 1 } := by
  unfold step
  split
  · next hspent => exact Or.inl ⟨hspent, rfl⟩
  · next hfree => exact Or.inr ⟨Bool.eq_false_iff.mpr hfree, _, m.cycle_acts opts, rfl⟩

/-- A step that succeeds is within the limit. -/
theorem isSpent_of_ok {halted : Bool} (h : (m.step opts).result = .ok halted) :
    m.isSpent opts = false := by
  obtain ⟨-, hfail⟩ | ⟨hfree, -⟩ := m.step_acts opts
  · rw [hfail] at h
    cases h
  · exact hfree

/-! ## The same control -/

/-- The same machine with other variables and another count of steps. -/
def withData (m : Machine) (s : Store) (count : Nat) : Machine :=
  { m with store := s, steps := count }

/-- Two machines that differ in the variables and in the count of steps only. -/
def SameControl (m n : Machine) : Prop := n = m.withData n.store n.steps

theorem SameControl.refl (m : Machine) : m.SameControl m := rfl

theorem SameControl.symm (h : m.SameControl n) : n.SameControl m := by
  rw [h]
  rfl

theorem SameControl.trans {l : Machine} (h : l.SameControl m) (h' : m.SameControl n) :
    l.SameControl n := by
  rw [h', h]
  rfl

theorem SameControl.program (h : m.SameControl n) : n.program = m.program := by
  rw [h]
  rfl

theorem SameControl.pc (h : m.SameControl n) : n.pc = m.pc := by
  rw [h]
  rfl

theorem SameControl.calls (h : m.SameControl n) : n.calls = m.calls := by
  rw [h]
  rfl

theorem SameControl.reset (h : m.SameControl n) : n.reset = m.reset := by
  rw [h]
  rfl

theorem SameControl.withStore (h : m.SameControl n) (s t : Store) :
    SameControl { m with store := s } { n with store := t } := by
  rw [h]
  rfl

theorem SameControl.enter (h : m.SameControl n) (definition : Nat) :
    (m.enter definition).SameControl (n.enter definition) := by
  rw [h]
  rfl

theorem skipDefinitions_withData (m : Machine) (s : Store) (count : Nat) :
    (m.withData s count).skipDefinitions =
      (m.skipDefinitions.1.withData s count, m.skipDefinitions.2) := by
  have hline : (m.withData s count).program.lines[(m.withData s count).pc]? =
      m.program.lines[m.pc]? := rfl
  simp only [skipDefinitions, hline]
  by_cases h : m.program.lines[m.pc]?.any Line.isDefinition = true
  · rw [if_pos h, if_pos h]
    rfl
  · rw [if_neg h, if_neg h]

/-- Passing over definitions changes neither the variables nor the count. -/
theorem skipDefinitions_data (m : Machine) :
    m.skipDefinitions.1.store = m.store ∧ m.skipDefinitions.1.steps = m.steps := by
  obtain ⟨pc, hskip⟩ := m.skipDefinitions_eq
  rw [hskip]
  exact ⟨rfl, rfl⟩

theorem SameControl.skipDefinitions (h : m.SameControl n) :
    m.skipDefinitions.1.SameControl n.skipDefinitions.1 := by
  rw [SameControl, n.skipDefinitions_data.1, n.skipDefinitions_data.2]
  conv_lhs => rw [h, skipDefinitions_withData]

/-- **Where control moves depends on control only**, and so does whether execution is over. What
the machines have in common besides stays common. -/
theorem SameControl.advance (h : m.SameControl n) :
    n.halts = m.halts ∧ m.advance.machine.SameControl n.advance.machine ∧
      (n.store = m.store → n.advance.machine.store = m.advance.machine.store) ∧
      (n.steps = m.steps → n.advance.machine.steps = m.advance.machine.steps) := by
  have hlanding : n.landing = m.landing := by
    rw [h]
    rfl
  have hout : n.runsOut = m.runsOut := by rw [runsOut, runsOut, hlanding, h.program]
  unfold halts
  cases hm : m.runsOut with
  | true =>
    obtain ⟨hmachine, hhalted⟩ := advance_of_runsOut hm
    obtain ⟨hmachine', hhalted'⟩ := advance_of_runsOut (hout.trans hm)
    rw [hmachine, hmachine', hhalted, hhalted', h.reset]
    exact ⟨rfl, .refl _, fun _ => rfl, fun _ => rfl⟩
  | false =>
    obtain ⟨hmachine, hhalted⟩ := advance_of_not_runsOut hm
    obtain ⟨hmachine', hhalted'⟩ := advance_of_not_runsOut (hout.trans hm)
    rw [hmachine, hmachine', hhalted, hhalted', hlanding]
    refine ⟨rfl, ?_, id, id⟩
    rw [SameControl, h]
    rfl

/-! ## One step after another -/

/-- The replies of single steps, one after another. -/
def singleSteps (opts : Options) : (count : Nat) → Machine → List (Reply Machine Bool)
  | 0, _ => []
  | count + 1, m => m.step opts :: (m.step opts).state.singleSteps opts count

/-- The machine after single steps. -/
def afterSteps (opts : Options) : (count : Nat) → Machine → Machine
  | 0, m => m
  | count + 1, m => (m.step opts).state.afterSteps opts count

section Sequence

variable {k l : Nat}

theorem afterSteps_add (opts : Options) (k l : Nat) (m : Machine) :
    m.afterSteps opts (k + l) = (m.afterSteps opts k).afterSteps opts l := by
  induction k generalizing m with
  | zero => rw [Nat.zero_add, afterSteps]
  | succ k ih => rw [Nat.succ_add, afterSteps, ih, afterSteps]

theorem singleSteps_add (opts : Options) (k l : Nat) (m : Machine) :
    m.singleSteps opts (k + l) =
      m.singleSteps opts k ++ (m.afterSteps opts k).singleSteps opts l := by
  induction k generalizing m with
  | zero => rw [Nat.zero_add, singleSteps, afterSteps, List.nil_append]
  | succ k ih => rw [Nat.succ_add, singleSteps, ih, singleSteps, afterSteps, List.cons_append]

theorem singleSteps_succ (opts : Options) (k : Nat) (m : Machine) :
    m.singleSteps opts (k + 1) = m.singleSteps opts k ++ [(m.afterSteps opts k).step opts] :=
  singleSteps_add opts k 1 m

theorem afterSteps_succ (opts : Options) (k : Nat) (m : Machine) :
    m.afterSteps opts (k + 1) = ((m.afterSteps opts k).step opts).state :=
  afterSteps_add opts k 1 m

/-- The replies are those of steps that succeed. -/
def AllOk (replies : List (Reply Machine Bool)) : Prop :=
  ∀ r ∈ replies, ∃ halted, r.result = .ok halted

instance (replies : List (Reply Machine Bool)) : Decidable (AllOk replies) :=
  decidable_of_iff (∀ r ∈ replies, r.result.isOk = true) <| forall₂_congr fun r _ => by
    cases r.result <;> simp [Except.isOk, Except.toBool]

theorem AllOk.of_le (h : AllOk (m.singleSteps opts l)) (hle : k ≤ l) :
    AllOk (m.singleSteps opts k) := by
  obtain ⟨d, rfl⟩ := Nat.exists_eq_add_of_le hle
  rw [singleSteps_add] at h
  intro r hr
  exact h r (List.mem_append_left _ hr)

/-- The replies are those of steps after which execution goes on. -/
def AllRunning (replies : List (Reply Machine Bool)) : Prop :=
  ∀ r ∈ replies, r.result = .ok false

theorem AllRunning.of_le (h : AllRunning (m.singleSteps opts l)) (hle : k ≤ l) :
    AllRunning (m.singleSteps opts k) := by
  obtain ⟨d, rfl⟩ := Nat.exists_eq_add_of_le hle
  rw [singleSteps_add] at h
  intro r hr
  exact h r (List.mem_append_left _ hr)

theorem allRunning_succ :
    AllRunning (m.singleSteps opts (k + 1)) ↔
      AllRunning (m.singleSteps opts k) ∧ ((m.afterSteps opts k).step opts).result = .ok false := by
  rw [singleSteps_succ, AllRunning, List.forall_mem_append, List.forall_mem_singleton]
  rfl

/-- The count of the steps after which execution goes on. -/
theorem steps_afterSteps (h : AllRunning (m.singleSteps opts k)) :
    (m.afterSteps opts k).steps = m.steps + k := by
  induction k with
  | zero => rfl
  | succ k ih =>
    obtain ⟨hbefore, hlast⟩ := allRunning_succ.mp h
    rw [afterSteps_succ, steps_of_running hlast, ih hbefore, Nat.add_assoc]

theorem code_afterSteps (opts : Options) (k : Nat) (m : Machine) :
    (m.afterSteps opts k).code = m.code := by
  induction k generalizing m with
  | zero => rfl
  | succ k ih => rw [afterSteps, ih, step_code]

theorem returnDepth_afterSteps (h : m.returnDepth = none) :
    (m.afterSteps opts k).returnDepth = none := by
  induction k generalizing m with
  | zero => exact h
  | succ k ih => exact ih (returnDepth_step h)

end Sequence

/-! ## What the count of steps matters for -/

theorem isSpent_eq (opts : Options) (m : Machine) : m.isSpent opts = opts.isSpentAt m.steps := rfl

/-- Two replies that nothing but the log and the count of steps tells apart. -/
structure SameReply (r r' : Reply Machine Bool) : Prop where
  result : r'.result = r.result
  output : Event.outputOf r'.events = Event.outputOf r.events
  control : r.state.SameControl r'.state
  store : r'.state.store = r.state.store

theorem actionOf_withLimit (opts : Options) (k k' : Nat) (m : Machine) (text : Text) :
    m.actionOf (opts.withLimit k') text = m.actionOf (opts.withLimit k) text := by
  unfold actionOf
  cases Statement.ofLine text <;> rfl

/-- Machines with the same variables come to the same row, and its action is the same. -/
theorem SameControl.upcoming?_eq (opts : Options) (h : m.SameControl n)
    (hstore : n.store = m.store) (k k' : Nat) :
    n.upcoming? (opts.withLimit k') = m.upcoming? (opts.withLimit k) := by
  have haction : ∀ line,
      n.actionOf (opts.withLimit k') line = m.actionOf (opts.withLimit k) line := by
    intro line
    rw [actionOf_withLimit opts k k', actionOf, h.program, hstore]
    rfl
  rw [upcoming?, upcoming?, h.program, h.skipDefinitions.pc]
  exact Option.map_congr fun line _ => congrArg _ (haction line)

/-- With the same variables, a cycle does the same whatever the count of steps is. -/
theorem cycle_same (opts : Options) (h : m.SameControl n) (hstore : n.store = m.store)
    (k k' : Nat) :
    SameReply (m.cycle (opts.withLimit k)) (n.cycle (opts.withLimit k')) := by
  have hskip := h.skipDefinitions
  have hstore' : n.skipDefinitions.1.store = m.skipDefinitions.1.store := by
    rw [n.skipDefinitions_data.1, m.skipDefinitions_data.1, hstore]
  have hm := m.cycle_acts (opts.withLimit k)
  have hn := n.cycle_acts (opts.withLimit k')
  rw [h.upcoming?_eq opts hstore k k'] at hn
  generalize m.upcoming? (opts.withLimit k) = row? at hm hn
  generalize m.cycle (opts.withLimit k) = r at hm
  generalize n.cycle (opts.withLimit k') = r' at hn
  cases hm with
  | finished hout =>
    cases hn with
    | finished hout' =>
      exact ⟨rfl, hout'.trans hout.symm, h.reset ▸ .refl _, congrArg Machine.store h.reset⟩
  | refused hout =>
    cases hn with
    | refused hout' => exact ⟨rfl, hout'.trans hout.symm, hskip, hstore'⟩
  | @updated _ s _ _ hout =>
    cases hn with
    | updated hout' =>
      obtain ⟨hhalts, hcontrol, hsame, -⟩ := (hskip.withStore s s).advance
      exact ⟨congrArg Except.ok hhalts, hout'.trans hout.symm, hcontrol, hsame rfl⟩
  | @entered _ definition _ hout =>
    cases hn with
    | entered hout' =>
      obtain ⟨hhalts, hcontrol, hsame, -⟩ := (hskip.enter definition).advance
      exact ⟨congrArg Except.ok hhalts, hout'.trans hout.symm, hcontrol, hsame hstore'⟩

/-- **The count of steps matters to a step through the limit only.** -/
theorem step_same (opts : Options) (k k' : Nat) (h : m.SameControl n)
    (hstore : n.store = m.store)
    (hspent : n.isSpent (opts.withLimit k') = m.isSpent (opts.withLimit k)) :
    SameReply (m.step (opts.withLimit k)) (n.step (opts.withLimit k')) := by
  unfold step
  rw [hspent]
  split
  · have hfail : n.limitFailure = m.limitFailure := by
      rw [h]
      rfl
    exact ⟨congrArg Except.error hfail, rfl, h, hstore⟩
  · obtain ⟨hresult, hout, hcontrol, hsame⟩ := cycle_same opts h hstore k k'
    refine ⟨hresult, hout, ?_, hsame⟩
    rw [SameControl, Reply.mapState_state, Reply.mapState_state, hcontrol]
    rfl

/-- What a step shows: its result and what it writes. -/
def shown (r : Reply Machine Bool) : Except Failure Bool × Text :=
  (r.result, Event.outputOf r.events)

theorem SameReply.shown_eq {r r' : Reply Machine Bool} (h : SameReply r r') :
    shown r' = shown r :=
  Prod.ext h.result h.output

/-- **Single steps show the same whatever is counted**, for as long as the limit, used up or not,
is the same for both. -/
theorem singleSteps_same {k l l' : Nat} (h : m.SameControl n) (hstore : n.store = m.store)
    (hspent : ∀ i < k, (opts.withLimit l').isSpentAt (n.steps + i) =
      (opts.withLimit l).isSpentAt (m.steps + i))
    (hrunning : AllRunning (m.singleSteps (opts.withLimit l) k)) :
    (n.singleSteps (opts.withLimit l') k).map shown =
        (m.singleSteps (opts.withLimit l) k).map shown ∧
      AllRunning (n.singleSteps (opts.withLimit l') k) ∧
      (m.afterSteps (opts.withLimit l) k).SameControl (n.afterSteps (opts.withLimit l') k) ∧
      (n.afterSteps (opts.withLimit l') k).store = (m.afterSteps (opts.withLimit l) k).store := by
  induction k with
  | zero => exact ⟨rfl, fun _ hr => absurd hr List.not_mem_nil, h, hstore⟩
  | succ k ih =>
    obtain ⟨hbefore, hlast⟩ := allRunning_succ.mp hrunning
    obtain ⟨hshown, hbefore', hcontrol, hsame⟩ :=
      ih (fun i hi => hspent i (Nat.lt_succ_of_lt hi)) hbefore
    -- so far both have counted `k` steps more
    have hreply := step_same opts l l' hcontrol hsame (by
      rw [isSpent_eq, isSpent_eq, steps_afterSteps hbefore, steps_afterSteps hbefore']
      exact hspent k (Nat.lt_succ_self k))
    refine ⟨?_, allRunning_succ.mpr ⟨hbefore', hreply.result.trans hlast⟩, ?_, ?_⟩
    · rw [singleSteps_succ, singleSteps_succ, List.map_append, List.map_append, hshown,
        List.map_singleton, List.map_singleton, hreply.shown_eq]
    · rw [afterSteps_succ, afterSteps_succ]
      exact hreply.control
    · rw [afterSteps_succ, afterSteps_succ]
      exact hreply.store

end Machine

end LineScript

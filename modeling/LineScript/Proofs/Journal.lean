import LineScript.Proofs.SingleSteps

/-!
# Values and their history

The variables of a machine are the outcome of the statements that have been performed since they
were cleared last, wherever these statements came from: from outside the program, from the lines of
a run, from the body of a called function. A journal keeps the statements in order, with the
variables that each of them has found. Read in unbounded integers, it says what the value of a
variable is; and 64 bits hold every value on the way, because values are never negative.

## Main definitions

* `Entry`: a statement that has been performed, or the clearing of all variables
* `Account`: the value of a variable, read off a journal in unbounded integers
* `Machine.stepEntries`, `Machine.loopEntries`, `Machine.submitEntries`: what execution enters
* `Machine.Journal`: the journal of all uses of a machine
* `Recorded`: variables that come about by the entries of a journal

## Main results

* `Store.Changes.has_iff`: what a statement makes of the values
* `account_concat`: what an entry makes of the account
* `Machine.Journal.recorded`: all variables come about by the entries
* `Machine.values_exact`: values are never negative, and are what the journal says
-/

namespace LineScript

/-! ## Numbers -/

/-- The difference of two values does not wrap when the second one is no larger. -/
theorem toInt_sub_of_le {a b : Int64} (hb : 0 ≤ b.toInt) (h : b.toInt ≤ a.toInt) :
    (a - b).toInt = a.toInt - b.toInt := by
  have hlt := a.toInt_lt
  rw [Int64.toInt_sub, Int.bmod_eq_of_le] <;> omega

/-- A number that 64 bits hold is the number that its word spells. -/
theorem Decimal.int?_of_int64? {word : Text} {n : Int64} (h : int64? word = some n) :
    int? word = some n.toInt := by
  simp only [int64?, Option.map_eq_some_iff, Option.filter_eq_some_iff, fits] at h
  obtain ⟨i, ⟨hi, hfits⟩, rfl⟩ := h
  simp only [Bool.and_eq_true, decide_eq_true_eq] at hfits
  rw [hi, Int64.toInt_ofInt_of_le] <;> omega

/-! ## What statements make of the values -/

namespace Statement

/-- Does the statement, when it is performed, put an end to the value that a variable had? -/
def ends (name : Text) : Statement → Prop
  | set name' _ => name' = name
  | rem name' => name' = name
  | _ => False

/-- What the statement takes off a variable. -/
def taken (name : Text) : Statement → Int
  | sub name' word => if name' = name then (Decimal.int? word).getD 0 else 0
  | _ => 0

end Statement

namespace Store

variable {s s' : Store} {statement : Statement} {name : Text} {x : Int}

/-- The variable has the value. -/
def Has (s : Store) (name : Text) (x : Int) : Prop := ∃ v, s.get? name = some v ∧ v.toInt = x

theorem has_insert {key : Text} {v : Int64} :
    Has (s.insert key v) name x ↔ key = name ∧ v.toInt = x ∨ key ≠ name ∧ s.Has name x := by
  by_cases h : key = name
  · simp [Has, h]
  · simp [Has, h, Ne.symm h]

theorem has_erase {key : Text} : Has (s.erase key) name x ↔ key ≠ name ∧ s.Has name x := by
  by_cases h : key = name
  · simp [Has, h]
  · simp [Has, h, Ne.symm h]

/-- All values are non-negative. -/
def NonNeg (s : Store) : Prop := ∀ name v, s.get? name = some v → 0 ≤ v.toInt

/-- **What a statement that is performed makes of the variables.** -/
inductive Changes (s : Store) : Statement → Store → Prop
  | set {name word : Text} {n : Int64} (hn : Decimal.int64? word = some n) (hpos : 0 < n.toInt) :
      Changes s (.set name word) (s.insert name n)
  | sub {name word : Text} {n current : Int64} (hn : Decimal.int64? word = some n)
      (hs : s.get? name = some current) (hnonneg : 0 ≤ n.toInt) (hle : n.toInt ≤ current.toInt) :
      Changes s (.sub name word) (s.insert name (current - n))
  | subMissing {name word : Text} (hs : s.get? name = none) : Changes s (.sub name word) s
  | rem {name : Text} : Changes s (.rem name) (s.erase name)
  | remMissing {name : Text} (hs : s.get? name = none) : Changes s (.rem name) s
  | blank : Changes s .blank s
  | print {name : Text} : Changes s (.print name) s
  | call {function : Text} : Changes s (.call function) s

/-- **Values stay non-negative.** -/
theorem Changes.nonNeg (h : s.Changes statement s') (hs : s.NonNeg) : s'.NonNeg := by
  intro name v hv
  cases h with
  | @set key word n hn hpos =>
    rw [Table.get?_insert] at hv
    split at hv
    · cases hv
      omega
    · exact hs name v hv
  | @sub key word n current hn hcurrent hnonneg hle =>
    rw [Table.get?_insert] at hv
    split at hv
    · -- no more is taken off than there is
      cases hv
      rw [toInt_sub_of_le hnonneg hle]
      omega
    · exact hs name v hv
  | rem =>
    rw [Table.get?_erase] at hv
    split at hv
    · cases hv
    · exact hs name v hv
  | _ => exact hs name v hv

/-- **What a statement makes of the values**, in unbounded integers: a new value, or the old one
with what is taken off. -/
theorem Changes.has_iff (h : s.Changes statement s') :
    s'.Has name x ↔
      (∃ word, statement = .set name word ∧ Decimal.int? word = some x) ∨
        ¬ statement.ends name ∧ s.Has name (x + statement.taken name) := by
  cases h with
  | @set key word n hn _ =>
    rw [has_insert]
    have hword := Decimal.int?_of_int64? hn
    by_cases hkey : key = name <;> simp [Statement.ends, Statement.taken, hkey, hword]
  | @sub key word n current hn hcurrent hnonneg hle =>
    rw [has_insert, toInt_sub_of_le hnonneg hle]
    have hword := Decimal.int?_of_int64? hn
    by_cases hkey : key = name
    · subst hkey
      have htaken : (Statement.sub key word).taken key = n.toInt := by
        simp [Statement.taken, hword]
      rw [htaken]
      constructor
      · rintro (⟨-, rfl⟩ | ⟨hne, -⟩)
        · exact Or.inr ⟨id, current, hcurrent, by omega⟩
        · exact absurd rfl hne
      · rintro (⟨_, hset, -⟩ | ⟨-, v, hv, hx⟩)
        · cases hset
        · rw [hcurrent] at hv
          cases hv
          exact Or.inl ⟨rfl, by omega⟩
    · simp [Statement.ends, Statement.taken, hkey]
  | @subMissing key word hs =>
    by_cases hkey : key = name
    · -- there is no value, however much is taken off
      subst hkey
      simp [Statement.ends, Has, hs]
    · simp [Statement.ends, Statement.taken, hkey]
  | @rem key =>
    rw [has_erase]
    simp [Statement.ends, Statement.taken]
  | @remMissing key hs =>
    by_cases hkey : key = name
    · subst hkey
      simp [Statement.ends, Has, hs]
    · simp [Statement.ends, Statement.taken, hkey]
  | _ => simp [Statement.ends, Statement.taken]

end Store

/-- **A statement is performed by such a change.** -/
theorem Statement.changes_of_update {opts : Options} {functions : Table Nat} {s s' : Store}
    {statement : Statement} {out : Text}
    (h : statement.action opts functions s = .update s' out) : s.Changes statement s' := by
  cases statement with
  | blank =>
    cases h
    exact .blank
  | set name word =>
    simp only [action] at h
    split at h
    · cases h
    · next n hn =>
      split at h
      · cases h
      · next hpos =>
        cases h
        exact .set hn (Int.not_le.mp hpos)
  | sub name word =>
    simp only [action] at h
    split at h
    · cases h
    · next hs =>
      cases h
      exact .subMissing hs
    · next n current hn hs =>
      split at h
      · cases h
      · next hnonneg =>
        unfold difference? at h
        by_cases hlt : current.toInt < n.toInt
        · rw [if_pos hlt] at h
          cases h
        · rw [if_neg hlt] at h
          cases h
          exact .sub hn hs (Int.not_lt.mp hnonneg) (Int.not_lt.mp hlt)
  | print name =>
    simp only [action] at h
    split at h <;> cases h <;> exact .print
  | rem name =>
    simp only [action] at h
    split at h
    · cases h
      exact .rem
    · next habsent =>
      cases h
      exact .remMissing (by simpa [Table.contains] using habsent)
  | call function =>
    simp only [action] at h
    split at h <;> cases h
  | incomplete keyword => cases h
  | unknown word => cases h

theorem Machine.changes_of_perform {opts : Options} {m m' : Machine} {statement : Statement}
    {events : List Event} (h : m.perform opts statement = .ok (m', events)) :
    m.store.Changes statement m'.store := by
  obtain ⟨s, ha, rfl⟩ | ⟨definition, ha, rfl⟩ := action_of_perform h
  · exact Statement.changes_of_update ha
  · obtain ⟨function, rfl, -⟩ := Statement.action_eq_enter ha
    exact .call

/-! ## Journals -/

/-- What may happen to the variables: a statement is performed, which has found some variables, or
all of them are cleared. -/
inductive Entry where
  | performed (found : Store) (statement : Statement)
  | cleared
  deriving DecidableEq, Repr

namespace Entry

/-- Does the entry put an end to the value that a variable had? -/
def ends (name : Text) : Entry → Prop
  | performed _ statement => statement.ends name
  | cleared => True

/-- What the entry takes off a variable. -/
def taken (name : Text) : Entry → Int
  | performed _ statement => statement.taken name
  | cleared => 0

/-- What all entries together take off a variable. -/
def totalTaken (name : Text) : List Entry → Int
  | [] => 0
  | e :: es => e.taken name + totalTaken name es

theorem totalTaken_concat (name : Text) (es : List Entry) (e : Entry) :
    totalTaken name (es ++ [e]) = totalTaken name es + e.taken name := by
  induction es with
  | nil => simp [totalTaken]
  | cons first es ih =>
    rw [List.cons_append, totalTaken, totalTaken, ih, Int.add_assoc]

end Entry

/-- **The value of a variable by the journal**, in unbounded integers: the number that it was set
to last, less the sum of what has been taken off since; there is none when the variable has been
removed since, or all have been cleared. -/
def Account (es : List Entry) (name : Text) (x : Int) : Prop :=
  ∃ before found word since n, es = before ++ .performed found (.set name word) :: since ∧
    Decimal.int? word = some n ∧ (∀ e ∈ since, ¬ e.ends name) ∧
    x = n - Entry.totalTaken name since

/-- An entry of a journal is its last one, or an entry of the journal before. -/
theorem concat_eq_append_cons {α : Type} {xs before since : List α} {a b : α}
    (h : xs ++ [b] = before ++ a :: since) :
    since = [] ∧ xs = before ∧ b = a ∨
      ∃ since', since = since' ++ [b] ∧ xs = before ++ a :: since' := by
  rcases List.eq_nil_or_concat since with rfl | ⟨since', last, rfl⟩
  · obtain ⟨hxs, hlast⟩ := List.append_inj' h rfl
    exact Or.inl ⟨rfl, hxs, List.singleton_inj.mp hlast⟩
  · rw [List.concat_eq_append, ← List.cons_append, ← List.append_assoc] at h
    obtain ⟨hxs, hlast⟩ := List.append_inj' h rfl
    refine Or.inr ⟨since', ?_, hxs⟩
    rw [List.concat_eq_append, hlast]

/-- **What an entry makes of the account.** -/
theorem account_concat {es : List Entry} {e : Entry} {name : Text} {x : Int} :
    Account (es ++ [e]) name x ↔
      (∃ found word, e = .performed found (.set name word) ∧ Decimal.int? word = some x) ∨
        ¬ e.ends name ∧ Account es name (x + e.taken name) := by
  constructor
  · rintro ⟨before, found, word, since, n, hes, hword, hsince, rfl⟩
    rcases concat_eq_append_cons hes with ⟨rfl, -, rfl⟩ | ⟨since, rfl, rfl⟩
    · exact Or.inl ⟨found, word, rfl, by simpa [Entry.totalTaken] using hword⟩
    · refine Or.inr ⟨hsince e (by simp), before, found, word, since, n, rfl, hword,
        fun e' he' => hsince e' (List.mem_append_left _ he'), ?_⟩
      rw [Entry.totalTaken_concat]
      omega
  · rintro (⟨found, word, rfl, hword⟩ |
      ⟨hends, before, found, word, since, n, rfl, hword, hsince, hx⟩)
    · exact ⟨es, found, word, [], x, rfl, hword, by simp, by simp [Entry.totalTaken]⟩
    · refine ⟨before, found, word, since ++ [e], n, by simp, hword, ?_, ?_⟩
      · simpa [or_imp, forall_and] using ⟨hsince, hends⟩
      · rw [Entry.totalTaken_concat]
        omega

/-- **Variables that come about by the entries**: none at first and none when they have been
cleared, and otherwise what a statement has made of those that it has found. -/
inductive Recorded : List Entry → Store → Prop
  | nothing : Recorded [] .empty
  | cleared {es : List Entry} {s : Store} (h : Recorded es s) :
      Recorded (es ++ [.cleared]) .empty
  | performed {es : List Entry} {s s' : Store} {statement : Statement} (h : Recorded es s)
      (hs : s.Changes statement s') : Recorded (es ++ [.performed s statement]) s'

theorem Recorded.nonNeg {es : List Entry} {s : Store} (h : Recorded es s) : s.NonNeg := by
  induction h with
  | nothing => intro name v hv; cases hv
  | cleared => intro name v hv; cases hv
  | performed _ hs ih => exact hs.nonNeg ih

/-- **Their values are what the journal says.** -/
theorem Recorded.has_iff {es : List Entry} {s : Store} (h : Recorded es s) {name : Text} {x : Int} :
    s.Has name x ↔ Account es name x := by
  induction h generalizing x with
  | nothing => simp [Store.Has, Account]
  | cleared => simp [Store.Has, account_concat, Entry.ends]
  | @performed es s s' statement _ hs ih =>
    -- the statement and its entry make the same of a value, unless it is set
    rw [hs.has_iff, account_concat, ih]
    refine or_congr ?_ Iff.rfl
    constructor
    · rintro ⟨word, rfl, hword⟩
      exact ⟨s, word, rfl, hword⟩
    · rintro ⟨found, word, he, hword⟩
      cases he
      exact ⟨word, rfl, hword⟩

/-- What a performed statement has found is recorded by the entries before it. -/
theorem Recorded.found {es before since : List Entry} {s found : Store} {statement : Statement}
    (h : Recorded es s) (hes : es = before ++ .performed found statement :: since) :
    Recorded before found ∧ ∃ s', found.Changes statement s' := by
  induction h generalizing since with
  | nothing => simp at hes
  | cleared _ ih =>
    rcases concat_eq_append_cons hes with ⟨-, -, he⟩ | ⟨since, -, rfl⟩
    · cases he
    · exact ih rfl
  | performed h hs ih =>
    rcases concat_eq_append_cons hes with ⟨-, rfl, he⟩ | ⟨since, -, rfl⟩
    · cases he
      exact ⟨h, _, hs⟩
    · exact ih rfl

namespace Machine

variable {opts : Options} {m : Machine} {es : List Entry} {fuel : Nat} {text : Text}

/-! ## What execution enters in the journal -/

/-- What is entered when control moves on: behind the last line the variables are cleared. -/
def advanceEntries (m : Machine) : List Entry := if m.runsOut then [.cleared] else []

/-- What a cycle enters. -/
def cycleEntries (opts : Options) (m : Machine) : List Entry :=
  match m.program.lines[m.skipDefinitions.1.pc]? with
  | none => [.cleared]
  | some line =>
    match m.skipDefinitions.1.perform opts (Statement.ofLine line) with
    | .error _ => []
    | .ok (m', _) => .performed m.store (Statement.ofLine line) :: m'.advanceEntries

/-- What a step enters: nothing when the limit is used up. -/
def stepEntries (opts : Options) (m : Machine) : List Entry :=
  if m.isSpent opts then [] else m.cycleEntries opts

/-- What a loop enters: what its steps enter, and that a failure clears the variables. -/
def loopEntries (opts : Options) : (fuel : Nat) → Machine → List Entry
  | 0, _ => []
  | fuel + 1, m =>
    m.stepEntries opts ++
      match (m.step opts).result with
      | .error _ => [.cleared]
      | .ok true => []
      | .ok false => loopEntries opts fuel (m.step opts).state

/-- What an immediate call enters. -/
def callEntries (opts : Options) (fuel : Nat) (m : Machine) (function : Text) : List Entry :=
  match m.program.functions.get? function with
  | none => []
  | some definition =>
    (m.enterNow definition).advanceEntries ++
      if (m.enterNow definition).advance.halted then []
      else loopEntries opts fuel (m.enterNow definition).advance.machine

/-- What a statement enters that is no call. -/
def performEntries (opts : Options) (m : Machine) (statement : Statement) : List Entry :=
  match m.perform opts statement with
  | .error _ => []
  | .ok _ => [.performed m.store statement]

/-- What a statement from outside the program enters. -/
def statementEntries (opts : Options) (fuel : Nat) (m : Machine) : Statement → List Entry
  | .call function => m.callEntries opts fuel function
  | statement => m.performEntries opts statement

/-- What a submission enters. -/
def submitEntries (opts : Options) (fuel : Nat) (m : Machine) (text : Text) : List Entry :=
  if text.isEmpty then []
  else
    match ModeCommand.ofText? text with
    | some .run => loopEntries opts fuel { m with steps := 0, returnDepth := none }
    | some _ => []
    | none => if m.loading then [] else m.statementEntries opts fuel (Statement.ofLine text)

/-- **The journal of all uses of a machine**: of its submissions, its single steps and its
resets. -/
inductive Journal (opts : Options) : Machine → List Entry → Prop
  | initial : Journal opts .initial []
  | submit {m : Machine} {es : List Entry} {fuel : Nat} {text : Text} {r : Reply Machine Unit}
      (hm : Journal opts m es) (h : m.submit opts fuel text = some r) :
      Journal opts r.state (es ++ m.submitEntries opts fuel text)
  | step {m : Machine} {es : List Entry} (hm : Journal opts m es) :
      Journal opts (m.step opts).state (es ++ m.stepEntries opts)
  | reset {m : Machine} {es : List Entry} (hm : Journal opts m es) :
      Journal opts m.reset (es ++ [.cleared])

theorem Reachable.exists_journal (hm : m.Reachable opts) : ∃ es, m.Journal opts es := by
  induction hm with
  | initial => exact ⟨[], .initial⟩
  | submit _ h ih =>
    obtain ⟨fuel, h⟩ := h
    obtain ⟨es, hes⟩ := ih
    exact ⟨_, hes.submit h⟩
  | step _ ih =>
    obtain ⟨es, hes⟩ := ih
    exact ⟨_, hes.step⟩
  | reset _ ih =>
    obtain ⟨es, hes⟩ := ih
    exact ⟨_, hes.reset⟩

theorem recorded_advance (h : Recorded es m.store) :
    Recorded (es ++ m.advanceEntries) m.advance.machine.store := by
  unfold advanceEntries
  cases hout : m.runsOut with
  | true =>
    rw [(advance_of_runsOut hout).1]
    exact h.cleared
  | false =>
    rw [(advance_of_not_runsOut hout).1]
    simpa using h

theorem recorded_cycle (h : Recorded es m.store) :
    Recorded (es ++ m.cycleEntries opts) (m.cycle opts).state.store := by
  have hcycle := m.cycle_cycles opts
  generalize m.cycle opts = r at hcycle
  cases hcycle with
  | finished hline =>
    rw [cycleEntries, hline]
    exact h.cleared
  | failed hline hfault =>
    simp only [cycleEntries, hline, hfault, List.append_nil]
    exact m.skipDefinitions_data.1 ▸ h
  | performed hline hperform =>
    have hchanges := changes_of_perform hperform
    rw [m.skipDefinitions_data.1] at hchanges
    simp only [cycleEntries, hline, hperform]
    rw [List.append_cons]
    exact recorded_advance (h.performed hchanges)

/-- **What a step does to the variables is in its entries.** -/
theorem recorded_step (h : Recorded es m.store) :
    Recorded (es ++ m.stepEntries opts) (m.step opts).state.store := by
  unfold stepEntries step
  split
  · rw [List.append_nil]
    exact h
  · exact recorded_cycle h

/-- **What a loop does to the variables is in its entries.** -/
theorem recorded_loop {r : Reply Machine Unit} (h : Recorded es m.store)
    (hr : loop opts fuel m = some r) : Recorded (es ++ loopEntries opts fuel m) r.state.store := by
  induction fuel generalizing m es r with
  | zero => cases hr
  | succ fuel ih =>
    have hstep : Recorded (es ++ m.stepEntries opts) (m.step opts).state.store := recorded_step h
    rw [loopEntries, ← List.append_assoc]
    cases hresult : (m.step opts).result with
    | error failure =>
      rw [loop_of_error hresult] at hr
      cases hr
      exact hstep.cleared
    | ok halted =>
      cases halted with
      | true =>
        rw [loop_of_halted hresult] at hr
        cases hr
        simpa using hstep
      | false =>
        rw [loop_of_running hresult, Option.map_eq_some_iff] at hr
        obtain ⟨r', hr', rfl⟩ := hr
        rw [Reply.after_state]
        exact ih hstep hr'

theorem recorded_callNow {r : Reply Machine Unit} {function : Text} (h : Recorded es m.store)
    (hr : m.callNow opts fuel function = some r) :
    Recorded (es ++ m.callEntries opts fuel function) r.state.store := by
  unfold callEntries
  cases hf : m.program.functions.get? function with
  | none =>
    simp only [callNow, hf, Option.some.injEq] at hr
    subst hr
    rw [List.append_nil]
    exact h
  | some definition =>
    have hentered : Recorded (es ++ (m.enterNow definition).advanceEntries)
        (m.enterNow definition).advance.machine.store := recorded_advance h
    dsimp only
    rw [← List.append_assoc]
    obtain ⟨note, ⟨rfl, hhalted⟩ | ⟨r', hr', rfl, hrunning⟩⟩ := callNow_cases hf hr
    · rw [if_pos hhalted, List.append_nil]
      exact hentered
    · rw [if_neg (by simp [hrunning])]
      have hlooped := recorded_loop hentered hr'
      exact hlooped

theorem recorded_performNow {r : Reply Machine Unit} {statement : Statement}
    (h : Recorded es m.store) (hr : m.performNow opts fuel statement = some r) :
    Recorded (es ++ m.statementEntries opts fuel statement) r.state.store := by
  by_cases hcall : ∃ function, statement = .call function
  · obtain ⟨function, rfl⟩ := hcall
    exact recorded_callNow h hr
  · have hcall' : ∀ function, statement ≠ .call function :=
      fun function hs => hcall ⟨function, hs⟩
    have hentries : m.statementEntries opts fuel statement = m.performEntries opts statement := by
      cases statement with
      | call function => exact absurd rfl (hcall' function)
      | _ => rfl
    rw [hentries, performEntries]
    cases hperform : m.perform opts statement with
    | error fault =>
      rw [performNow_of_error hcall' hperform] at hr
      cases hr
      rw [List.append_nil]
      exact h
    | ok performed =>
      rw [performNow_of_ok hcall' hperform] at hr
      cases hr
      exact h.performed (changes_of_perform hperform)

/-- **What a submission does to the variables is in its entries.** -/
theorem recorded_submit {r : Reply Machine Unit} (h : Recorded es m.store)
    (hr : m.submit opts fuel text = some r) :
    Recorded (es ++ m.submitEntries opts fuel text) r.state.store := by
  have hnothing : Recorded (es ++ []) m.store := by rwa [List.append_nil]
  unfold submitEntries
  unfold submit at hr
  split at hr
  · next hempty =>
    cases hr
    rwa [if_pos hempty]
  · next hempty =>
    rw [if_neg hempty]
    split at hr
    · next c hc =>
      rw [hc]
      cases c with
      | openCode =>
        cases hr
        exact hnothing
      | closeCode =>
        cases hr
        exact hnothing
      | run =>
        obtain ⟨r', hr', rfl⟩ := Option.map_eq_some_iff.mp hr
        have hlooped := recorded_loop (m := { m with steps := 0, returnDepth := none }) h hr'
        exact hlooped
    · next hc =>
      rw [hc]
      dsimp only
      split at hr
      · next hl =>
        cases hr
        rw [if_pos hl]
        rcases m.load_cases opts (blockLines text) with ⟨fault, hload⟩ | ⟨p, note, -, hload⟩ <;>
          rw [hload] <;> exact hnothing
      · next hl =>
        rw [if_neg hl]
        exact recorded_performNow h hr

/-- **All variables come about by the entries.** -/
theorem Journal.recorded (hm : m.Journal opts es) : Recorded es m.store := by
  induction hm with
  | initial => exact .nothing
  | submit _ h ih => exact recorded_submit ih h
  | step _ ih => exact recorded_step ih
  | reset _ ih => exact ih.cleared

/-- **Values are exact and never negative**, whatever a machine is used for. Every machine that can
be reached has a journal. Every value of a variable is between zero and the largest one that 64
bits hold, and is what the journal says in unbounded integers: the number that the variable was set
to last, less what has been taken off since. A variable that has none by the journal has no value.
Each subtraction on the way, in whatever body it was performed, found the value that the journal
gives up to there, and did not wrap. -/
theorem values_exact (opts : Options) :
    (∀ m, Reachable opts m → ∃ es, Journal opts m es) ∧
    ∀ m es, Journal opts m es →
      (∀ name v, m.store.get? name = some v → 0 ≤ v.toInt ∧ v.toInt ≤ 0x7FFFFFFFFFFFFFFF) ∧
      (∀ name x, (∃ v, m.store.get? name = some v ∧ v.toInt = x) ↔ Account es name x) ∧
      ∀ before since found name word current n,
        es = before ++ .performed found (.sub name word) :: since →
        found.get? name = some current → Decimal.int64? word = some n →
        Account before name current.toInt ∧ 0 ≤ (current - n).toInt ∧
          (current - n).toInt = current.toInt - n.toInt := by
  refine ⟨fun m hm => hm.exists_journal, fun m es hm => ?_⟩
  have hrecorded := hm.recorded
  refine ⟨fun name v hv => ⟨hrecorded.nonNeg name v hv, ?_⟩, fun name x => hrecorded.has_iff, ?_⟩
  · have hlt := v.toInt_lt
    omega
  · intro before since found name word current n hes hcurrent hn
    obtain ⟨hbefore, s', hchanges⟩ := hrecorded.found hes
    refine ⟨hbefore.has_iff.mp ⟨current, hcurrent, rfl⟩, ?_⟩
    -- the statement was performed, so its amount was checked
    cases hchanges with
    | sub hn' hcurrent' hnonneg hle =>
      rw [hn] at hn'
      rw [hcurrent] at hcurrent'
      cases hn'
      cases hcurrent'
      rw [toInt_sub_of_le hnonneg hle]
      exact ⟨by omega, rfl⟩
    | subMissing hmissing =>
      rw [hcurrent] at hmissing
      cases hmissing

/-- A function that takes two off a variable, which has been set to nine. -/
def charged : Machine :=
  { Machine.initial with
    program := ⟨#[utf8 "def f", utf8 " sub a 2"], Table.empty.insert (utf8 "f") 0⟩
    store := Table.empty.insert (utf8 "a") 9 }

/-- The function is called and leaves seven. -/
theorem values_of_charged :
    ∃ m es, Journal {} m es ∧ m.store.get? (utf8 "a") = some 7 ∧ Account es (utf8 "a") 7 ∧
      ∃ before, es = before ++ [.performed charged.store (.sub (utf8 "a") (utf8 "2"))] ∧
        Account before (utf8 "a") 9 ∧ (9 - 2 : Int64).toInt = 9 - 2 := by
  have hopened : Journal {} { Machine.initial with loading := true } [] :=
    .submit .initial (rfl : Machine.initial.submit _ 0 (utf8 "set code") = some _)
  have hloaded : Journal {} { charged with loading := true, store := .empty } [] :=
    .submit hopened (rfl : submit _ 0 _ (utf8 "def f\n sub a 2") = some _)
  have hclosed : Journal {} { charged with store := .empty } [] :=
    .submit hloaded (rfl : submit _ 0 _ (utf8 "end set code") = some _)
  have hset : Journal {} charged [.performed .empty (.set (utf8 "a") (utf8 "9"))] :=
    .submit hclosed (rfl : submit _ 0 _ (utf8 "set a 9") = some _)
  have hcalled : Journal {} { charged with store := Table.empty.insert (utf8 "a") 7, steps := 1 }
      [.performed .empty (.set (utf8 "a") (utf8 "9")),
        .performed charged.store (.sub (utf8 "a") (utf8 "2"))] :=
    .submit hset (rfl : submit _ 1 _ (utf8 "call f") = some _)
  obtain ⟨-, hvalues, hexact⟩ := (values_exact {}).2 _ _ hcalled
  obtain ⟨hbefore, -, hsub⟩ :=
    hexact [_] [] charged.store (utf8 "a") (utf8 "2") 9 2 rfl rfl rfl
  exact ⟨_, _, hcalled, rfl, (hvalues _ _).mp ⟨7, rfl, rfl⟩, [_], rfl, hbefore, hsub⟩

end Machine

end LineScript

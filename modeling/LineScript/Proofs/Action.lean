import LineScript.Machine.Perform

/-!
# What statements amount to

A statement has one of three effects: it changes the variables and writes something, it enters
the body of a function, or it is refused. Which one depends on the function index and on the
variables only, not on the position of control or on the pending calls.

## Main definitions

* `Action`: the three effects
* `Statement.action`: the effect of a statement, given functions and variables

## Main results

* `Machine.perform_spec`: a machine performs a statement by carrying out its action
* `Machine.action_of_perform`: nothing else can have been performed
-/

namespace LineScript

/-- The effect of a statement. -/
inductive Action where
  /-- The variables change, and some text is written. -/
  | update (store : Store) (output : Text)
  /-- Control goes to the body behind a definition. -/
  | enter (definition : Nat)
  /-- The statement is at fault. -/
  | refuse (fault : Fault)
  deriving DecidableEq, Repr

/-- What is written for a variable that has no value. -/
def Options.missingLine (opts : Options) : Text := opts.notFound ++ [Text.newline]

/-- **The effect of a statement**, given the functions and the variables. -/
def Statement.action (opts : Options) (functions : Table Nat) (s : Store) : Statement → Action
  | .blank => .update s []
  | .set name value =>
    match Decimal.int64? value with
    | none => .refuse (.notInteger value)
    | some n => if n.toInt ≤ 0 then .refuse (.notPositive n) else .update (s.insert name n) []
  | .sub name value =>
    match Decimal.int64? value, s.get? name with
    | none, _ => .refuse (.notInteger value)
    | some _, none => .update s opts.missingLine
    | some n, some current =>
      if n.toInt < 0 then .refuse (.negative n)
      else
        match difference? current n with
        | none => .refuse (.underflow name current n)
        | some rest => .update (s.insert name rest) []
  | .print name =>
    match s.get? name with
    | none => .update s opts.missingLine
    | some value => .update s (Decimal.ofInt value.toInt ++ [Text.newline])
  | .rem name =>
    if s.contains name then .update (s.erase name) [] else .update s opts.missingLine
  | .call function =>
    match functions.get? function with
    | none => .refuse (.undefinedFunction function)
    | some definition => .enter definition
  | .incomplete keyword => .refuse (.missingArguments keyword)
  | .unknown word => .refuse (.unknownCommand word)

/-- Only a call enters a function, and it enters the one that it names. -/
theorem Statement.action_eq_enter {opts : Options} {functions : Table Nat} {s : Store}
    {statement : Statement} {definition : Nat}
    (h : statement.action opts functions s = .enter definition) :
    ∃ function, statement = .call function ∧ functions.get? function = some definition := by
  cases statement with
  | call function =>
    refine ⟨function, rfl, ?_⟩
    simp only [action] at h
    split at h
    · cases h
    · next hf => rw [hf, Action.enter.inj h]
  | set name value => simp only [action] at h; split at h <;> (try split at h) <;> cases h
  | sub name value =>
    simp only [action] at h
    split at h
    · cases h
    · cases h
    · split at h
      · cases h
      · split at h <;> cases h
  | print name => simp only [action] at h; split at h <;> cases h
  | rem name => simp only [action] at h; split at h <;> cases h
  | blank => cases h
  | incomplete keyword => cases h
  | unknown word => cases h

namespace Machine

/-- Enters a function: the position of control is remembered. -/
def enter (m : Machine) (definition : Nat) : Machine :=
  { m with calls := m.calls.push m.pc, pc := definition }

@[simp] theorem outputOf_cons_note (n : Note) (events : List Event) :
    Event.outputOf (.note n :: events) = Event.outputOf events := rfl

@[simp] theorem outputOf_reportMissing (opts : Options) (name : Text) :
    Event.outputOf (reportMissing opts name) = opts.missingLine := by
  simp [reportMissing, Event.outputOf, Options.missingLine]

/-- How a machine carries out an action: the state it comes to and what it writes, or the fault
it reports. -/
def CarriesOut (m : Machine) (performed : Except Fault (Machine × List Event)) : Action → Prop
  | .update s out =>
    ∃ events, performed = .ok ({ m with store := s }, events) ∧ Event.outputOf events = out
  | .enter definition =>
    ∃ events, performed = .ok (m.enter definition, events) ∧ Event.outputOf events = []
  | .refuse fault => performed = .error fault

variable (opts : Options) (m : Machine)

theorem performSub_spec (name value : Text) :
    m.CarriesOut (m.performSub opts name value)
      ((Statement.sub name value).action opts m.program.functions m.store) := by
  simp only [performSub, Statement.action]
  cases Decimal.int64? value with
  | none => rfl
  | some n =>
    cases hcurrent : m.store.get? name with
    | none => exact ⟨_, rfl, outputOf_reportMissing opts name⟩
    | some current =>
      dsimp only
      split
      · rfl
      · rw [Store.sub_of_get? hcurrent]
        cases difference? current n with
        | none => rfl
        | some rest => exact ⟨_, rfl, rfl⟩

theorem performSet_spec (name value : Text) :
    m.CarriesOut (m.performSet name value)
      ((Statement.set name value).action opts m.program.functions m.store) := by
  simp only [performSet, Statement.action]
  cases Decimal.int64? value with
  | none => rfl
  | some n =>
    dsimp only
    split
    · rfl
    · exact ⟨_, rfl, rfl⟩

/-- **Statements are performed by their actions.** -/
theorem perform_spec (statement : Statement) :
    m.CarriesOut (m.perform opts statement)
      (statement.action opts m.program.functions m.store) := by
  cases statement with
  | blank => exact ⟨_, rfl, rfl⟩
  | set name value => exact m.performSet_spec opts name value
  | sub name value => exact m.performSub_spec opts name value
  | print name =>
    simp only [perform, performPrint, Statement.action]
    cases m.store.get? name with
    | none => exact ⟨_, rfl, outputOf_reportMissing opts name⟩
    | some value => exact ⟨_, rfl, by simp [Event.outputOf]⟩
  | rem name =>
    simp only [perform, performRem, Statement.action]
    split
    · exact ⟨_, rfl, rfl⟩
    · exact ⟨_, rfl, outputOf_reportMissing opts name⟩
  | call function =>
    simp only [perform, performCall, Statement.action]
    cases m.program.functions.get? function with
    | none => rfl
    | some definition => exact ⟨_, rfl, rfl⟩
  | incomplete keyword => rfl
  | unknown word => rfl

variable {opts m}

/-- What has been performed is the action of the statement, which was not refused. -/
theorem action_of_perform {m' : Machine} {statement : Statement} {events : List Event}
    (h : m.perform opts statement = .ok (m', events)) :
    (∃ s, statement.action opts m.program.functions m.store = .update s (Event.outputOf events) ∧
        m' = { m with store := s }) ∨
      ∃ definition, statement.action opts m.program.functions m.store = .enter definition ∧
        m' = m.enter definition := by
  have spec := m.perform_spec opts statement
  rw [h] at spec
  cases ha : statement.action opts m.program.functions m.store with
  | update s out =>
    rw [ha] at spec
    obtain ⟨_, heq, rfl⟩ := spec
    cases heq
    exact Or.inl ⟨s, rfl, rfl⟩
  | enter definition =>
    rw [ha] at spec
    obtain ⟨_, heq, -⟩ := spec
    cases heq
    exact Or.inr ⟨definition, rfl, rfl⟩
  | refuse fault =>
    rw [ha] at spec
    cases spec

end Machine

end LineScript

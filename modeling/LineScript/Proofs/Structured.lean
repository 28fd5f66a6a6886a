import LineScript.Proofs.Action

/-!
# Structured execution

What a program means, said without a position of control and without a stack. The rows outside
the functions are performed from the top down. A call performs the rows of a body, one after
another, before the row behind it has its turn. An execution that does not end has no derivation.

## Main definitions

* `Row`, `Program.rows`: the lines of a program with their indices
* `Program.body`: the rows of the body behind a definition
* `mainRows`: the rows that a walk down the table performs
* `Performs`: structured execution of rows
* `Program.Walks`: structured execution of a whole program
* `Unrolled`: execution with the bodies of called functions put in the place of the calls
* `Begun`: the beginning of such an execution, which need not come to an ending

## Main results

* `performs_append_iff`: rows are performed in sequence
* `performs_iff_unrolled`: bodies may be put in the place of calls
-/

namespace LineScript

/-! ## Rows -/

/-- A line of a program with its index. -/
structure Row where
  index : Nat
  text : Text
  deriving DecidableEq, Repr

namespace Row

/-- The row belongs to the body of a function. -/
def isIndented (row : Row) : Bool := Line.isIndented row.text

/-- The row opens a function definition. -/
def isDefinition (row : Row) : Bool := Line.isDefinition row.text

/-- The row is part of a function. -/
def isSkipped (row : Row) : Bool := row.isIndented || row.isDefinition

/-- The effect of the statement on the row. -/
def action (opts : Options) (p : Program) (s : Store) (row : Row) : Action :=
  (Statement.ofLine row.text).action opts p.functions s

end Row

namespace Program

/-- The lines of a program with their indices. -/
def rows (p : Program) : List Row := p.lines.toList.mapIdx Row.mk

/-- The longest run of indented rows from an index on. -/
def blockFrom (p : Program) (i : Nat) : List Row := (p.rows.drop i).takeWhile Row.isIndented

/-- The body of the function that is defined at an index: the indented rows directly behind its
definition. -/
def body (p : Program) (definition : Nat) : List Row := p.blockFrom (definition + 1)

end Program

/-- The rows that a walk down the table performs. A definition is passed over together with the
longest run of definitions and indented rows behind it. -/
def mainRows : List Row → List Row
  | [] => []
  | row :: rows =>
    if row.isDefinition then mainRows (rows.dropWhile Row.isSkipped) else row :: mainRows rows
termination_by rows => rows.length
decreasing_by
  · exact Nat.lt_succ_of_le (List.dropWhile_sublist _).length_le
  · exact Nat.lt_succ_self _

/-! ## Structured execution -/

/-- How the execution of rows ends. -/
inductive Ending where
  /-- All rows were performed, and these are the variables. -/
  | done (store : Store)
  /-- A row was at fault. -/
  | failed (row : Row) (fault : Fault)
  deriving DecidableEq, Repr

/-- The result that is reported for an ending. -/
def Ending.result : Ending → Except Failure Unit
  | done _ => .ok ()
  | failed row fault => .error (.atLine row.index row.text (.fault fault))

/-- **Structured execution**: the rows, performed in order from the variables `s`, write a text
and come to an ending. A row that calls a function performs the body of the function. -/
inductive Performs (opts : Options) (p : Program) : List Row → Store → Text → Ending → Prop
  | nil {s : Store} : Performs opts p [] s [] (.done s)
  | update {row : Row} {rows : List Row} {s s' : Store} {out out' : Text} {e : Ending}
      (ha : row.action opts p s = .update s' out) (h : Performs opts p rows s' out' e) :
      Performs opts p (row :: rows) s (out ++ out') e
  | refuse {row : Row} {rows : List Row} {s : Store} {fault : Fault}
      (ha : row.action opts p s = .refuse fault) :
      Performs opts p (row :: rows) s [] (.failed row fault)
  | call {row : Row} {rows : List Row} {s s' : Store} {definition : Nat} {out out' : Text}
      {e : Ending} (ha : row.action opts p s = .enter definition)
      (hbody : Performs opts p (p.body definition) s out (.done s'))
      (h : Performs opts p rows s' out' e) : Performs opts p (row :: rows) s (out ++ out') e
  | abort {row failing : Row} {rows : List Row} {s : Store} {definition : Nat} {out : Text}
      {fault : Fault} (ha : row.action opts p s = .enter definition)
      (hbody : Performs opts p (p.body definition) s out (.failed failing fault)) :
      Performs opts p (row :: rows) s out (.failed failing fault)

/-- Structured execution of a program: a walk down its table. -/
def Program.Walks (opts : Options) (p : Program) (s : Store) (out : Text) (e : Ending) : Prop :=
  Performs opts p (mainRows p.rows) s out e

section Sequence

variable {opts : Options} {p : Program} {xs ys : List Row} {s : Store} {out : Text} {e : Ending}

theorem Performs.append_done {s₁ : Store} {out₁ out₂ : Text}
    (h₁ : Performs opts p xs s out₁ (.done s₁)) (h₂ : Performs opts p ys s₁ out₂ e) :
    Performs opts p (xs ++ ys) s (out₁ ++ out₂) e := by
  -- the ending is an index of the relation: generalized, it excludes the rules that fail
  generalize he : Ending.done s₁ = e₁ at h₁
  induction h₁ with
  | nil =>
    cases he
    exact h₂
  | update ha _ ih =>
    rw [List.append_assoc]
    exact .update ha (ih he)
  | refuse => cases he
  | call ha hbody _ _ ih =>
    rw [List.append_assoc]
    exact .call ha hbody (ih he)
  | abort => cases he

theorem Performs.append_failed {failing : Row} {fault : Fault} (ys : List Row)
    (h : Performs opts p xs s out (.failed failing fault)) :
    Performs opts p (xs ++ ys) s out (.failed failing fault) := by
  generalize he : Ending.failed failing fault = e₁ at h
  induction h with
  | nil => cases he
  | update ha _ ih => exact .update ha (ih he)
  | refuse ha => exact .refuse ha
  | call ha hbody _ _ ih => exact .call ha hbody (ih he)
  | abort ha hbody => exact .abort ha hbody

/-- **Rows are performed in sequence**: the later ones begin with the variables that the earlier
ones leave, unless one of these is at fault. -/
theorem performs_append_iff :
    Performs opts p (xs ++ ys) s out e ↔
      (∃ s₁ out₁ out₂, Performs opts p xs s out₁ (.done s₁) ∧ Performs opts p ys s₁ out₂ e ∧
        out = out₁ ++ out₂) ∨
      ∃ failing fault, e = .failed failing fault ∧ Performs opts p xs s out e := by
  constructor
  · intro h
    induction xs generalizing s out with
    | nil => exact Or.inl ⟨s, [], out, .nil, h, rfl⟩
    | cons row xs ih =>
      cases h with
      | update ha h =>
        rcases ih h with ⟨s₁, out₁, out₂, h₁, h₂, rfl⟩ | ⟨failing, fault, rfl, h⟩
        · exact Or.inl ⟨s₁, _, out₂, .update ha h₁, h₂, (List.append_assoc ..).symm⟩
        · exact Or.inr ⟨failing, fault, rfl, .update ha h⟩
      | refuse ha => exact Or.inr ⟨_, _, rfl, .refuse ha⟩
      | call ha hbody h =>
        rcases ih h with ⟨s₁, out₁, out₂, h₁, h₂, rfl⟩ | ⟨failing, fault, rfl, h⟩
        · exact Or.inl ⟨s₁, _, out₂, .call ha hbody h₁, h₂, (List.append_assoc ..).symm⟩
        · exact Or.inr ⟨failing, fault, rfl, .call ha hbody h⟩
      | abort ha hbody => exact Or.inr ⟨_, _, rfl, .abort ha hbody⟩
  · rintro (⟨s₁, out₁, out₂, h₁, h₂, rfl⟩ | ⟨failing, fault, rfl, h⟩)
    · exact h₁.append_done h₂
    · exact h.append_failed ys

end Sequence

/-! ## Bodies in the place of calls -/

/-- Execution with the body of a called function put in the place of the call. A derivation is
a list of the rows performed, in the order in which they are. -/
inductive Unrolled (opts : Options) (p : Program) : List Row → Store → Text → Ending → Prop
  | nil {s : Store} : Unrolled opts p [] s [] (.done s)
  | update {row : Row} {rows : List Row} {s s' : Store} {out out' : Text} {e : Ending}
      (ha : row.action opts p s = .update s' out) (h : Unrolled opts p rows s' out' e) :
      Unrolled opts p (row :: rows) s (out ++ out') e
  | refuse {row : Row} {rows : List Row} {s : Store} {fault : Fault}
      (ha : row.action opts p s = .refuse fault) :
      Unrolled opts p (row :: rows) s [] (.failed row fault)
  | call {row : Row} {rows : List Row} {s : Store} {definition : Nat} {out : Text} {e : Ending}
      (ha : row.action opts p s = .enter definition)
      (h : Unrolled opts p (p.body definition ++ rows) s out e) :
      Unrolled opts p (row :: rows) s out e

/-- **What rows have written at some point of their execution** from the variables `s`, again with
bodies put in the place of calls. Nothing is said about what comes later, so an execution that has
no ending has its beginnings. -/
inductive Begun (opts : Options) (p : Program) : List Row → Store → Text → Prop
  | start {rows : List Row} {s : Store} : Begun opts p rows s []
  | update {row : Row} {rows : List Row} {s s' : Store} {out out' : Text}
      (ha : row.action opts p s = .update s' out) (h : Begun opts p rows s' out') :
      Begun opts p (row :: rows) s (out ++ out')
  | call {row : Row} {rows : List Row} {s : Store} {definition : Nat} {out : Text}
      (ha : row.action opts p s = .enter definition)
      (h : Begun opts p (p.body definition ++ rows) s out) : Begun opts p (row :: rows) s out

section Unrolling

variable {opts : Options} {p : Program} {rows : List Row} {s : Store} {out : Text} {e : Ending}

/-- What rows do before others, unrolled: an ending with variables lets the others go on, a
failure does not. -/
theorem Performs.unrolled_append (h : Performs opts p rows s out e) (rest : List Row) :
    (∀ s', e = .done s' → ∀ out' e', Unrolled opts p rest s' out' e' →
      Unrolled opts p (rows ++ rest) s (out ++ out') e') ∧
    ∀ failing fault, e = .failed failing fault → Unrolled opts p (rows ++ rest) s out e := by
  -- the body of a call is followed by the rows behind the call, so what comes later is general
  induction h generalizing rest with
  | nil =>
    refine ⟨?_, fun _ _ he => by cases he⟩
    rintro s' he out' e' h'
    cases he
    exact h'
  | update ha _ ih =>
    obtain ⟨hdone, hfailed⟩ := ih rest
    refine ⟨fun s' he out' e' h' => ?_, fun failing fault he => ?_⟩
    · rw [List.append_assoc]
      exact .update ha (hdone s' he out' e' h')
    · exact .update ha (hfailed failing fault he)
  | refuse ha => exact ⟨fun _ he => (by cases he), fun _ _ _ => .refuse ha⟩
  | call ha _ _ ihbody ih =>
    obtain ⟨hdone, hfailed⟩ := ih rest
    refine ⟨fun s' he out' e' h' => ?_, fun failing fault he => ?_⟩
    · rw [List.append_assoc]
      exact .call ha ((ihbody _).1 _ rfl _ _ (hdone s' he out' e' h'))
    · exact .call ha ((ihbody _).1 _ rfl _ _ (hfailed failing fault he))
  | abort ha _ ihbody =>
    exact ⟨fun _ he => (by cases he), fun _ _ _ => .call ha ((ihbody _).2 _ _ rfl)⟩

/-- **Bodies may be put in the place of calls.** -/
theorem performs_iff_unrolled :
    Performs opts p rows s out e ↔ Unrolled opts p rows s out e := by
  constructor
  · intro h
    obtain ⟨hdone, hfailed⟩ := h.unrolled_append []
    cases e with
    | done s' => simpa using hdone s' rfl [] _ .nil
    | failed failing fault => simpa using hfailed failing fault rfl
  · intro h
    induction h with
    | nil => exact .nil
    | update ha _ ih => exact .update ha ih
    | refuse ha => exact .refuse ha
    | call ha _ ih =>
      -- the body has been performed together with what is behind the call
      rcases performs_append_iff.mp ih with ⟨s₁, out₁, out₂, h₁, h₂, rfl⟩ | ⟨_, _, rfl, h⟩
      · exact .call ha h₁ h₂
      · exact .abort ha h

end Unrolling

end LineScript

/-!
# Stacks

A last-in, first-out sequence that knows its size. The machine keeps the positions of its
pending calls on one.

## Main definitions

* `Stack`: the elements, the topmost first, and how many there are
* `Stack.push`, `Stack.pop?`

## Main results

* `Stack.ext_items`: a stack is determined by its elements
* `Stack.push_induction`: every stack is built by pushing
-/

namespace LineScript

/-- A stack, as the list of its elements from the top down. The size is kept beside the list,
so that it need not be counted. -/
structure Stack (α : Type) where
  items : List α
  size : Nat
  size_eq : items.length = size
  deriving DecidableEq, Repr

namespace Stack

variable {α : Type}

/-- A stack is determined by its elements. -/
theorem ext_items {s t : Stack α} (h : s.items = t.items) : s = t := by
  obtain ⟨items, size, hs⟩ := s
  obtain ⟨_, size', ht⟩ := t
  obtain rfl : items = _ := h
  obtain rfl : size = size' := hs.symm.trans ht
  rfl

/-- The stack without elements. -/
def empty : Stack α := ⟨[], 0, rfl⟩

instance : Inhabited (Stack α) := ⟨empty⟩

/-- Puts an element on top. -/
def push (s : Stack α) (a : α) : Stack α :=
  ⟨a :: s.items, s.size + 1, congrArg (· + 1) s.size_eq⟩

/-- What is left of a stack below its topmost element. -/
theorem length_tail {a : α} {rest : List α} {size : Nat} (h : (a :: rest).length = size) :
    rest.length = size - 1 := by
  rw [← h]
  rfl

/-- The topmost element and the stack below it. -/
def pop? : Stack α → Option (α × Stack α)
  | ⟨[], _, _⟩ => none
  | ⟨a :: rest, size, h⟩ => some (a, ⟨rest, size - 1, length_tail h⟩)

@[simp] theorem pop?_empty : (empty : Stack α).pop? = none := rfl

@[simp] theorem pop?_push (s : Stack α) (a : α) : (s.push a).pop? = some (a, s) := rfl

@[simp] theorem items_empty : (empty : Stack α).items = [] := rfl

@[simp] theorem items_push (s : Stack α) (a : α) : (s.push a).items = a :: s.items := rfl

@[simp] theorem size_empty : (empty : Stack α).size = 0 := rfl

@[simp] theorem size_push (s : Stack α) (a : α) : (s.push a).size = s.size + 1 := rfl

/-- **Every stack is built by pushing.** -/
@[elab_as_elim] theorem push_induction {motive : Stack α → Prop} (empty : motive empty)
    (push : ∀ s a, motive s → motive (s.push a)) (s : Stack α) : motive s := by
  obtain ⟨items, size, h⟩ := s
  induction items generalizing size with
  | nil =>
    subst h
    exact empty
  | cons a items ih =>
    subst h
    exact push ⟨items, items.length, rfl⟩ a (ih items.length rfl)

end Stack

end LineScript

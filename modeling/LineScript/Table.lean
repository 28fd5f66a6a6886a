import LineScript.Text.Basic

/-!
# Tables of names

A table gives values to names and keeps its entries in the order of the names. It holds the
variables of a running program and the functions of a loaded one.

## Main definitions

* `Table`: names with values, in the order of the names
* `Table.get?`, `Table.insert`, `Table.erase`, `Table.union`

## Main results

* `Table.get?_insert`, `Table.get?_erase`: what a look-up finds after a change
-/

namespace LineScript

/-- Names with their values. Operations keep the entries ordered by `Text.before`, one for
each name. -/
structure Table (α : Type) where
  entries : List (Text × α)
  deriving DecidableEq, Repr

namespace Table

variable {α : Type}

/-- The table without entries. -/
def empty : Table α := ⟨[]⟩

instance : Inhabited (Table α) := ⟨empty⟩

/-- The value of a name among some entries; the first entry counts. -/
def findEntry (name : Text) : List (Text × α) → Option α
  | [] => none
  | (key, value) :: rest => if name = key then some value else findEntry name rest

/-- The value of a name. -/
def get? (t : Table α) (name : Text) : Option α :=
  findEntry name t.entries

/-- Does the name have a value? -/
def contains (t : Table α) (name : Text) : Bool :=
  (t.get? name).isSome

/-- The number of names. -/
def size (t : Table α) : Nat :=
  t.entries.length

/-- Puts an entry at its place, over an earlier entry of the same name. -/
def insertEntry (name : Text) (value : α) : List (Text × α) → List (Text × α)
  | [] => [(name, value)]
  | (key, old) :: rest =>
    if name = key then (name, value) :: rest
    else if name.before key then (name, value) :: (key, old) :: rest
    else (key, old) :: insertEntry name value rest

/-- The table in which `name` has the given value. -/
def insert (t : Table α) (name : Text) (value : α) : Table α :=
  ⟨insertEntry name value t.entries⟩

/-- The table in which `name` has no value. -/
def erase (t : Table α) (name : Text) : Table α :=
  ⟨t.entries.filter fun entry => entry.1 ≠ name⟩

/-- The table that has the entries of both; those of the second one win. -/
def union (t u : Table α) : Table α :=
  u.entries.foldl (fun t entry => t.insert entry.1 entry.2) t

@[simp] theorem get?_empty (name : Text) : (empty : Table α).get? name = none := rfl

theorem findEntry_insertEntry (entries : List (Text × α)) (name key : Text) (value : α) :
    findEntry key (insertEntry name value entries) =
      if key = name then some value else findEntry key entries := by
  induction entries with
  | nil => rfl
  | cons entry rest ih =>
    obtain ⟨k, old⟩ := entry
    simp only [insertEntry]
    split
    · next h => subst h; by_cases h : key = name <;> simp [findEntry, h]
    · next h =>
      split
      · simp [findEntry]
      · by_cases hk : key = k
        · subst hk
          simp [findEntry, Ne.symm h]
        · simp [findEntry, hk, ih]

/-- **Look-up after insertion**: the new value at the name, the old ones elsewhere. -/
@[simp] theorem get?_insert (t : Table α) (name key : Text) (value : α) :
    (t.insert name value).get? key = if key = name then some value else t.get? key :=
  findEntry_insertEntry t.entries name key value

theorem findEntry_filter (entries : List (Text × α)) (name key : Text) :
    findEntry key (entries.filter fun entry => entry.1 ≠ name) =
      if key = name then none else findEntry key entries := by
  induction entries with
  | nil => simp [findEntry]
  | cons entry rest ih =>
    obtain ⟨k, value⟩ := entry
    rw [List.filter_cons]
    by_cases hk : k = name
    · subst hk
      simp only [ne_eq, not_true_eq_false, decide_false, Bool.false_eq_true, if_false, ih,
        findEntry]
      by_cases h : key = k <;> simp [h]
    · simp only [ne_eq, hk, not_false_eq_true, decide_true, if_true, findEntry, ih]
      by_cases h : key = k
      · subst h
        simp [hk]
      · simp [h]

/-- **Look-up after erasure**: nothing at the name, the old values elsewhere. -/
@[simp] theorem get?_erase (t : Table α) (name key : Text) :
    (t.erase name).get? key = if key = name then none else t.get? key :=
  findEntry_filter t.entries name key

end Table

end LineScript

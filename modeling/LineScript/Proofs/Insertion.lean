import LineScript.Proofs.Correspondence
import LineScript.Proofs.Loading
import LineScript.Proofs.Words

/-!
# Lines that make no difference

Lines are put into the table of a program, and the lines behind them move down. Calls then lead to
other indices, and indentation may end a body at another place. The program does the same as before
if the inserted lines are performed by nobody and cut off no row that is performed: neither from the
walk down the table nor from the body of a function.

## Main definitions

* `insertLines`, `shiftFrom`: lines with others put in, and where the old ones have moved
* `outerRows`: the rows of a walk down the table, found row by row
* `Vanishes`: rows in front of others make no difference to what is performed
* `Program.Inert`: lines that may be put into a program
* `Program.RunsAlike`: two programs run alike, up to the lines that failures name

## Main results

* `mainRows_eq_outerRows`: a walk down the table is found row by row
* `Program.Inert.runsAlike`: with inert lines put in, a program runs as before
* `Program.blank_line_makes_no_difference`: a blank line is inert
* `Program.uncalled_function_makes_no_difference`: so is a function that is not called
-/

namespace LineScript

/-! ## The walk down the table, row by row -/

/-- The rows that a walk down the table performs, found row by row. A definition begins a part that
is passed over, and `inside` says whether this part has reached the row. -/
def outerRows : (inside : Bool) → List Row → List Row
  | _, [] => []
  | inside, row :: rows =>
    if row.isDefinition || (inside && row.isIndented) then outerRows true rows
    else row :: outerRows false rows

section OuterRows

variable {row : Row} {rows : List Row} {inside : Bool}

theorem outerRows_cons_of_skipped (h : (row.isDefinition || (inside && row.isIndented)) = true) :
    outerRows inside (row :: rows) = outerRows true rows :=
  if_pos h

theorem outerRows_cons_of_not_skipped
    (h : (row.isDefinition || (inside && row.isIndented)) = false) :
    outerRows inside (row :: rows) = row :: outerRows false rows :=
  if_neg (Bool.eq_false_iff.mp h)

/-- **A walk down the table is found row by row**, also from the inside of a function. -/
theorem mainRows_eq_outerRows (rows : List Row) :
    mainRows rows = outerRows false rows ∧
      mainRows (rows.dropWhile Row.isSkipped) = outerRows true rows := by
  induction rows with
  | nil => exact ⟨by rw [mainRows, outerRows], by rw [List.dropWhile_nil, mainRows, outerRows]⟩
  | cons row rows ih =>
    obtain ⟨houtside, hinside⟩ := ih
    have hfirst : mainRows (row :: rows) = outerRows false (row :: rows) := by
      cases hd : row.isDefinition with
      | true =>
        rw [mainRows, if_pos hd, hinside, outerRows_cons_of_skipped (by simp [hd])]
      | false =>
        rw [mainRows, if_neg (by simp [hd]), houtside, outerRows_cons_of_not_skipped (by simp [hd])]
    refine ⟨hfirst, ?_⟩
    cases hskipped : row.isSkipped with
    | true =>
      rw [List.dropWhile_cons_of_pos hskipped, hinside]
      refine (outerRows_cons_of_skipped ?_).symm
      rwa [Bool.true_and, Bool.or_comm]
    | false =>
      rw [List.dropWhile_cons_of_neg (by simp [hskipped]), hfirst]
      obtain ⟨hindented, hd⟩ := Bool.or_eq_false_iff.mp hskipped
      rw [outerRows_cons_of_not_skipped (by simp [hd]),
        outerRows_cons_of_not_skipped (by simp [hd, hindented])]

/-- In front of a row that is not indented, it makes no difference whether a function is left. -/
theorem outerRows_of_not_indented (h : rows.head?.any Row.isIndented = false) (inside : Bool) :
    outerRows inside rows = outerRows false rows := by
  cases rows with
  | nil => rw [outerRows, outerRows]
  | cons row rows =>
    have hrow : row.isIndented = false := h
    rw [outerRows, outerRows, hrow, Bool.and_false, Bool.and_false]

/-- There is no body in front of such a row. -/
theorem takeWhile_of_not_indented (h : rows.head?.any Row.isIndented = false) :
    rows.takeWhile Row.isIndented = [] := by
  cases rows with
  | nil => rfl
  | cons row rows =>
    have hrow : row.isIndented = false := h
    exact List.takeWhile_cons_of_neg (by simp [hrow])

theorem outerRows_sublist (inside : Bool) (rows : List Row) :
    (outerRows inside rows).Sublist rows := by
  induction rows generalizing inside with
  | nil => rw [outerRows]
  | cons row rows ih =>
    rw [outerRows]
    split
    · exact (ih true).cons row
    · exact (ih false).cons_cons row

end OuterRows

/-! ## Rows that make no difference -/

/-- Rows in front of others **make no difference**: neither to a walk down the table, from outside
or inside a function, nor to a body. Rows without a statement do not count. -/
structure Vanishes (inserted back : List Row) : Prop where
  outer : ∀ inside, effective (outerRows inside (inserted ++ back)) =
    effective (outerRows inside back)
  block : effective ((inserted ++ back).takeWhile Row.isIndented) =
    effective (back.takeWhile Row.isIndented)

section Vanishes

variable {row : Row} {block inserted back : List Row}

theorem Row.isDefinition_of_isBlank (h : row.isBlank = true) : row.isDefinition = false := by
  simp [Row.isDefinition, Line.isDefinition, List.isEmpty_iff.mp h]

/-- A blank row that is indented belongs to whatever it stands in. -/
theorem vanishes_of_indented (hblank : row.isBlank = true) (hindented : row.isIndented = true)
    (back : List Row) : Vanishes [row] back where
  outer inside := by
    have hd := Row.isDefinition_of_isBlank hblank
    rw [List.singleton_append]
    cases inside with
    | true => rw [outerRows_cons_of_skipped (by simp [hindented])]
    | false =>
      rw [outerRows_cons_of_not_skipped (by simp [hd]), effective_cons_of_isBlank hblank]
  block := by
    rw [List.singleton_append, List.takeWhile_cons_of_pos hindented,
      effective_cons_of_isBlank hblank]

/-- A blank row that is not indented ends what another such row ends behind it. -/
theorem vanishes_of_blank (hblank : row.isBlank = true) (hindented : row.isIndented = false)
    (hback : back.head?.any Row.isIndented = false) : Vanishes [row] back where
  outer inside := by
    have hd := Row.isDefinition_of_isBlank hblank
    rw [List.singleton_append, outerRows_cons_of_not_skipped (by simp [hd, hindented]),
      effective_cons_of_isBlank hblank, outerRows_of_not_indented hback inside]
  block := by
    rw [List.singleton_append, List.takeWhile_cons_of_neg (by simp [hindented]),
      takeWhile_of_not_indented hback]

/-- A definition with its body is passed over. -/
theorem vanishes_of_definition (hd : row.isDefinition = true)
    (hblock : ∀ other ∈ block, other.isIndented = true)
    (hback : back.head?.any Row.isIndented = false) : Vanishes (row :: block) back where
  outer inside := by
    have hbody : ∀ rows : List Row, (∀ other ∈ rows, other.isIndented = true) →
        outerRows true (rows ++ back) = outerRows true back := by
      intro rows hrows
      induction rows with
      | nil => rfl
      | cons other rows ih =>
        obtain ⟨hother, hrows⟩ := List.forall_mem_cons.mp hrows
        rw [List.cons_append, outerRows_cons_of_skipped (by simp [hother]), ih hrows]
    rw [List.cons_append, outerRows_cons_of_skipped (by simp [hd]), hbody block hblock,
      outerRows_of_not_indented hback true, outerRows_of_not_indented hback inside]
  block := by
    have hrow : row.isIndented = false := Line.isIndented_eq_false_of_isDefinition hd
    rw [List.cons_append, List.takeWhile_cons_of_neg (by simp [hrow]),
      takeWhile_of_not_indented hback]

/-- What makes no difference behind no rows makes none behind any. -/
theorem Vanishes.outer_append (h : Vanishes inserted back) (front : List Row) (inside : Bool) :
    effective (outerRows inside (front ++ (inserted ++ back))) =
      effective (outerRows inside (front ++ back)) := by
  induction front generalizing inside with
  | nil => exact h.outer inside
  | cons row front ih =>
    rw [List.cons_append, List.cons_append, outerRows, outerRows]
    split
    · exact ih true
    · exact effective_cons_congr row (ih false)

theorem Vanishes.block_append (h : Vanishes inserted back) (front : List Row) :
    effective ((front ++ (inserted ++ back)).takeWhile Row.isIndented) =
      effective ((front ++ back).takeWhile Row.isIndented) := by
  induction front with
  | nil => exact h.block
  | cons row front ih =>
    rw [List.cons_append, List.cons_append]
    cases hindented : row.isIndented with
    | true =>
      rw [List.takeWhile_cons_of_pos hindented, List.takeWhile_cons_of_pos hindented]
      exact effective_cons_congr row ih
    | false =>
      rw [List.takeWhile_cons_of_neg (by simp [hindented]),
        List.takeWhile_cons_of_neg (by simp [hindented])]

end Vanishes

/-! ## Rows with other indices -/

/-- The row with another index. -/
def Row.renumber (shift : Nat → Nat) (row : Row) : Row := { row with index := shift row.index }

section Renumber

variable (shift : Nat → Nat)

theorem outerRows_renumber (inside : Bool) (rows : List Row) :
    outerRows inside (rows.map (Row.renumber shift)) =
      (outerRows inside rows).map (Row.renumber shift) := by
  induction rows generalizing inside with
  | nil => rfl
  | cons row rows ih =>
    rw [List.map_cons, outerRows, outerRows]
    have hrow : ((row.renumber shift).isDefinition || (inside && (row.renumber shift).isIndented)) =
        (row.isDefinition || (inside && row.isIndented)) := rfl
    rw [hrow]
    split
    · exact ih true
    · rw [ih, List.map_cons]

theorem effective_renumber (rows : List Row) :
    effective (rows.map (Row.renumber shift)) = (effective rows).map (Row.renumber shift) :=
  List.filter_map

theorem takeWhile_renumber (rows : List Row) :
    (rows.map (Row.renumber shift)).takeWhile Row.isIndented =
      (rows.takeWhile Row.isIndented).map (Row.renumber shift) :=
  List.takeWhile_map

end Renumber

/-! ## Lines put into a program -/

/-- Lines with others put in at a position. -/
def insertLines (k : Nat) (inserted lines : List Text) : List Text :=
  lines.take k ++ (inserted ++ lines.drop k)

/-- Where the lines have moved when `n` others are put in at a position. -/
def shiftFrom (k n i : Nat) : Nat := if i < k then i else i + n

/-- The lines put in, with their indices. -/
def insertedRows (k : Nat) (inserted : List Text) : List Row :=
  inserted.mapIdx fun i text => ⟨i + k, text⟩

section InsertLines

variable {k n i j : Nat} {inserted lines : List Text} {line name : Text} {p q : Program}

theorem shiftFrom_of_lt (h : i < k) : shiftFrom k n i = i := if_pos h

theorem shiftFrom_of_le (h : k ≤ i) : shiftFrom k n i = i + n := if_neg (Nat.not_lt.mpr h)

theorem shiftFrom_le_shiftFrom_iff : shiftFrom k n i ≤ shiftFrom k n j ↔ i ≤ j := by
  unfold shiftFrom
  split <;> split <;> omega

/-- Every line is an old one that has moved, or one of those put in. -/
theorem getElem?_insertLines (hk : k ≤ lines.length) :
    (insertLines k inserted lines)[j]? = some line ↔
      (∃ i, j = shiftFrom k inserted.length i ∧ lines[i]? = some line) ∨
        ∃ i, j = k + i ∧ inserted[i]? = some line := by
  have hfront : (lines.take k).length = k := List.length_take_of_le hk
  unfold insertLines
  constructor
  · intro h
    rcases Nat.lt_or_ge j k with hj | hj
    · rw [List.getElem?_append_left (by rwa [hfront]), List.getElem?_take_of_lt hj] at h
      exact Or.inl ⟨j, (shiftFrom_of_lt hj).symm, h⟩
    rw [List.getElem?_append_right (by rwa [hfront]), hfront] at h
    rcases Nat.lt_or_ge (j - k) inserted.length with hj' | hj'
    · rw [List.getElem?_append_left hj'] at h
      exact Or.inr ⟨j - k, by omega, h⟩
    · rw [List.getElem?_append_right hj', List.getElem?_drop] at h
      refine Or.inl ⟨_, ?_, h⟩
      rw [shiftFrom_of_le (Nat.le_add_right k _)]
      omega
  · rintro (⟨i, rfl, h⟩ | ⟨i, rfl, h⟩)
    · rcases Nat.lt_or_ge i k with hi | hi
      · rw [shiftFrom_of_lt hi, List.getElem?_append_left (by rwa [hfront]),
          List.getElem?_take_of_lt hi, h]
      · rw [shiftFrom_of_le hi, List.getElem?_append_right (by omega), hfront,
          List.getElem?_append_right (by omega), List.getElem?_drop, ← h]
        congr 1
        omega
    · have hi := (List.getElem?_eq_some_iff.mp h).1
      rw [List.getElem?_append_right (by omega), hfront, Nat.add_sub_cancel_left,
        List.getElem?_append_left hi, h]

theorem defines_insertLines (hk : k ≤ lines.length) :
    Defines (insertLines k inserted lines) j name ↔
      (∃ i, j = shiftFrom k inserted.length i ∧ Defines lines i name) ∨
        ∃ i, j = k + i ∧ Defines inserted i name := by
  unfold Defines
  constructor
  · rintro ⟨line, hline, hd, hn⟩
    rcases (getElem?_insertLines hk).mp hline with ⟨i, hj, hi⟩ | ⟨i, hj, hi⟩
    · exact Or.inl ⟨i, hj, line, hi, hd, hn⟩
    · exact Or.inr ⟨i, hj, line, hi, hd, hn⟩
  · rintro (⟨i, hj, line, hi, hd, hn⟩ | ⟨i, hj, line, hi, hd, hn⟩)
    · exact ⟨line, (getElem?_insertLines hk).mpr (Or.inl ⟨i, hj, hi⟩), hd, hn⟩
    · exact ⟨line, (getElem?_insertLines hk).mpr (Or.inr ⟨i, hj, hi⟩), hd, hn⟩

/-- The rows of a program with lines put in: the old rows with other indices, in two parts. -/
theorem rows_insertLines (hk : k ≤ p.size)
    (hq : q.lines.toList = insertLines k inserted p.lines.toList) :
    q.rows = (p.rows.take k).map (Row.renumber (shiftFrom k inserted.length)) ++
      (insertedRows k inserted ++
        (p.rows.drop k).map (Row.renumber (shiftFrom k inserted.length))) := by
  have hlines : p.lines.toList = p.lines.toList.take k ++ p.lines.toList.drop k :=
    (List.take_append_drop k _).symm
  have hfront : (p.lines.toList.take k).length = k :=
    List.length_take_of_le (by simpa [Program.size] using hk)
  rw [Program.rows, Program.rows, hq, insertLines]
  generalize p.lines.toList.take k = front at hlines hfront
  generalize p.lines.toList.drop k = back at hlines
  subst hfront
  have hold : (front.mapIdx Row.mk).map (Row.renumber (shiftFrom front.length inserted.length)) =
      front.mapIdx Row.mk := by
    refine (List.map_congr_left fun row hrow => ?_).trans (List.map_id _)
    obtain ⟨i, hi, rfl⟩ := List.mem_mapIdx.mp hrow
    rw [Row.renumber, shiftFrom_of_lt hi]
    rfl
  have hmoved : (back.mapIdx fun i => Row.mk (i + front.length)).map
      (Row.renumber (shiftFrom front.length inserted.length)) =
        back.mapIdx fun i => Row.mk (i + inserted.length + front.length) := by
    refine List.ext_getElem? fun i => ?_
    have hshift : shiftFrom front.length inserted.length (i + front.length) =
        i + inserted.length + front.length := by
      rw [shiftFrom_of_le (Nat.le_add_left _ i)]
      omega
    rw [List.getElem?_map, List.getElem?_mapIdx, List.getElem?_mapIdx, Option.map_map, ← hshift]
    rfl
  rw [hlines, List.mapIdx_append, List.mapIdx_append, List.mapIdx_append,
    List.take_left' List.length_mapIdx, List.drop_left' List.length_mapIdx, hold, hmoved]
  rfl

end InsertLines

namespace Program

/-- From rest, with the same variables and without a step limit, the two programs **run alike**. -/
def RunsAlike (shift : Nat → Nat) (p q : Program) : Prop :=
  ∀ (opts : Options) (m m' : Machine), opts.stepLimit = 0 → m.Idle → m'.Idle → m.program = p →
    m'.program = q → m'.store = m.store → m.RunsAlike opts shift m'

/-- A row of the program, and the same row at the index to which it has moved. -/
def Moved (p : Program) (shift : Nat → Nat) (row row' : Row) : Prop :=
  row ∈ p.rows ∧ row' = row.renumber shift

/-- Rows of the program correspond to those that they have become. -/
theorem rowsAgree_of_moved {p : Program} {shift : Nat → Nat} {rows rows' : List Row}
    (hrows : ∀ row ∈ rows, row ∈ p.rows)
    (h : effective rows' = (effective rows).map (Row.renumber shift)) :
    RowsAgree (p.Moved shift) rows rows' := by
  rw [RowsAgree, h, List.forall₂_map_right_iff, List.forall₂_same]
  intro row hrow
  exact ⟨hrows row (List.mem_of_mem_filter hrow), rfl⟩

/-- Lines that **may be put into a program** at a position: the functions that they define are new
and are not called by the program, and before the rows behind the position they make no difference
to what is performed. -/
structure Inert (p : Program) (k : Nat) (inserted : List Text) : Prop where
  le_size : k ≤ p.size
  named : ∀ line ∈ inserted, Line.isDefinition line = true → ∃ name, line.words[1]? = some name
  distinct : ∀ i j name, Defines inserted i name → Defines inserted j name → i = j
  unused : ∀ i name, Defines inserted i name → p.functions.get? name = none ∧
    ∀ line ∈ p.lines.toList, Statement.ofLine line ≠ .call name
  vanishes : ∀ back : List Row,
    back.head?.any Row.isIndented = p.lines[k]?.any Line.isIndented →
      Vanishes (insertedRows k inserted) back

namespace Inert

variable {opts : Options} {redefine : Bool} {p q : Program} {k : Nat} {inserted : List Text}
  {name : Text}

/-- A program can be loaded again with inert lines put in. -/
theorem exists_load (h : p.Inert k inserted) (hp : p.Loaded redefine) :
    ∃ q, Program.empty.load redefine (insertLines k inserted p.lines.toList) = .ok q := by
  have hk : k ≤ p.lines.toList.length := h.le_size
  -- what is put in defines nothing that the program defines
  have hnew : ∀ i j name, Defines inserted i name → ¬ Defines p.lines.toList j name := by
    intro i j name hi hj
    obtain ⟨_, hlook⟩ := hp.isIndex.exists_look hj
    rw [(h.unused i name hi).1] at hlook
    cases hlook
  refine Loaded.exists_load .empty ?_ ?_
  · intro line hline hd
    obtain ⟨j, hj⟩ := List.getElem?_of_mem hline
    rcases (getElem?_insertLines hk).mp hj with ⟨i, -, hi⟩ | ⟨i, -, hi⟩
    · exact hp.isIndex.named i line hi hd
    · exact h.named line (List.mem_of_getElem? hi) hd
  · intro hr j j' name hj hj'
    rcases (defines_insertLines hk).mp hj with ⟨i, rfl, hi⟩ | ⟨i, rfl, hi⟩
    · rcases (defines_insertLines hk).mp hj' with ⟨i', rfl, hi'⟩ | ⟨i', rfl, hi'⟩
      · rw [hp.isIndex.unique hr i i' name hi hi']
      · exact absurd hi (hnew i' i name hi')
    · rcases (defines_insertLines hk).mp hj' with ⟨i', rfl, hi'⟩ | ⟨i', rfl, hi'⟩
      · exact absurd hi' (hnew i i' name hi)
      · rw [h.distinct i i' name hi hi']

/-- The functions of the program have moved with their lines. -/
theorem get?_functions (h : p.Inert k inserted) (hp : p.Loaded redefine) (hq : q.Loaded redefine)
    (hlines : q.lines.toList = insertLines k inserted p.lines.toList)
    (hname : ∀ i, ¬ Defines inserted i name) :
    q.functions.get? name = (p.functions.get? name).map (shiftFrom k inserted.length) := by
  have hk : k ≤ p.lines.toList.length := h.le_size
  have hdefines : ∀ j, Defines q.lines.toList j name ↔
      ∃ i, j = shiftFrom k inserted.length i ∧ Defines p.lines.toList i name := by
    intro j
    rw [hlines, defines_insertLines hk]
    refine or_iff_left ?_
    rintro ⟨i, -, hi⟩
    exact hname i hi
  -- lines keep their order, so the last definition stays the last one
  refine Option.ext fun j => ?_
  rw [hq.isIndex.look_iff, Option.map_eq_some_iff]
  simp only [hp.isIndex.look_iff, hdefines]
  constructor
  · rintro ⟨⟨i, rfl, hi⟩, hlast⟩
    refine ⟨i, ⟨hi, fun i' hi' => ?_⟩, rfl⟩
    exact shiftFrom_le_shiftFrom_iff.mp (hlast _ ⟨i', rfl, hi'⟩)
  · rintro ⟨i, ⟨hi, hlast⟩, rfl⟩
    refine ⟨⟨i, rfl, hi⟩, ?_⟩
    rintro j ⟨i', rfl, hi'⟩
    exact shiftFrom_le_shiftFrom_iff.mpr (hlast i' hi')

/-- The lines put in make no difference before the rows that have moved. -/
theorem vanishes_renumber (h : p.Inert k inserted) (shift : Nat → Nat) :
    Vanishes (insertedRows k inserted) ((p.rows.drop k).map (Row.renumber shift)) := by
  refine h.vanishes _ ?_
  cases hline : p.lines[k]? with
  | none =>
    rw [drop_rows_of_eq_none hline]
    rfl
  | some line =>
    rw [drop_rows_of_eq_some hline]
    rfl

/-- The walk down the table performs the old rows. -/
theorem effective_mainRows (h : p.Inert k inserted)
    (hlines : q.lines.toList = insertLines k inserted p.lines.toList) :
    effective (mainRows q.rows) =
      (effective (mainRows p.rows)).map (Row.renumber (shiftFrom k inserted.length)) := by
  rw [(mainRows_eq_outerRows _).1, (mainRows_eq_outerRows _).1,
    rows_insertLines h.le_size hlines, (h.vanishes_renumber _).outer_append, ← List.map_append,
    List.take_append_drop, outerRows_renumber, effective_renumber]

/-- A body that has moved holds the old rows. -/
theorem effective_body (h : p.Inert k inserted)
    (hlines : q.lines.toList = insertLines k inserted p.lines.toList) (definition : Nat) :
    effective (q.body (shiftFrom k inserted.length definition)) =
      (effective (p.body definition)).map (Row.renumber (shiftFrom k inserted.length)) := by
  have hk : k ≤ p.rows.length := by
    rw [length_rows]
    exact h.le_size
  have hrows := rows_insertLines h.le_size hlines
  have hvanishes := h.vanishes_renumber (shiftFrom k inserted.length)
  rw [body, body, blockFrom, blockFrom, hrows, ← effective_renumber, ← takeWhile_renumber]
  rcases Nat.lt_or_ge definition k with hlt | hge
  · -- the body begins before the lines put in, and may go on behind them
    have hfront : definition + 1 ≤
        ((p.rows.take k).map (Row.renumber (shiftFrom k inserted.length))).length := by
      rw [List.length_map, List.length_take_of_le hk]
      exact hlt
    rw [shiftFrom_of_lt hlt, List.drop_append_of_le_length hfront, hvanishes.block_append,
      ← List.drop_append_of_le_length hfront, ← List.map_append, List.take_append_drop,
      List.map_drop]
  · -- the body is behind the lines put in
    have hlength : ((p.rows.take k).map (Row.renumber (shiftFrom k inserted.length)) ++
        insertedRows k inserted).length = k + inserted.length := by
      simp [insertedRows, hk]
    have hindex : k + (definition + inserted.length + 1 - (k + inserted.length)) =
        definition + 1 := by
      omega
    rw [shiftFrom_of_le hge, ← List.append_assoc, List.drop_append, hlength,
      List.drop_eq_nil_of_le (by omega), List.nil_append, ← List.map_drop, List.drop_drop, hindex]

/-- Each row corresponds to the one that it has become. -/
theorem corresponds (h : p.Inert k inserted) (hp : p.Loaded redefine) (hq : q.Loaded redefine)
    (hlines : q.lines.toList = insertLines k inserted p.lines.toList) :
    p.Corresponds opts (p.Moved (shiftFrom k inserted.length)) q := by
  rintro row _ ⟨hrow, rfl⟩ s
  refine Statement.action_agrees (shiftFrom k inserted.length) ?_ ?_
  · -- no line that was put in defines what the row calls
    intro function hcall
    refine h.get?_functions hp hq hlines fun i hi => ?_
    have hline : row.text ∈ p.lines.toList := by
      rw [← p.rows_map_text]
      exact List.mem_map_of_mem hrow
    exact (h.unused i function hi).2 row.text hline hcall
  · intro definition
    refine rowsAgree_of_moved (fun row hrow => ?_) (h.effective_body hlines definition)
    exact List.mem_of_mem_drop ((List.takeWhile_sublist _).subset hrow)

/-- **With inert lines put in, a program runs as before.** -/
theorem runsAlike (h : p.Inert k inserted) (hp : p.Loaded redefine) :
    ∃ q, Program.empty.load redefine (insertLines k inserted p.lines.toList) = .ok q ∧
      p.RunsAlike (shiftFrom k inserted.length) q := by
  obtain ⟨q, hload⟩ := h.exists_load hp
  refine ⟨q, hload, ?_⟩
  rintro opts m m' hlimit hm hm' rfl rfl hstore
  have hq : m'.program.Loaded redefine := .load .empty hload
  have hlines : m'.program.lines.toList = insertLines k inserted m.program.lines.toList :=
    lines_of_load hload
  have hrows : RowsAgree (m.program.Moved (shiftFrom k inserted.length))
      (mainRows m.program.rows) (mainRows m'.program.rows) := by
    refine rowsAgree_of_moved (fun row hrow => ?_) (h.effective_mainRows hlines)
    rw [(mainRows_eq_outerRows _).1] at hrow
    exact (outerRows_sublist _ _).subset hrow
  have hparallel : Machine.Parallel opts (m.program.Moved (shiftFrom k inserted.length)) m m' :=
    ⟨hp.indexesDefinitions, hq.indexesDefinitions, hm, hm', hstore.symm,
      h.corresponds hp hq hlines, hrows⟩
  refine Machine.runsAlike_of_corresponds hlimit hparallel ?_
  rintro row _ ⟨-, rfl⟩
  rfl

end Inert

/-! ## Blank lines -/

section Blank

variable {redefine : Bool} {p : Program} {k : Nat} {line : Text}

theorem not_isDefinition_of_isBlank (h : line.IsBlank) : Line.isDefinition line = false := by
  simp [Line.isDefinition, Text.words_of_isBlank h]

theorem inert_of_isBlank (hk : k ≤ p.size) (hline : line.IsBlank)
    (hempty : line = [] → p.lines[k]?.any Line.isIndented = false) : p.Inert k [line] := by
  have hnone : ∀ i name, ¬ Defines [line] i name := by
    rintro i name ⟨other, hother, hd, -⟩
    obtain rfl : other = line := List.mem_singleton.mp (List.mem_of_getElem? hother)
    rw [not_isDefinition_of_isBlank hline] at hd
    cases hd
  have hblank : Row.isBlank ⟨0 + k, line⟩ = true :=
    List.isEmpty_iff.mpr (Text.words_of_isBlank hline)
  refine ⟨hk, ?_, fun i _ name hi => absurd hi (hnone i name),
    fun i name hi => absurd hi (hnone i name), fun back hback => ?_⟩
  · intro other hother hd
    obtain rfl := List.mem_singleton.mp hother
    rw [not_isDefinition_of_isBlank hline] at hd
    cases hd
  · by_cases hne : line = []
    · refine vanishes_of_blank hblank ?_ (hback.trans (hempty hne))
      rw [hne]
      rfl
    · exact vanishes_of_indented hblank (Text.startsBlank_of_isBlank hline hne) back

/-- **A blank line makes no difference.** Put in anywhere, a line of white space lets the program
run as before, up to the indices of the lines behind it; so does an empty line, unless the line
behind it is indented. -/
theorem blank_line_makes_no_difference (hp : p.Loaded redefine) (hk : k ≤ p.size)
    (hline : line.IsBlank) (hempty : line = [] → p.lines[k]?.any Line.isIndented = false) :
    ∃ q, Program.empty.load redefine (insertLines k [line] p.lines.toList) = .ok q ∧
      p.RunsAlike (shiftFrom k 1) q :=
  (inert_of_isBlank hk hline hempty).runsAlike hp

/-- A function without a body, and a failure behind its call. -/
def emptyFunction : List Text :=
  [utf8 "def f", utf8 "call f", utf8 "set a 1", utf8 "sub a 2"]

/-- A line of white space becomes the body of the function, and the failure moves down a line. -/
theorem emptyFunction_with_blank_line :
    ∃ p q, Program.empty.load false emptyFunction = .ok p ∧
      Program.empty.load false (insertLines 1 [utf8 " "] emptyFunction) = .ok q ∧
      p.RunsAlike (shiftFrom 1 1) q ∧
      { Machine.initial with program := q }.RunsTo {} []
        (.error (.atLine 4 (utf8 "sub a 2") (.fault (.underflow (utf8 "a") 1 2)))) := by
  obtain ⟨p, hload, hlines, hsize, r, hr, hout, hresult⟩ :
      ∃ p, Program.empty.load false emptyFunction = .ok p ∧ p.lines.toList = emptyFunction ∧
        p.size = 4 ∧ ∃ r, { Machine.initial with program := p }.submit {} 9
          ModeCommand.run.wording = some r ∧ Event.outputOf r.events = [] ∧ r.result =
            .error (.atLine 3 (utf8 "sub a 2") (.fault (.underflow (utf8 "a") 1 2))) :=
    ⟨_, rfl, rfl, rfl, _, rfl, rfl, rfl⟩
  have hp : p.Loaded false := .load .empty hload
  obtain ⟨q, hq, halike⟩ := blank_line_makes_no_difference hp (by omega : 1 ≤ p.size)
    (by decide : (utf8 " ").IsBlank) nofun
  rw [hlines] at hq
  have hrun := halike {} { Machine.initial with program := p }
    { Machine.initial with program := q } rfl ⟨rfl, rfl⟩ ⟨rfl, rfl⟩ rfl rfl rfl
  exact ⟨p, q, hload, hq, halike, hrun.fails_at 3 ⟨r, ⟨9, hr⟩, hout, hresult⟩⟩

end Blank

/-! ## Functions that are not called -/

section Uncalled

variable {redefine : Bool} {p : Program} {k : Nat} {name : Text} {block : List Text}

/-- The line that defines a function. -/
theorem isDefinition_of_isWord (h : name.IsWord) :
    Line.isDefinition (utf8 "def " ++ name) = true ∧
      (utf8 "def " ++ name).words[1]? = some name := by
  have htext : utf8 "def " ++ name = utf8 "def" ++ (utf8 " " ++ name) := rfl
  have hwords : (utf8 "def " ++ name).words = [utf8 "def", name] := by
    rw [htext, Text.words_utf8_append (by decide) rfl, Text.words_of_isWord h]
  have hstart : (utf8 "def " ++ name).startsBlank = false := by
    have hchar : utf8 "def " ++ name = String.utf8EncodeChar 'd' ++ (utf8 "ef " ++ name) := rfl
    rw [hchar, Text.startsBlank, Text.decode?_encode]
    decide
  refine ⟨?_, by rw [hwords]; rfl⟩
  rw [Line.isDefinition, Line.isIndented, hstart, hwords]
  rfl

theorem inert_of_uncalled (hk : k ≤ p.size) (hback : p.lines[k]?.any Line.isIndented = false)
    (hname : name.IsWord) (hnew : p.functions.get? name = none)
    (huncalled : ∀ line ∈ p.lines.toList, Statement.ofLine line ≠ .call name)
    (hblock : ∀ line ∈ block, Line.isIndented line = true) :
    p.Inert k ((utf8 "def " ++ name) :: block) := by
  obtain ⟨hd, hn⟩ := isDefinition_of_isWord hname
  -- the lines of the body define nothing
  have hbody : ∀ line ∈ block, Line.isDefinition line = false := by
    intro line hline
    simp [Line.isDefinition, hblock line hline]
  have hdefines : ∀ i other, Defines ((utf8 "def " ++ name) :: block) i other →
      i = 0 ∧ other = name := by
    rintro (_ | i) other ⟨line, hline, hdline, hnline⟩
    · obtain rfl : utf8 "def " ++ name = line := Option.some.inj hline
      exact ⟨rfl, Option.some.inj (hnline.symm.trans hn)⟩
    · rw [hbody line (List.mem_of_getElem? hline)] at hdline
      cases hdline
  refine ⟨hk, ?_, ?_, ?_, fun back hhead => ?_⟩
  · intro line hline hdline
    rcases List.mem_cons.mp hline with rfl | hline
    · exact ⟨name, hn⟩
    · rw [hbody line hline] at hdline
      cases hdline
  · intro i j other hi hj
    rw [(hdefines i other hi).1, (hdefines j other hj).1]
  · intro i other hi
    rw [(hdefines i other hi).2]
    exact ⟨hnew, huncalled⟩
  · rw [insertedRows, List.mapIdx_cons]
    refine vanishes_of_definition hd (fun row hrow => ?_) (hhead.trans hback)
    obtain ⟨i, hi, rfl⟩ := List.mem_mapIdx.mp hrow
    exact hblock _ (List.getElem_mem hi)

/-- **A function that is not called makes no difference.** A new function, put in at the end of the
table or before a line that is not indented, lets a program that does not call it run as before, up
to the indices of the lines behind it. -/
theorem uncalled_function_makes_no_difference (hp : p.Loaded redefine) (hk : k ≤ p.size)
    (hback : p.lines[k]?.any Line.isIndented = false) (hname : name.IsWord)
    (hnew : p.functions.get? name = none)
    (huncalled : ∀ line ∈ p.lines.toList, Statement.ofLine line ≠ .call name)
    (hblock : ∀ line ∈ block, Line.isIndented line = true) :
    ∃ q, Program.empty.load redefine
        (insertLines k ((utf8 "def " ++ name) :: block) p.lines.toList) = .ok q ∧
      p.RunsAlike (shiftFrom k (1 + block.length)) q := by
  rw [Nat.add_comm 1]
  exact (inert_of_uncalled hk hback hname hnew huncalled hblock).runsAlike hp

/-- A call from which control returns to a definition. -/
def callBeforeDefinition : List Text :=
  [utf8 "set a 1", utf8 "call f", utf8 "def f", utf8 " sub a 2"]

/-- A function is put in between the call and the definition, and the failure moves down two
lines. -/
theorem callBeforeDefinition_with_uncalled :
    ∃ p q, Program.empty.load false callBeforeDefinition = .ok p ∧
      Program.empty.load false
        (insertLines 2 [utf8 "def g", utf8 " call g"] callBeforeDefinition) = .ok q ∧
      p.RunsAlike (shiftFrom 2 2) q ∧
      { Machine.initial with program := q }.RunsTo {} []
        (.error (.atLine 5 (utf8 " sub a 2") (.fault (.underflow (utf8 "a") 1 2)))) := by
  obtain ⟨p, hload, hlines, hsize, hback, hnew, r, hr, hout, hresult⟩ :
      ∃ p, Program.empty.load false callBeforeDefinition = .ok p ∧
        p.lines.toList = callBeforeDefinition ∧ p.size = 4 ∧
        p.lines[2]?.any Line.isIndented = false ∧ p.functions.get? (utf8 "g") = none ∧
        ∃ r, { Machine.initial with program := p }.submit {} 9 ModeCommand.run.wording = some r ∧
          Event.outputOf r.events = [] ∧ r.result =
            .error (.atLine 3 (utf8 " sub a 2") (.fault (.underflow (utf8 "a") 1 2))) :=
    ⟨_, rfl, rfl, rfl, rfl, rfl, _, rfl, rfl, rfl⟩
  have hp : p.Loaded false := .load .empty hload
  have huncalled : ∀ line ∈ p.lines.toList, Statement.ofLine line ≠ .call (utf8 "g") := by
    rw [hlines]
    decide
  obtain ⟨q, hq, halike⟩ := uncalled_function_makes_no_difference hp (by omega) hback
    (by decide) hnew huncalled (by decide : ∀ line ∈ [utf8 " call g"], Line.isIndented line = true)
  rw [hlines] at hq
  have hrun := halike {} { Machine.initial with program := p }
    { Machine.initial with program := q } rfl ⟨rfl, rfl⟩ ⟨rfl, rfl⟩ rfl rfl rfl
  exact ⟨p, q, hload, hq, halike, hrun.fails_at 3 ⟨r, ⟨9, hr⟩, hout, hresult⟩⟩

end Uncalled

end Program

end LineScript

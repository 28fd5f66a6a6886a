import LineScript.Proofs.Reachable
import LineScript.Proofs.Table
import Mathlib.Tactic.SplitIfs

/-!
# The function index

A program keeps the index of its functions beside its lines and brings it up to date block by
block. The index is nonetheless a function of the lines alone: a name leads to the last line
that defines it. Without redefinition that line is the only one.

## Main definitions

* `Defines`: a line of a program defines a name
* `IsIndex`: what makes a look-up the index of some lines
* `Program.Loaded`: the programs that successful loads build

## Main results

* `Program.definitions_isIndex`: reading the definitions of a block keeps the index right
* `Program.Loaded.isIndex`: a program built by loads has the index of its lines
* `Program.Loaded.eq_of_lines`: a program built by loads is determined by its lines
* `Machine.Reachable.loaded`: the program of a reachable machine is built by loads
* `Machine.index_of_reachable`: the index of a reachable machine is that of its lines
-/

namespace LineScript

/-! ## The index of some lines -/

/-- The line at an index defines a name: it is a definition, and the name is its second word. -/
def Defines (lines : List Text) (i : Nat) (name : Text) : Prop :=
  ∃ line, lines[i]? = some line ∧ Line.isDefinition line = true ∧ line.words[1]? = some name

/-- A look-up is the index of some lines: it leads from a name to the last line that defines it.
Every definition gives a name and, unless redefinition is allowed, no two give the same. -/
structure IsIndex (redefine : Bool) (lines : List Text) (look : Text → Option Nat) : Prop where
  look_iff : ∀ name i,
    look name = some i ↔ Defines lines i name ∧ ∀ j, Defines lines j name → j ≤ i
  named : ∀ (i : Nat) (line : Text), lines[i]? = some line → Line.isDefinition line = true →
    ∃ name, line.words[1]? = some name
  unique : redefine = false → ∀ i j name, Defines lines i name → Defines lines j name → i = j

theorem Defines.lt {lines : List Text} {i : Nat} {name : Text} (h : Defines lines i name) :
    i < lines.length := by
  obtain ⟨line, hline, -, -⟩ := h
  exact (List.getElem?_eq_some_iff.mp hline).1

theorem getElem?_snoc_eq_some {lines : List Text} {line l : Text} {i : Nat} :
    (lines ++ [line])[i]? = some l ↔ lines[i]? = some l ∨ i = lines.length ∧ l = line := by
  rcases Nat.lt_or_ge i lines.length with hi | hi
  · rw [List.getElem?_append_left hi]
    exact ⟨Or.inl, fun h => h.resolve_right fun h => absurd h.1 (Nat.ne_of_lt hi)⟩
  · rw [List.getElem?_append_right hi, List.getElem?_singleton, List.getElem?_eq_none hi]
    constructor
    · intro h
      split_ifs at h with h0
      exact Or.inr ⟨by omega, (Option.some.inj h).symm⟩
    · rintro (h | ⟨rfl, rfl⟩)
      · cases h
      · simp

theorem defines_snoc {lines : List Text} {line : Text} {i : Nat} {name : Text} :
    Defines (lines ++ [line]) i name ↔ Defines lines i name ∨
      i = lines.length ∧ Line.isDefinition line = true ∧ line.words[1]? = some name := by
  simp only [Defines, getElem?_snoc_eq_some]
  constructor
  · rintro ⟨l, hl | ⟨hi, rfl⟩, hd, hn⟩
    · exact Or.inl ⟨l, hl, hd, hn⟩
    · exact Or.inr ⟨hi, hd, hn⟩
  · rintro (⟨l, hl, hd, hn⟩ | ⟨hi, hd, hn⟩)
    · exact ⟨l, Or.inl hl, hd, hn⟩
    · exact ⟨line, Or.inr ⟨hi, rfl⟩, hd, hn⟩

theorem isIndex_nil (redefine : Bool) : IsIndex redefine [] fun _ => none where
  look_iff name i := by
    constructor
    · intro h
      cases h
    · rintro ⟨⟨line, hline, -⟩, -⟩
      cases hline
  named i line hline := by cases hline
  unique _ i j name hi := by
    obtain ⟨line, hline, -⟩ := hi
    cases hline

namespace IsIndex

variable {redefine : Bool} {lines : List Text} {look : Text → Option Nat} {line name : Text}

/-- A name that some line defines is indexed: there is a last such line. -/
theorem exists_look (h : IsIndex redefine lines look) {i : Nat} (hi : Defines lines i name) :
    ∃ j, look name = some j := by
  -- a later line takes the place of one that is not the last
  induction hn : lines.length - i using Nat.strongRecOn generalizing i with
  | ind n ih =>
    by_cases hlast : ∀ j, Defines lines j name → j ≤ i
    · exact ⟨i, (h.look_iff name i).mpr ⟨hi, hlast⟩⟩
    · obtain ⟨j, hj⟩ := Classical.not_forall.mp hlast
      obtain ⟨hj, hlt⟩ := Classical.not_imp.mp hj
      have hlength := hj.lt
      exact ih (lines.length - j) (by omega) hj rfl

/-- A line that defines nothing leaves the index as it is. -/
theorem snoc_of_not_isDefinition (h : IsIndex redefine lines look)
    (hd : Line.isDefinition line = false) : IsIndex redefine (lines ++ [line]) look := by
  have hdef : ∀ i name, Defines (lines ++ [line]) i name ↔ Defines lines i name := by
    intro i name
    rw [defines_snoc, hd]
    simp
  refine ⟨fun name i => ?_, fun i l hl hdl => ?_, fun hr i j name hi hj => ?_⟩
  · simp only [hdef]
    exact h.look_iff name i
  · rcases getElem?_snoc_eq_some.mp hl with hl | ⟨-, rfl⟩
    · exact h.named i l hl hdl
    · exact absurd hdl (by simp [hd])
  · exact h.unique hr i j name ((hdef i name).mp hi) ((hdef j name).mp hj)

/-- A definition puts its name at its own line; it may take a name that is in use only where
redefinition is allowed. -/
theorem snoc_of_isDefinition (h : IsIndex redefine lines look)
    (hd : Line.isDefinition line = true) (hn : line.words[1]? = some name)
    (hfree : redefine = false → look name = none) :
    IsIndex redefine (lines ++ [line])
      fun key => if key = name then some lines.length else look key := by
  have hnew : ∀ i key, Defines (lines ++ [line]) i key ↔
      Defines lines i key ∨ i = lines.length ∧ name = key := by
    intro i key
    rw [defines_snoc, hd, hn]
    simp
  -- without redefinition no earlier line has the name, not even one that is not indexed
  have hnone : redefine = false → ∀ j, ¬ Defines lines j name := by
    intro hr j hj
    have hlook : look name = some j :=
      (h.look_iff name j).mpr ⟨hj, fun k hk => Nat.le_of_eq (h.unique hr k j name hk hj)⟩
    rw [hfree hr] at hlook
    cases hlook
  refine ⟨fun key i => ?_, fun i l hl hdl => ?_, fun hr i j key hi hj => ?_⟩
  · -- for the name itself, the line behind all others is the last one that defines it
    by_cases hk : key = name
    · subst hk
      simp only [if_true, Option.some.injEq, hnew, and_true]
      constructor
      · rintro rfl
        exact ⟨Or.inr rfl, fun j hj => hj.elim (fun hj => Nat.le_of_lt hj.lt) Nat.le_of_eq⟩
      · rintro ⟨hi, hlast⟩
        have hle := hlast lines.length (Or.inr rfl)
        rcases hi with hi | hi
        · exact absurd hi.lt (by omega)
        · exact hi.symm
    · simp only [if_neg hk, hnew, Ne.symm hk, and_false, or_false]
      exact h.look_iff key i
  · rcases getElem?_snoc_eq_some.mp hl with hl | ⟨-, rfl⟩
    · exact h.named i l hl hdl
    · exact ⟨name, hn⟩
  · rw [hnew] at hi hj
    rcases hi with hi | ⟨rfl, rfl⟩ <;> rcases hj with hj | ⟨rfl, hk⟩
    · exact h.unique hr i j key hi hj
    · exact absurd (hk ▸ hi) (hnone hr i)
    · exact absurd hj (hnone hr j)
    · rfl

end IsIndex

/-! ## Loading keeps the index right -/

namespace Program

/-- A line that is read either defines nothing, or adds its name to those found. -/
theorem addDefinition_eq_ok {redefine : Bool} {known found found' : Table Nat} {index : Nat}
    {line : Text} (h : addDefinition redefine known found index line = .ok found') :
    (Line.isDefinition line = false ∧ found' = found) ∨
      ∃ name, Line.isDefinition line = true ∧ line.words[1]? = some name ∧
        (redefine = false → (found.get? name).or (known.get? name) = none) ∧
        found' = found.insert name index := by
  unfold addDefinition at h
  split at h
  · next hd =>
    split at h
    · next hwords =>
      split at h
      · cases h
      · next name _ _ hnone =>
        refine Or.inr ⟨name, hd, by simp [hwords], fun hr => ?_, (Except.ok.inj h).symm⟩
        simp only [hr, Bool.false_eq_true, if_false, Option.or_eq_none_iff] at hnone ⊢
        exact hnone.symm
    · cases h
  · next hd => exact Or.inl ⟨Bool.eq_false_iff.mpr hd, (Except.ok.inj h).symm⟩

/-- **Reading the definitions of a block keeps the index right.** What was found in the block so
far goes before what was known. -/
theorem definitions_isIndex {redefine : Bool} {known found found' : Table Nat}
    {lines block : List Text} (hfound : found.Ordered)
    (hindex : IsIndex redefine lines fun name => (found.get? name).or (known.get? name))
    (h : definitions redefine known lines.length found block = .ok found') :
    found'.Ordered ∧
      IsIndex redefine (lines ++ block) fun name => (found'.get? name).or (known.get? name) := by
  induction block generalizing lines found with
  | nil =>
    obtain rfl := Except.ok.inj h
    rw [List.append_nil]
    exact ⟨hfound, hindex⟩
  | cons line block ih =>
    rw [definitions] at h
    split at h
    · next found₁ hadd =>
      -- one line more has been read: it joins the lines before the block
      rw [List.append_cons]
      rw [← List.length_singleton (a := line), ← List.length_append] at h
      rcases addDefinition_eq_ok hadd with ⟨hd, rfl⟩ | ⟨name, hd, hn, hfree, rfl⟩
      · exact ih hfound (hindex.snoc_of_not_isDefinition hd) h
      · refine ih (hfound.insert name _) ?_ h
        have hlook : (fun key => ((found.insert name lines.length).get? key).or (known.get? key)) =
            fun key => if key = name then some lines.length
              else (found.get? key).or (known.get? key) := by
          funext key
          rw [Table.get?_insert]
          split_ifs <;> rfl
        rw [hlook]
        exact hindex.snoc_of_isDefinition hd hn hfree
    · cases h

/-- Lines that define nothing add nothing to the definitions of a block. -/
theorem definitions_append {redefine : Bool} {known found found' : Table Nat} {index : Nat}
    {block later : List Text} (hlater : ∀ line ∈ later, Line.isDefinition line = false)
    (h : definitions redefine known index found block = .ok found') :
    definitions redefine known index found (block ++ later) = .ok found' := by
  induction block generalizing index found with
  | nil =>
    obtain rfl := Except.ok.inj h
    clear h
    induction later generalizing index with
    | nil => rfl
    | cons line later ih =>
      obtain ⟨hline, hlater⟩ := List.forall_mem_cons.mp hlater
      rw [List.nil_append, definitions, addDefinition, if_neg (by simp [hline])]
      exact ih hlater
  | cons line block ih =>
    rw [List.cons_append, definitions]
    rw [definitions] at h
    split at h
    · exact ih h
    · cases h

/-- The programs that successful loads build. -/
inductive Loaded (redefine : Bool) : Program → Prop
  | empty : Loaded redefine .empty
  | load {p p' : Program} {block : List Text} (hp : Loaded redefine p)
      (h : p.load redefine block = .ok p') : Loaded redefine p'

theorem load_eq_ok {p p' : Program} {redefine : Bool} {block : List Text}
    (h : p.load redefine block = .ok p') :
    ∃ found, p.definitionsOf redefine block = .ok found ∧ p' = p.append block found := by
  unfold load at h
  cases hd : p.definitionsOf redefine block with
  | error fault =>
    rw [hd] at h
    cases h
  | ok found =>
    rw [hd] at h
    exact ⟨found, rfl, (Except.ok.inj h).symm⟩

@[simp] theorem toList_lines_append (p : Program) (block : List Text) (found : Table Nat) :
    (p.append block found).lines.toList = p.lines.toList ++ block := by
  simp [append]

/-- **A program built by loads has the index of its lines.** -/
theorem Loaded.isIndex {redefine : Bool} {p : Program} (hp : p.Loaded redefine) :
    IsIndex redefine p.lines.toList p.functions.get? := by
  induction hp with
  | empty => exact isIndex_nil redefine
  | @load p p' block _ h ih =>
    obtain ⟨found, hd, rfl⟩ := load_eq_ok h
    -- a block begins with nothing found, so what is known is the index of the lines before it
    have hdefs : definitions redefine p.functions p.lines.toList.length .empty block = .ok found :=
      hd
    obtain ⟨hord, hindex⟩ := definitions_isIndex Table.ordered_empty ih hdefs
    have hget : (p.append block found).functions.get? =
        fun name => (found.get? name).or (p.functions.get? name) :=
      funext fun name => Table.get?_union p.functions hord name
    rw [hget, toList_lines_append]
    exact hindex

theorem Loaded.ordered {redefine : Bool} {p : Program} (hp : p.Loaded redefine) :
    p.functions.Ordered := by
  induction hp with
  | empty => exact Table.ordered_empty
  | load _ h ih =>
    obtain ⟨found, -, rfl⟩ := load_eq_ok h
    exact ih.union found

/-- **A program built by loads is determined by its lines**, however these were cut into blocks. -/
theorem Loaded.eq_of_lines {redefine : Bool} {p q : Program} (hp : p.Loaded redefine)
    (hq : q.Loaded redefine) (h : p.lines = q.lines) : p = q := by
  have hget : p.functions.get? = q.functions.get? := by
    funext name
    refine Option.ext fun i => ?_
    rw [hp.isIndex.look_iff, hq.isIndex.look_iff, h]
  obtain ⟨lines, functions⟩ := p
  obtain ⟨lines', functions'⟩ := q
  obtain rfl : lines = lines' := h
  exact congrArg (Program.mk lines) (hp.ordered.ext hq.ordered hget)

end Program

/-! ## Reachable machines -/

namespace Machine

/-- A block that can be loaded is. -/
theorem load_of_program {opts : Options} {m : Machine} {block : List Text} {p : Program}
    (h : m.program.load opts.redefine block = .ok p) :
    ∃ note, m.load opts block = ⟨{ m with program := p }, [.note note], .ok ()⟩ := by
  obtain ⟨found, hfound, rfl⟩ := Program.load_eq_ok h
  unfold load
  rw [hfound]
  exact ⟨_, rfl⟩

theorem load_of_ok {opts : Options} {m : Machine} {block : List Text} {p : Program}
    (h : m.program.load opts.redefine block = .ok p) :
    (m.load opts block).result = .ok () ∧ (m.load opts block).state = { m with program := p } := by
  obtain ⟨note, hload⟩ := load_of_program h
  rw [hload]
  exact ⟨rfl, rfl⟩

/-- A block that cannot be loaded is refused for the same fault. -/
theorem load_of_refused {opts : Options} {m : Machine} {block : List Text} {fault : Fault}
    (h : m.program.load opts.redefine block = .error fault) :
    m.load opts block = .fail m (.fault fault) := by
  unfold load
  unfold Program.load at h
  cases hfound : m.program.definitionsOf opts.redefine block with
  | error fault' =>
    rw [hfound] at h
    cases h
    rfl
  | ok found =>
    rw [hfound] at h
    cases h

/-- A submission leaves the program alone, unless it is a block of code that is accepted. -/
theorem Submits.program {opts : Options} {fuel : Nat} {m : Machine} {text : Text}
    {r : Reply Machine Unit} (h : Submits opts fuel m text r) :
    r.state.program = m.program ∨
      (text ≠ [] ∧ ModeCommand.ofText? text = none ∧ m.loading = true ∧ r.result = .ok ()) ∧
        m.program.load opts.redefine (blockLines text) = .ok r.state.program := by
  cases h with
  | nothing => exact Or.inl rfl
  | opened => exact Or.inl rfl
  | closed => exact Or.inl rfl
  | ran h => exact Or.inl (program_eq_of_code (run_code h))
  | loaded hne hc hl =>
    rcases m.load_cases opts (blockLines text) with ⟨fault, h⟩ | ⟨p, note, hp, h⟩
    · rw [h]
      exact Or.inl rfl
    · rw [h]
      exact Or.inr ⟨⟨hne, hc, hl, rfl⟩, hp⟩
  | refused => exact Or.inl rfl
  | updated => exact Or.inl rfl
  | called _ _ _ hf h => exact Or.inl (program_eq_of_code (callNow_code hf h))

/-- The program of a reachable machine is built by loads. -/
theorem Reachable.loaded {opts : Options} {m : Machine} (hm : m.Reachable opts) :
    m.program.Loaded opts.redefine := by
  induction hm with
  | initial => exact .empty
  | submit _ h ih =>
    obtain ⟨fuel, h⟩ := h
    rcases (submits_of_submit h).program with heq | ⟨-, hload⟩
    · rwa [heq]
    · exact .load ih hload
  | @step m _ ih => rwa [program_eq_of_code (m.step_code opts)]
  | reset _ ih => exact ih

/-- **The function index is always that of the line table**, for every reachable machine: a name
leads to the last line that defines it, every definition gives a name, and without redefinition
no two definitions give the same name. Submissions only append to the table, and only an accepted
block of code does so; steps and resets leave the program alone. -/
theorem index_of_reachable {opts : Options} {m : Machine} (hm : m.Reachable opts) :
    (∀ name i, m.program.functions.get? name = some i ↔
      Defines m.program.lines.toList i name ∧
        ∀ j, Defines m.program.lines.toList j name → j ≤ i) ∧
    (∀ (i : Nat) (line : Text), m.program.lines[i]? = some line →
      Line.isDefinition line = true → ∃ name, line.words[1]? = some name) ∧
    (opts.redefine = false → ∀ i j name, Defines m.program.lines.toList i name →
      Defines m.program.lines.toList j name → i = j) ∧
    (∀ text r, m.Answers opts text r →
      m.program.lines.toList <+: r.state.program.lines.toList ∧
        (r.state.program ≠ m.program →
          text ≠ [] ∧ ModeCommand.ofText? text = none ∧ m.loading = true ∧ r.result = .ok ())) ∧
    (m.step opts).state.program = m.program ∧ m.reset.program = m.program := by
  have hindex := hm.loaded.isIndex
  refine ⟨hindex.look_iff, fun i line hline => ?_, hindex.unique, ?_,
    program_eq_of_code (m.step_code opts), rfl⟩
  · exact hindex.named i line (by rwa [Array.getElem?_toList])
  · rintro text r ⟨fuel, h⟩
    -- a submission leaves the program alone or has been loaded
    rcases (submits_of_submit h).program with heq | ⟨haccepted, hload⟩
    · rw [heq]
      exact ⟨List.prefix_refl _, fun hne => absurd rfl hne⟩
    · obtain ⟨found, -, hp⟩ := Program.load_eq_ok hload
      refine ⟨?_, fun _ => haccepted⟩
      rw [hp]
      simp [Program.append]

/-- A name that is defined again leads to the later line. -/
theorem index_of_redefined :
    ∃ m, Reachable { redefine := true } m ∧
      m.program.lines = #[utf8 "def f", utf8 " set a 1", utf8 "def f"] ∧
      Defines m.program.lines.toList 2 (utf8 "f") ∧
      ∀ j, Defines m.program.lines.toList j (utf8 "f") → j ≤ 2 := by
  have hopened : Reachable { redefine := true } { Machine.initial with loading := true } :=
    .submit .initial ⟨0, (rfl : Machine.initial.submit _ 0 (utf8 "set code") = some _)⟩
  obtain ⟨r, hr, hlines, hf⟩ : ∃ r, { Machine.initial with loading := true }.submit
      { redefine := true } 0 (utf8 "def f\n set a 1\ndef f") = some r ∧
      r.state.program.lines = #[utf8 "def f", utf8 " set a 1", utf8 "def f"] ∧
      r.state.program.functions.get? (utf8 "f") = some 2 := ⟨_, rfl, rfl, rfl⟩
  have hm := hopened.submit ⟨0, hr⟩
  obtain ⟨hlast, hle⟩ := ((index_of_reachable hm).1 (utf8 "f") 2).mp hf
  exact ⟨r.state, hm, hlines, hlast, hle⟩

end Machine

end LineScript

import LineScript.Proofs.FunctionIndex

/-!
# Loading in parts

The lines of a block are read from the first one on, and what is found in them is compared with the
names that are known already. It makes no difference where a name has been found, in an earlier
block or earlier in the same one. So a block may be cut in two and loaded in parts: it is accepted
if both parts are, with the same program, and otherwise it is refused for the same fault.

## Main definitions

* `Program.SameNames`: two readers of a block have met the same names at the same lines

## Main results

* `Program.definitions_append_eq`: the definitions of a block are read in two parts
* `Program.definitions_same`: readers that have met the same names read the same blocks alike
* `Program.load_append`: loading two blocks together is loading one after the other
* `Program.Loaded.exists_load`: a block is loaded if its definitions give names that are free
* `Machine.load_in_parts`: a refused block leaves no trace, and an accepted one may come in parts
-/

namespace LineScript.Program

variable {redefine : Bool} {known found known' found' : Table Nat} {index : Nat} {line name : Text}
  {block : List Text} {p : Program}

/-- The definitions of a block are read in two parts. -/
theorem definitions_append_eq (redefine : Bool) (known found : Table Nat) (index : Nat)
    (block later : List Text) :
    definitions redefine known index found (block ++ later) =
      (definitions redefine known index found block).bind fun found =>
        definitions redefine known (index + block.length) found later := by
  induction block generalizing index found with
  | nil => rfl
  | cons line block ih =>
    rw [List.cons_append, definitions, definitions]
    cases addDefinition redefine known found index line with
    | error fault => rfl
    | ok found =>
      dsimp only
      rw [ih, List.length_cons, Nat.add_assoc, Nat.add_comm 1]

/-! ## Readers of the same block -/

/-- The line by which a name has become known, in an earlier block or in this one. -/
def firstOf (known found : Table Nat) (name : Text) : Option Nat :=
  (known.get? name).or (found.get? name)

/-- Two readers have met the same names at the same lines. Where redefinition is allowed, names are
not compared. -/
def SameNames (redefine : Bool) (known found known' found' : Table Nat) : Prop :=
  redefine = false → ∀ name, firstOf known found name = firstOf known' found' name

theorem firstOf_insert (h : known.get? name = none) (key : Text) :
    firstOf known (found.insert name index) key =
      if key = name then some index else firstOf known found key := by
  unfold firstOf
  rw [Table.get?_insert]
  split_ifs with hkey
  · rw [hkey, h]
    rfl
  · rfl

/-- **What a line does to its reader.** It is no definition, or one without a name, or it gives a
name that is added unless it is taken. -/
inductive Reads (redefine : Bool) (index : Nat) (line : Text) : Prop
  | nothing (h : ∀ known found, addDefinition redefine known found index line = .ok found)
  | nameless (fault : Fault)
      (h : ∀ known found, addDefinition redefine known found index line = .error fault)
  | named (name : Text)
      (hfree : ∀ known found, (redefine = false → firstOf known found name = none) →
        addDefinition redefine known found index line = .ok (found.insert name index))
      (htaken : ∀ known found first, redefine = false → firstOf known found name = some first →
        addDefinition redefine known found index line =
          .error (.duplicateDefinition name index first))

/-- A definition whose name is free is read. -/
theorem addDefinition_of_free (hd : Line.isDefinition line = true)
    (hn : line.words[1]? = some name)
    (hfree : redefine = false → firstOf known found name = none) :
    addDefinition redefine known found index line = .ok (found.insert name index) := by
  have hnone : (if redefine then none else firstOf known found name) = none := by
    cases redefine with
    | true => rfl
    | false => exact hfree rfl
  rw [addDefinition, if_pos hd]
  cases hwords : line.words with
  | nil => simp [hwords] at hn
  | cons word arguments =>
    cases arguments with
    | nil => simp [hwords] at hn
    | cons second rest =>
      obtain rfl : second = name := by simpa [hwords] using hn
      simp only [firstOf] at hnone
      simp only [hnone]

theorem reads (redefine : Bool) (index : Nat) (line : Text) : Reads redefine index line := by
  by_cases hd : Line.isDefinition line = true
  · cases hwords : line.words with
    | nil => exact .nameless _ fun known found => by rw [addDefinition, if_pos hd, hwords]
    | cons word arguments =>
      cases arguments with
      | nil => exact .nameless _ fun known found => by rw [addDefinition, if_pos hd, hwords]
      | cons name rest =>
        refine .named name (fun known found => ?_) fun known found first hr htaken => ?_
        · exact addDefinition_of_free hd (by simp [hwords])
        · subst hr
          simp only [addDefinition, if_pos hd, hwords]
          simp only [firstOf] at htaken
          simp only [Bool.false_eq_true, if_false, htaken]
  · exact .nothing fun known found => by rw [addDefinition, if_neg hd]

/-- A name that is not taken is new to both readers, and then known to both. -/
theorem SameNames.insert (h : SameNames redefine known found known' found')
    (hfree : redefine = false → firstOf known found name = none) (index : Nat) :
    SameNames redefine known (found.insert name index) known' (found'.insert name index) := by
  intro hr key
  have hnone := hfree hr
  have hnone' := (h hr name).symm.trans hnone
  rw [firstOf_insert (Option.or_eq_none_iff.mp hnone).1,
    firstOf_insert (Option.or_eq_none_iff.mp hnone').1, h hr key]

/-- **Readers that have met the same names refuse the same blocks**, for the same fault, and make
the same index of a block that they accept. -/
theorem definitions_same (h : SameNames redefine known found known' found')
    (hfound : found.Ordered) (hfound' : found'.Ordered)
    (hunion : known.union found = known'.union found') :
    (definitions redefine known index found block).map known.union =
      (definitions redefine known' index found' block).map known'.union := by
  induction block generalizing index found found' with
  | nil => exact congrArg Except.ok hunion
  | cons line block ih =>
    rw [definitions, definitions]
    cases reads redefine index line with
    | nothing hline =>
      rw [hline, hline]
      exact ih h hfound hfound' hunion
    | nameless fault hline =>
      rw [hline, hline]
      rfl
    | named name hfree htaken =>
      by_cases hname : redefine = false → firstOf known found name = none
      · have hname' : redefine = false → firstOf known' found' name = none :=
          fun hr => (h hr name).symm.trans (hname hr)
        rw [hfree known found hname, hfree known' found' hname']
        apply ih (h.insert hname index) (hfound.insert name index) (hfound'.insert name index)
        rw [Table.union_insert known hfound, Table.union_insert known' hfound', hunion]
      · obtain ⟨hr, hsome⟩ := Classical.not_imp.mp hname
        obtain ⟨first, hfirst⟩ := Option.ne_none_iff_exists'.mp hsome
        rw [htaken known found first hr hfirst,
          htaken known' found' first hr ((h hr name).symm.trans hfirst)]
        rfl

/-! ## Two blocks -/

/-- Without redefinition, what is found in a block was not known before. -/
theorem definitions_fresh (hr : redefine = false)
    (hfresh : ∀ name, found.get? name ≠ none → known.get? name = none)
    (h : definitions redefine known index found block = .ok found') :
    ∀ name, found'.get? name ≠ none → known.get? name = none := by
  induction block generalizing index found with
  | nil =>
    cases h
    exact hfresh
  | cons line block ih =>
    rw [definitions] at h
    split at h
    · next found₁ hadd =>
      refine ih (fun key hkey => ?_) h
      rcases addDefinition_eq_ok hadd with ⟨-, rfl⟩ | ⟨name, -, -, hfree, rfl⟩
      · exact hfresh key hkey
      · rw [Table.get?_insert] at hkey
        split_ifs at hkey with hname
        · rw [hname]
          exact (Option.or_eq_none_iff.mp (hfree hr)).2
        · exact hfresh key hkey
    · cases h

/-- What is found in a block is kept in order. -/
theorem definitions_ordered (hfound : found.Ordered)
    (h : definitions redefine known index found block = .ok found') : found'.Ordered := by
  induction block generalizing index found with
  | nil =>
    cases h
    exact hfound
  | cons line block ih =>
    rw [definitions] at h
    split at h
    · next found₁ hadd =>
      refine ih ?_ h
      rcases addDefinition_eq_ok hadd with ⟨-, rfl⟩ | ⟨name, -, -, -, rfl⟩
      · exact hfound
      · exact hfound.insert name index
    · cases h

/-- Behind a block, its names count as known as they did inside. -/
theorem sameNames_append (h : p.definitionsOf redefine block = .ok found) :
    SameNames redefine p.functions found (p.append block found).functions .empty := by
  intro hr name
  have hordered : found.Ordered := definitions_ordered Table.ordered_empty h
  have hfresh := definitions_fresh hr (fun _ hnone => absurd (Table.get?_empty _) hnone) h name
  have hunion : (p.append block found).functions.get? name =
      (found.get? name).or (p.functions.get? name) := Table.get?_union p.functions hordered name
  rw [firstOf, firstOf, hunion, Table.get?_empty, Option.or_none]
  cases hfound : found.get? name with
  | none => exact Option.or_none
  | some first =>
    rw [hfresh (by simp [hfound])]
    rfl

theorem size_append (p : Program) (block : List Text) (found : Table Nat) :
    (p.append block found).size = p.size + block.length := by
  rw [size, size, ← Array.length_toList, toList_lines_append, List.length_append,
    Array.length_toList]

theorem load_of_definitions (h : p.definitionsOf redefine block = .ok found) :
    p.load redefine block = .ok (p.append block found) := by
  rw [Program.load, h]
  rfl

theorem load_of_fault {fault : Fault} (h : p.definitionsOf redefine block = .error fault) :
    p.load redefine block = .error fault := by
  rw [Program.load, h]
  rfl

theorem lines_of_load {q : Program} (h : p.load redefine block = .ok q) :
    q.lines.toList = p.lines.toList ++ block := by
  obtain ⟨found, -, rfl⟩ := load_eq_ok h
  exact p.toList_lines_append block found

theorem load_nil (redefine : Bool) (p : Program) : p.load redefine [] = .ok p := by
  have hload : p.load redefine [] = .ok (p.append [] .empty) := load_of_definitions rfl
  rw [hload]
  simp [append, Table.union, Table.empty]

/-- A block is loaded with the index that the reader has made of it. -/
theorem load_eq_map (p : Program) (redefine : Bool) (block : List Text) :
    p.load redefine block =
      ((p.definitionsOf redefine block).map p.functions.union).map
        (Program.mk (p.lines ++ block)) := by
  rw [Program.load]
  cases p.definitionsOf redefine block <;> rfl

/-- **Loading two blocks together is loading one after the other**, whatever has been loaded before.
The first fault decides, and it is the same. -/
theorem load_append (p : Program) (redefine : Bool) (block later : List Text) :
    p.load redefine (block ++ later) =
      (p.load redefine block).bind fun q => q.load redefine later := by
  have hboth : p.definitionsOf redefine (block ++ later) =
      (p.definitionsOf redefine block).bind fun found =>
        definitions redefine p.functions (p.size + block.length) found later :=
    definitions_append_eq redefine p.functions .empty p.size block later
  cases hfirst : p.definitionsOf redefine block with
  | error fault =>
    rw [hfirst] at hboth
    rw [load_of_fault hboth, load_of_fault hfirst]
    rfl
  | ok found =>
    rw [hfirst] at hboth
    -- the rest is read with the names of the first block found, or known
    have hrest : (p.definitionsOf redefine (block ++ later)).map p.functions.union =
        ((p.append block found).definitionsOf redefine later).map
          (p.append block found).functions.union := by
      rw [hboth, definitionsOf, size_append]
      exact definitions_same (sameNames_append hfirst)
        (definitions_ordered Table.ordered_empty hfirst) Table.ordered_empty rfl
    have hlines : p.lines ++ (block ++ later) = (p.append block found).lines ++ later := by
      apply Array.ext'
      simp [append]
    rw [load_of_definitions hfirst]
    change _ = (p.append block found).load redefine later
    rw [load_eq_map, load_eq_map, hrest, hlines]

/-! ## Blocks that can be loaded -/

/-- A single line is loaded unless it is a definition without a name, or with one that is taken. -/
theorem exists_load_line
    (hnamed : Line.isDefinition line = true → ∃ name, line.words[1]? = some name)
    (hfree : redefine = false → Line.isDefinition line = true → ∀ name,
      line.words[1]? = some name → p.functions.get? name = none) :
    ∃ q, p.load redefine [line] = .ok q := by
  obtain ⟨found, hfound⟩ : ∃ found,
      addDefinition redefine p.functions .empty p.size line = .ok found := by
    by_cases hd : Line.isDefinition line = true
    · obtain ⟨name, hn⟩ := hnamed hd
      refine ⟨_, addDefinition_of_free hd hn fun hr => ?_⟩
      rw [firstOf, hfree hr hd name hn]
      rfl
    · exact ⟨.empty, by rw [addDefinition, if_neg hd]⟩
  have hdefinitions : p.definitionsOf redefine [line] = .ok found := by
    rw [definitionsOf, definitions, hfound]
    rfl
  exact ⟨_, load_of_definitions hdefinitions⟩

/-- **A block is loaded if its definitions give names** and, unless redefinition is allowed, no two
lines of the program would define the same. -/
theorem Loaded.exists_load (hp : p.Loaded redefine)
    (hnamed : ∀ line ∈ block, Line.isDefinition line = true → ∃ name, line.words[1]? = some name)
    (hunique : redefine = false → ∀ i j name, Defines (p.lines.toList ++ block) i name →
      Defines (p.lines.toList ++ block) j name → i = j) :
    ∃ q, p.load redefine block = .ok q := by
  induction block generalizing p with
  | nil => exact ⟨p, load_nil redefine p⟩
  | cons line block ih =>
    obtain ⟨hline, hnamed⟩ := List.forall_mem_cons.mp hnamed
    have hhere : (p.lines.toList ++ line :: block)[p.lines.toList.length]? = some line := by simp
    -- the name of the line is at no earlier line
    have hfree : redefine = false → Line.isDefinition line = true → ∀ name,
        line.words[1]? = some name → p.functions.get? name = none := by
      intro hr hd name hn
      refine Option.eq_none_iff_forall_ne_some.mpr fun i hi => ?_
      obtain ⟨hdefines, -⟩ := (hp.isIndex.look_iff name i).mp hi
      have hlt := hdefines.lt
      obtain ⟨earlier, hearlier, hd', hn'⟩ := hdefines
      rw [← List.getElem?_append_left hlt] at hearlier
      have heq := hunique hr i p.lines.toList.length name ⟨earlier, hearlier, hd', hn'⟩
        ⟨line, hhere, hd, hn⟩
      exact absurd heq (Nat.ne_of_lt hlt)
    obtain ⟨p', hp'⟩ := exists_load_line hline hfree
    have hlines : p'.lines.toList ++ block = p.lines.toList ++ line :: block := by
      rw [lines_of_load hp', List.append_assoc, List.singleton_append]
    obtain ⟨q, hq⟩ := ih (.load hp hp') hnamed (by rwa [hlines])
    refine ⟨q, ?_⟩
    rw [← List.singleton_append, load_append, hp']
    exact hq

end LineScript.Program

namespace LineScript.Machine

/-- **Loading is atomic and compositional**, for every machine. A block that is refused leaves the
machine as it is, and is refused for the same fault when more lines follow it. Behind a block that
is accepted, more lines are accepted exactly if they are accepted together with the block, and then
the machine is the same; or they are refused for the same fault, and each of the two refusals leaves
the machine that it has found. -/
theorem load_in_parts (opts : Options) (m : Machine) (block later : List Text) :
    (∀ failure, (m.load opts block).result = .error failure →
      (m.load opts block).state = m ∧
        (m.load opts (block ++ later)).result = .error failure ∧
        (m.load opts (block ++ later)).state = m) ∧
    ((m.load opts block).result = .ok () →
      ((m.load opts (block ++ later)).result = .ok () ∧
        ((m.load opts block).state.load opts later).result = .ok () ∧
        ((m.load opts block).state.load opts later).state =
          (m.load opts (block ++ later)).state ∧
        (m.load opts (block ++ later)).state.program.lines.toList =
          m.program.lines.toList ++ block ++ later) ∨
      ∃ failure, (m.load opts (block ++ later)).result = .error failure ∧
        ((m.load opts block).state.load opts later).result = .error failure ∧
        (m.load opts (block ++ later)).state = m ∧
        ((m.load opts block).state.load opts later).state = (m.load opts block).state) := by
  have happend := m.program.load_append opts.redefine block later
  cases hp : m.program.load opts.redefine block with
  | error fault =>
    -- the block is refused, and the rest is not read
    rw [hp] at happend
    rw [load_of_refused hp, load_of_refused happend]
    constructor
    · intro failure hfailure
      exact ⟨rfl, hfailure, rfl⟩
    · intro hok
      cases hok
  | ok p =>
    -- the block is accepted, and the rest decides
    rw [hp] at happend
    obtain ⟨hresult, hstate⟩ := load_of_ok hp
    constructor
    · intro failure hfailure
      rw [hresult] at hfailure
      cases hfailure
    intro _
    rw [hstate]
    cases hlater : p.load opts.redefine later with
    | error fault =>
      have hboth : m.program.load opts.redefine (block ++ later) = .error fault :=
        happend.trans hlater
      have hrefused : { m with program := p }.load opts later =
          .fail { m with program := p } (.fault fault) := load_of_refused hlater
      rw [load_of_refused hboth, hrefused]
      exact Or.inr ⟨.fault fault, rfl, rfl, rfl, rfl⟩
    | ok q =>
      have hboth : m.program.load opts.redefine (block ++ later) = .ok q := happend.trans hlater
      obtain ⟨hresult₁, hstate₁⟩ := load_of_ok hboth
      obtain ⟨hresult₂, hstate₂⟩ : ({ m with program := p }.load opts later).result = .ok () ∧
          ({ m with program := p }.load opts later).state = { m with program := q } :=
        load_of_ok hlater
      refine Or.inl ⟨hresult₁, hresult₂, hstate₂.trans hstate₁.symm, ?_⟩
      rw [hstate₁, List.append_assoc]
      exact Program.lines_of_load hboth

/-- A block whose last line gives the name of its first one, cut in the middle. -/
def cutBlock : List Text × List Text :=
  ([utf8 "def f", utf8 " set a 1"], [utf8 "def g", utf8 "def f"])

/-- The block is refused at its last line, and so is its second half behind the first one. -/
theorem load_of_cutBlock :
    (Machine.initial.load {} cutBlock.1).result = .ok () ∧
      (Machine.initial.load {} (cutBlock.1 ++ cutBlock.2)).result =
        .error (.fault (.duplicateDefinition (utf8 "f") 3 0)) ∧
      ((Machine.initial.load {} cutBlock.1).state.load {} cutBlock.2).result =
        .error (.fault (.duplicateDefinition (utf8 "f") 3 0)) ∧
      ((Machine.initial.load {} cutBlock.1).state.load {} cutBlock.2).state =
        (Machine.initial.load {} cutBlock.1).state := by
  have hfirst : (Machine.initial.load {} cutBlock.1).result = .ok () := rfl
  have hboth : (Machine.initial.load {} (cutBlock.1 ++ cutBlock.2)).result =
      .error (.fault (.duplicateDefinition (utf8 "f") 3 0)) := rfl
  obtain ⟨hok, -⟩ | ⟨failure, hfailure, hlater, -, hstate⟩ :=
    (load_in_parts {} Machine.initial cutBlock.1 cutBlock.2).2 hfirst
  · rw [hboth] at hok
    cases hok
  · rw [hboth] at hfailure
    exact ⟨hfirst, hboth, hlater.trans hfailure.symm, hstate⟩

end LineScript.Machine

import LineScript.Proofs.SingleSteps

/-!
# What a line means

The text of a line is looked at in many places: when it is loaded, when control passes over
definitions, when a body ends, when its statement is performed. All of them look at the same two
things, whether the line is indented and which are its first three words. Lines that agree in these
may be exchanged, and the program loads and runs as before. Only a failure shows the text of the
line at which it happened.

## Main definitions

* `Line.gist`: the indentation of a line and its first three words
* `Program.ReadsAs`: two programs with the same functions, whose lines agree in their gist
* `Machine.withProgram`: the same machine with another program
* `Machine.RepliesAlike`, `Machine.AnswersAlike`: replies that only the program and the text of a
  line at fault tell apart

## Main results

* `Program.definitions_gist`: the definitions of a block depend on the gist of its lines
* `Machine.step_alike`, `Machine.loop_alike`: so do steps, and so does execution
* `Machine.lines_mean_their_gist`: lines of the same gist load and run alike
-/

namespace LineScript

/-! ## The gist of a line -/

namespace Line

/-- What a line means: its indentation and its first three words. -/
def gist (line : Text) : Bool × List Text := (isIndented line, line.words.take 3)

variable {line line' : Text}

theorem isIndented_gist (h : gist line = gist line') : isIndented line = isIndented line' :=
  congrArg Prod.fst h

theorem words_gist (h : gist line = gist line') : line.words.take 3 = line'.words.take 3 :=
  congrArg Prod.snd h

theorem isDefinition_gist (h : gist line = gist line') :
    isDefinition line = isDefinition line' := by
  have hhead : ∀ words : List Text, words.head? = (words.take 3).head? := by
    intro words
    cases words <;> rfl
  rw [isDefinition, isDefinition, hhead line.words, hhead line'.words, isIndented_gist h,
    words_gist h]

theorem isSkipped_gist (h : gist line = gist line') : isSkipped line = isSkipped line' := by
  rw [isSkipped, isSkipped, isIndented_gist h, isDefinition_gist h]

/-- As many lines belong to functions in front of others of the same gist. -/
theorem length_takeWhile_gist {lines lines' : List Text} (h : lines.map gist = lines'.map gist) :
    (lines.takeWhile isSkipped).length = (lines'.takeWhile isSkipped).length := by
  induction lines generalizing lines' with
  | nil =>
    rw [List.map_nil, eq_comm, List.map_eq_nil_iff] at h
    rw [h]
  | cons line lines ih =>
    obtain ⟨line', rest, rfl, hline, hrest⟩ := List.map_eq_cons_iff.mp h.symm
    rw [List.takeWhile_cons, List.takeWhile_cons, isSkipped_gist hline]
    split
    · rw [List.length_cons, List.length_cons, ih hrest.symm]
    · rfl

end Line

/-- No statement has more than two arguments. -/
theorem Statement.ofWords_take (words : List Text) : ofWords (words.take 3) = ofWords words := by
  rcases words with _ | ⟨keyword, _ | ⟨first, _ | ⟨second, rest⟩⟩⟩
  · rfl
  · rfl
  · rfl
  · rw [List.take_succ_cons, ofWords, ofWords]
    cases Keyword.ofWord? keyword with
    | none => rfl
    | some k => cases k <;> rfl

theorem Statement.ofLine_gist {line line' : Text} (h : Line.gist line = Line.gist line') :
    ofLine line = ofLine line' := by
  rw [ofLine, ofLine, ← ofWords_take line.words, Line.words_gist h, ofWords_take]

/-! ## Loading -/

namespace Program

variable {redefine : Bool} {known found : Table Nat} {index : Nat} {line line' : Text}
  {block block' : List Text}

theorem exists_words_of_second {words : List Text} {name : Text} (h : words[1]? = some name) :
    ∃ word rest, words = word :: name :: rest := by
  rcases words with _ | ⟨word, _ | ⟨second, rest⟩⟩
  · cases h
  · cases h
  · exact ⟨word, rest, by rw [Option.some.inj h]⟩

theorem addDefinition_of_nameless (hd : Line.isDefinition line = true)
    (hn : line.words[1]? = none) :
    addDefinition redefine known found index line = .error (.namelessDefinition line index) := by
  rw [addDefinition, if_pos hd]
  split
  · next hwords =>
    rw [hwords] at hn
    cases hn
  · rfl

/-- Results that agree up to the texts of their faults are faults of the same kind, or the same
value. -/
theorem alike_of_mapError {α : Type} {x y : Except Fault α}
    (h : x.mapError Fault.kind = y.mapError Fault.kind) :
    (∃ fault fault' : Fault, x = .error fault ∧ y = .error fault' ∧ fault'.kind = fault.kind) ∨
      ∃ value, x = .ok value ∧ y = .ok value := by
  cases x <;> cases y
  case error.error fault fault' =>
    exact Or.inl ⟨fault, fault', rfl, rfl, (Except.error.inj h).symm⟩
  case ok.ok value value' => exact Or.inr ⟨value, rfl, by rw [Except.ok.inj h]⟩
  case error.ok => cases h
  case ok.error => cases h

/-- A line adds the same definition as another one of its gist, or both are at fault for the same
kind of reason. -/
theorem addDefinition_gist (redefine : Bool) (known found : Table Nat) (index : Nat)
    (h : Line.gist line = Line.gist line') :
    (addDefinition redefine known found index line).mapError Fault.kind =
      (addDefinition redefine known found index line').mapError Fault.kind := by
  have hname : line.words[1]? = line'.words[1]? := by
    have htake : ∀ words : List Text, (words.take 3)[1]? = words[1]? :=
      fun words => List.getElem?_take_of_lt (by decide)
    rw [← htake line.words, Line.words_gist h, htake]
  have hsame := Line.isDefinition_gist h
  by_cases hd : Line.isDefinition line = true
  · have hd' : Line.isDefinition line' = true := hsame.symm.trans hd
    cases hn : line'.words[1]? with
    | none =>
      -- the faults show the texts of the lines, but they are of the same kind
      rw [addDefinition_of_nameless hd (hname.trans hn), addDefinition_of_nameless hd' hn]
      rfl
    | some name =>
      obtain ⟨word, rest, hwords⟩ := exists_words_of_second (hname.trans hn)
      obtain ⟨word', rest', hwords'⟩ := exists_words_of_second hn
      rw [addDefinition, addDefinition, if_pos hd, if_pos hd', hwords, hwords']
  · rw [addDefinition, addDefinition, if_neg hd, if_neg (hsame ▸ hd)]

/-- **The definitions of a block depend on the gist of its lines.** -/
theorem definitions_gist (redefine : Bool) (known found : Table Nat) (index : Nat)
    (h : block.map Line.gist = block'.map Line.gist) :
    (definitions redefine known index found block).mapError Fault.kind =
      (definitions redefine known index found block').mapError Fault.kind := by
  induction block generalizing block' index found with
  | nil =>
    rw [List.map_nil, eq_comm, List.map_eq_nil_iff] at h
    rw [h]
  | cons line block ih =>
    obtain ⟨line', block', rfl, hline, hblock⟩ := List.map_eq_cons_iff.mp h.symm
    rw [definitions, definitions]
    -- a fault ends the reading of both blocks, and otherwise both go on with the same definitions
    obtain ⟨fault, fault', hleft, hright, hkind⟩ | ⟨added, hleft, hright⟩ :=
      alike_of_mapError (addDefinition_gist redefine known found index hline.symm)
    · rw [hleft, hright]
      exact congrArg Except.error hkind.symm
    · rw [hleft, hright]
      exact ih _ _ hblock.symm

/-! ## Programs of the same gist -/

/-- Two programs with the same functions, whose lines agree in their gist. -/
structure ReadsAs (p q : Program) : Prop where
  functions : q.functions = p.functions
  lines : q.lines.toList.map Line.gist = p.lines.toList.map Line.gist

namespace ReadsAs

variable {p q : Program}

theorem size (h : p.ReadsAs q) : q.size = p.size := by
  have hlength := congrArg List.length h.lines
  rwa [List.length_map, List.length_map] at hlength

/-- Where one program has a line, the other one has a line of the same gist. -/
theorem getElem? (h : p.ReadsAs q) (i : Nat) :
    q.lines[i]? = none ∧ p.lines[i]? = none ∨
      ∃ line line', p.lines[i]? = some line ∧ q.lines[i]? = some line' ∧
        Line.gist line = Line.gist line' := by
  have hlines := congrArg (·[i]?) h.lines
  simp only [List.getElem?_map, Array.getElem?_toList] at hlines
  cases hp : p.lines[i]? with
  | none =>
    rw [hp, Option.map_none, Option.map_eq_none_iff] at hlines
    exact Or.inl ⟨hlines, rfl⟩
  | some line =>
    rw [hp, Option.map_some] at hlines
    obtain ⟨line', hq, hgist⟩ := Option.map_eq_some_iff.mp hlines
    exact Or.inr ⟨line, line', rfl, hq, hgist.symm⟩

/-- What depends on the gist of a line is the same at each position. -/
theorem any_eq (h : p.ReadsAs q) {f : Text → Bool}
    (hf : ∀ {line line' : Text}, Line.gist line = Line.gist line' → f line = f line') (i : Nat) :
    q.lines[i]?.any f = p.lines[i]?.any f := by
  obtain ⟨hq, hp⟩ | ⟨line, line', hp, hq, hgist⟩ := h.getElem? i
  · rw [hp, hq]
  · rw [hp, hq]
    exact (hf hgist).symm

theorem leavesBlock (h : p.ReadsAs q) (pc : Nat) : q.leavesBlock pc = p.leavesBlock pc := by
  have hbefore := h.any_eq Line.isSkipped_gist (pc - 1)
  unfold Program.leavesBlock
  obtain ⟨hq, hp⟩ | ⟨line, line', hp, hq, hgist⟩ := h.getElem? pc
  · rw [hp, hq]
  · rw [hp, hq]
    simp only [hbefore, Line.isIndented_gist hgist]

theorem afterDefinitions (h : p.ReadsAs q) (pc : Nat) :
    q.afterDefinitions pc = p.afterDefinitions pc := by
  have hdrop : (q.lines.toList.drop pc).map Line.gist = (p.lines.toList.drop pc).map Line.gist := by
    rw [List.map_drop, List.map_drop, h.lines]
  rw [Program.afterDefinitions, Program.afterDefinitions, Line.length_takeWhile_gist hdrop]

end ReadsAs

end Program

/-! ## Execution -/

namespace Machine

variable {opts : Options} {m : Machine} {p q : Program}

/-- The same machine with another program. -/
def withProgram (m : Machine) (q : Program) : Machine := { m with program := q }

theorem unwind_readsAs (h : p.ReadsAs q) (target : Option Nat) (calls : Stack Nat) (pc : Nat) :
    unwind q target pc calls = unwind p target pc calls := by
  induction calls using Stack.push_induction generalizing pc with
  | empty => rfl
  | push calls call ih => simp only [unwind_push, h.leavesBlock, ih]

theorem advance_withProgram (h : m.program.ReadsAs q) :
    (m.withProgram q).advance =
      ⟨m.advance.machine.withProgram q, m.advance.events, m.advance.halted⟩ := by
  have hlanding : unwind q m.returnDepth (m.pc + 1) m.calls =
      unwind m.program m.returnDepth (m.pc + 1) m.calls :=
    unwind_readsAs h _ _ _
  unfold advance withProgram
  dsimp only
  rw [hlanding, h.size]
  split
  · rfl
  · split <;> rfl

theorem skipDefinitions_withProgram (h : m.program.ReadsAs q) :
    (m.withProgram q).skipDefinitions =
      (m.skipDefinitions.1.withProgram q, m.skipDefinitions.2) := by
  unfold skipDefinitions withProgram
  dsimp only
  rw [h.any_eq Line.isDefinition_gist, h.afterDefinitions]
  split <;> rfl

theorem halts_withProgram (h : m.program.ReadsAs q) : (m.withProgram q).halts = m.halts := by
  rw [halts, halts, advance_withProgram h]
  rfl

/-- The text of a line of a program, empty behind the last line. -/
def sourceAt (p : Program) (line : Nat) : Text := p.lines[line]?.getD []

/-- **Two results are alike**: both are successes, or both are failures at the same line with the
same cause, where each of them shows the text that the line has in its program. -/
inductive ResultsAlike {α : Type} (p q : Program) : Except Failure α → Except Failure α → Prop
  | ok (value : α) : ResultsAlike p q (.ok value) (.ok value)
  | failed (line : Nat) (cause : Failure) :
      ResultsAlike p q (.error (.atLine line (sourceAt p line) cause))
        (.error (.atLine line (sourceAt q line) cause))

theorem ResultsAlike.of_eq {α : Type} {value value' : α} (h : value' = value) :
    ResultsAlike p q (.ok value) (.ok value') := by
  rw [h]
  exact .ok value

/-- What is alike to a failure at a line is a failure at this line. -/
theorem ResultsAlike.eq_of_atLine {α : Type} (line : Nat) {source : Text} {cause : Failure}
    {result : Except Failure α}
    (h : ResultsAlike p q (.error (.atLine line source cause)) result) :
    result = .error (.atLine line (sourceAt q line) cause) := by
  generalize hfailed : (Except.error (.atLine line source cause) : Except Failure α) = failed at h
  cases h with
  | ok value => cases hfailed
  | failed line' cause' =>
    injection hfailed with hfailed
    injection hfailed with hline _ hcause
    rw [hcause, Int.ofNat.inj hline]

/-- **Two replies are alike**: the same is written, the results are alike, and the machines differ
in their programs only. -/
structure RepliesAlike {α : Type} (p q : Program) (r r' : Reply Machine α) : Prop where
  state : r'.state = r.state.withProgram q
  output : Event.outputOf r'.events = Event.outputOf r.events
  result : ResultsAlike p q r.result r'.result

/-- Both machines come to lines of the same gist, which have the same action. -/
theorem upcoming_withProgram (opts : Options) (h : m.program.ReadsAs q) :
    m.upcoming? opts = none ∧ (m.withProgram q).upcoming? opts = none ∨
      ∃ pc action, m.upcoming? opts = some (⟨pc, sourceAt m.program pc⟩, action) ∧
        (m.withProgram q).upcoming? opts = some (⟨pc, sourceAt q pc⟩, action) := by
  have haction : ∀ {line line' : Text}, Line.gist line = Line.gist line' →
      (m.withProgram q).actionOf opts line' = m.actionOf opts line := by
    intro line line' hgist
    rw [actionOf, actionOf, Statement.ofLine_gist hgist]
    exact congrArg (Statement.action opts · m.store (Statement.ofLine line')) h.functions
  have hpc : (m.withProgram q).skipDefinitions.1.pc = m.skipDefinitions.1.pc := by
    rw [skipDefinitions_withProgram h]
    rfl
  have hupcoming : (m.withProgram q).upcoming? opts = q.lines[m.skipDefinitions.1.pc]?.map
      fun line => (⟨m.skipDefinitions.1.pc, line⟩, (m.withProgram q).actionOf opts line) := by
    rw [upcoming?, hpc]
    rfl
  rw [hupcoming, upcoming?]
  generalize m.skipDefinitions.1.pc = pc
  obtain ⟨hq, hp⟩ | ⟨line, line', hp, hq, hgist⟩ := h.getElem? pc
  · rw [hp, hq]
    exact Or.inl ⟨rfl, rfl⟩
  · refine Or.inr ⟨pc, m.actionOf opts line, ?_, ?_⟩
    · rw [sourceAt, hp]
      rfl
    · rw [sourceAt, hq, ← haction hgist]
      rfl

/-- **A cycle looks at the gist of the lines only.** -/
theorem cycle_alike (opts : Options) (h : m.program.ReadsAs q) :
    RepliesAlike m.program q (m.cycle opts) ((m.withProgram q).cycle opts) := by
  have hskip : (m.withProgram q).skipDefinitions.1 = m.skipDefinitions.1.withProgram q := by
    rw [skipDefinitions_withProgram h]
  have hprogram : m.skipDefinitions.1.program = m.program :=
    program_eq_of_code m.skipDefinitions_code
  -- what a machine that has passed over definitions does next is the same with either program
  have hmoves : ∀ n : Machine, n.program = m.skipDefinitions.1.program →
      (n.withProgram q).advance.machine = n.advance.machine.withProgram q ∧
        (n.withProgram q).halts = n.halts := by
    intro n hn
    have hreads : n.program.ReadsAs q := by rwa [hn, hprogram]
    exact ⟨congrArg Progress.machine (advance_withProgram hreads), halts_withProgram hreads⟩
  have hm := m.cycle_acts opts
  have hn := (m.withProgram q).cycle_acts opts
  generalize m.cycle opts = r at hm
  generalize (m.withProgram q).cycle opts = r' at hn
  obtain ⟨hnone, hnone'⟩ | ⟨pc, action, hsome, hsome'⟩ := upcoming_withProgram opts h
  · rw [hnone] at hm
    rw [hnone'] at hn
    cases hm with
    | finished hout =>
      cases hn with
      | finished hout' => exact ⟨rfl, hout'.trans hout.symm, .ok true⟩
  · rw [hsome] at hm
    rw [hsome'] at hn
    cases hm with
    | refused hout =>
      cases hn with
      | refused hout' => exact ⟨hskip, hout'.trans hout.symm, .failed pc _⟩
    | @updated _ s _ _ hout =>
      cases hn with
      | updated hout' =>
        obtain ⟨hmachine, hhalts⟩ := hmoves { m.skipDefinitions.1 with store := s } rfl
        rw [hskip]
        exact ⟨hmachine, hout'.trans hout.symm, .of_eq hhalts⟩
    | @entered _ definition _ hout =>
      cases hn with
      | entered hout' =>
        obtain ⟨hmachine, hhalts⟩ := hmoves (m.skipDefinitions.1.enter definition) rfl
        rw [hskip]
        exact ⟨hmachine, hout'.trans hout.symm, .of_eq hhalts⟩

/-- **So does a step**, whatever the limit is. -/
theorem step_alike (opts : Options) (h : m.program.ReadsAs q) :
    RepliesAlike m.program q (m.step opts) ((m.withProgram q).step opts) := by
  have hspent : (m.withProgram q).isSpent opts = m.isSpent opts := rfl
  unfold step
  rw [hspent]
  split
  · exact ⟨rfl, rfl, .failed m.pc _⟩
  · obtain ⟨hstate, hout, hresult⟩ := cycle_alike opts h
    refine ⟨?_, hout, hresult⟩
    rw [Reply.mapState_state, hstate]
    rfl

/-- The same replies after earlier events are alike. -/
theorem RepliesAlike.after {α : Type} {r r' : Reply Machine α} {events events' : List Event}
    (h : RepliesAlike p q r r') (hout : Event.outputOf events' = Event.outputOf events) :
    RepliesAlike p q (r.after events) (r'.after events') := by
  refine ⟨h.state, ?_, h.result⟩
  rw [Reply.after_events, Reply.after_events, Event.outputOf_append, Event.outputOf_append, hout,
    h.output]

/-- Neither execution has come to its end within the steps that were allowed, or both have, with
replies that are alike. -/
inductive AnswersAlike (p q : Program) :
    Option (Reply Machine Unit) → Option (Reply Machine Unit) → Prop
  | running : AnswersAlike p q none none
  | answered {r r' : Reply Machine Unit} (h : RepliesAlike p q r r') :
      AnswersAlike p q (some r) (some r')

theorem AnswersAlike.after {r r' : Option (Reply Machine Unit)} {events events' : List Event}
    (h : AnswersAlike p q r r') (hout : Event.outputOf events' = Event.outputOf events) :
    AnswersAlike p q (r.map (·.after events)) (r'.map (·.after events')) := by
  cases h with
  | running => exact .running
  | answered h => exact .answered (h.after hout)

/-- **Execution looks at the gist of the lines only.** -/
theorem loop_alike (opts : Options) (fuel : Nat) (h : m.program.ReadsAs q) :
    AnswersAlike m.program q (loop opts fuel m) (loop opts fuel (m.withProgram q)) := by
  induction fuel generalizing m with
  | zero => exact .running
  | succ fuel ih =>
    obtain ⟨hstate, hout, hresult⟩ := step_alike opts h
    have hprogram : (m.step opts).state.program = m.program :=
      program_eq_of_code (m.step_code opts)
    generalize hleft : (m.step opts).result = result at hresult
    generalize hright : ((m.withProgram q).step opts).result = result' at hresult
    cases hresult with
    | failed line cause =>
      rw [loop_of_error hleft, loop_of_error hright]
      refine .answered ⟨?_, ?_, .failed line cause⟩
      · rw [hstate]
        rfl
      · simp [hout]
    | ok halted =>
      cases halted with
      | true =>
        rw [loop_of_halted hleft, loop_of_halted hright]
        exact .answered ⟨hstate, hout, .ok ()⟩
      | false =>
        rw [loop_of_running hleft, loop_of_running hright, hstate]
        rw [← hprogram] at h ⊢
        exact (ih h).after hout

/-- Two programs whose lines agree in their gist run alike, from any state of a machine. -/
theorem run_alike (opts : Options) (fuel : Nat) (h : m.program.ReadsAs q) :
    AnswersAlike m.program q (m.submit opts fuel ModeCommand.run.wording)
      ((m.withProgram q).submit opts fuel ModeCommand.run.wording) := by
  have hloop := loop_alike (m := { m with steps := 0, returnDepth := none }) opts fuel h
  exact hloop.after rfl

/-! ## Loading and running -/

theorem readsAs_append (p : Program) {block block' : List Text} (found : Table Nat)
    (h : block.map Line.gist = block'.map Line.gist) :
    (p.append block found).ReadsAs (p.append block' found) := by
  refine ⟨rfl, ?_⟩
  rw [p.toList_lines_append, p.toList_lines_append, List.map_append, List.map_append, h]

/-- **A line means its indentation and its first three words, and nothing else.** Two blocks have
lines of the same gist. Either a machine refuses both, for faults of the same kind, and is left as
it was; or it loads both, with the same index of functions. Then a run of one program and a run of
the other, from the same state of a machine and with the same options, whichever these are, both go
on forever, or both come to an end. They write the same and leave machines that differ in their
programs only, and if they fail, they fail at the same line and for the same reason. -/
theorem lines_mean_their_gist (opts : Options) (m : Machine) (block block' : List Text)
    (h : block.map Line.gist = block'.map Line.gist) :
    (∃ fault fault' : Fault, fault'.kind = fault.kind ∧
      m.load opts block = .fail m (.fault fault) ∧
      m.load opts block' = .fail m (.fault fault')) ∨
    ∃ p q : Program, (m.load opts block).result = .ok () ∧
      (m.load opts block).state = m.withProgram p ∧
      (m.load opts block').result = .ok () ∧
      (m.load opts block').state = m.withProgram q ∧
      p.lines.toList = m.program.lines.toList ++ block ∧
      q.lines.toList = m.program.lines.toList ++ block' ∧
      q.functions = p.functions ∧
      ∀ (n : Machine) (opts : Options) (fuel : Nat),
        AnswersAlike p q ((n.withProgram p).submit opts fuel ModeCommand.run.wording)
          ((n.withProgram q).submit opts fuel ModeCommand.run.wording) := by
  unfold load Program.definitionsOf
  obtain ⟨fault, fault', hleft, hright, hkind⟩ | ⟨found, hleft, hright⟩ :=
    Program.alike_of_mapError (Program.definitions_gist opts.redefine m.program.functions .empty
      m.program.size h)
  · rw [hleft, hright]
    exact Or.inl ⟨fault, fault', hkind, rfl, rfl⟩
  · rw [hleft, hright]
    have hreads := readsAs_append m.program found h
    refine Or.inr ⟨m.program.append block found, m.program.append block' found, rfl, rfl, rfl, rfl,
      m.program.toList_lines_append block found, m.program.toList_lines_append block' found, rfl,
      ?_⟩
    intro n opts fuel
    exact run_alike (m := n.withProgram (m.program.append block found)) opts fuel hreads

/-- A program that fails in the body of a function. -/
def plainLines : List Text :=
  [utf8 "def f", utf8 " sub a 2", utf8 "set a 1", utf8 "call f"]

/-- The same with other white space, and with words that nobody reads. -/
def ornateLines : List Text :=
  [utf8 "def\u00a0f\u3000", utf8 "\u2003sub\ta  2 or more", utf8 "set  a\u20281 once",
    utf8 "call f\u0085"]

/-- Both programs are loaded, and the second fails where the first does, for the same reason. -/
theorem ornateLines_fail_alike :
    plainLines.map Line.gist = ornateLines.map Line.gist ∧
      ∃ r, (Machine.initial.load {} ornateLines).state.submit {} 9 ModeCommand.run.wording =
          some r ∧
        r.result = .error
          (.atLine 1 (utf8 "\u2003sub\ta  2 or more") (.fault (.underflow (utf8 "a") 1 2))) := by
  have hgist : plainLines.map Line.gist = ornateLines.map Line.gist := by decide
  obtain ⟨left, hleft, hfails⟩ : ∃ r, (Machine.initial.load {} plainLines).state.submit {} 9
      ModeCommand.run.wording = some r ∧ r.result = .error
        (.atLine 1 (utf8 " sub a 2") (.fault (.underflow (utf8 "a") 1 2))) := ⟨_, rfl, rfl⟩
  have hloads : (Machine.initial.load {} plainLines).result = .ok () := rfl
  refine ⟨hgist, ?_⟩
  rcases lines_mean_their_gist {} Machine.initial plainLines ornateLines hgist with
    ⟨fault, _, _, hrefused, _⟩ | ⟨p, q, -, hp, -, hq, -, hlines, -, hruns⟩
  · rw [hrefused] at hloads
    cases hloads
  · have halike := hruns Machine.initial {} 9
    rw [← hp, ← hq, hleft] at halike
    generalize hright : (Machine.initial.load {} ornateLines).state.submit {} 9
      ModeCommand.run.wording = right at halike
    cases halike with
    | @answered _ r halike =>
      have hresult := halike.result
      rw [hfails] at hresult
      have hsource : sourceAt q 1 = utf8 "\u2003sub\ta  2 or more" := by
        rw [sourceAt, ← Array.getElem?_toList, hlines]
        rfl
      refine ⟨r, rfl, ?_⟩
      rw [← hsource]
      exact ResultsAlike.eq_of_atLine 1 hresult

end Machine

end LineScript

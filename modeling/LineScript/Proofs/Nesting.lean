import LineScript.Proofs.Recursion

/-!
# Pending calls are nested bodies

A machine remembers of each pending call nothing but the line that it stands on, and never looks at
that line again: where a body ends is seen from two neighbouring lines. Between two steps the lines
fit together all the same. The function that a pending call enters is the one whose body holds the
next call, and control itself is in the body of the function that the innermost call enters.

Inside a step this does not hold. When a call has been performed, control is at a definition, which
is in no body; when a body ends, control is behind it until enough calls have been given up. So the
chain of calls is kept apart from the position of control: a chain says which definition control
has to be inside of, and the position is shown to be inside when the last return is over.

## Main definitions

* `Program.InBody`: a line is in the body behind a definition
* `Program.CallsAt`: a line calls a function
* `Program.Chain`: calls whose bodies hold each other, and the definition that control is inside of
* `Program.Nests`: the same, said of the stack from the bottom to the top

## Main results

* `Machine.unwind_chain`: control that returns from calls lands inside the right body
* `Machine.Chained.step`: a step keeps the pending calls nested
* `Machine.pending_calls_nest`: they are nested between any two steps of an execution
-/

namespace LineScript

/-- A statement that calls a function consists of the word `call`, the name, and words that do not
matter. -/
theorem Statement.words_of_call {line function : Text} (h : ofLine line = .call function) :
    ∃ rest, line.words = utf8 "call" :: function :: rest := by
  unfold ofLine at h
  cases hwords : line.words with
  | nil =>
    rw [hwords] at h
    cases h
  | cons word arguments =>
    rw [hwords, ofWords] at h
    cases hk : Keyword.ofWord? word with
    | none => simp [hk] at h
    | some keyword =>
      have hword : keyword.word = word := by simpa using List.find?_some hk
      simp only [hk] at h
      -- no other keyword makes a call, and it has an argument
      cases keyword <;> rcases arguments with _ | ⟨a, _ | ⟨b, arguments⟩⟩ <;> cases h
      · exact ⟨[], by rw [← hword]; rfl⟩
      · exact ⟨b :: arguments, by rw [← hword]; rfl⟩

namespace Program

variable {p : Program} {outer : Option Text} {definition i : Nat} {inside : Option Nat}
  {calls : List Nat}

/-! ## Bodies -/

/-- The line is in the body of the function that is defined at an index: it is one of the indented
lines directly behind the definition. -/
def InBody (p : Program) (definition i : Nat) : Prop :=
  ∃ line, ⟨i, line⟩ ∈ p.body definition

theorem blockFrom_of_not_indented (h : p.lines[i]?.any Line.isIndented = false) :
    p.blockFrom i = [] := by
  cases hline : p.lines[i]? with
  | none => rw [blockFrom, drop_rows_of_eq_none hline, List.takeWhile_nil]
  | some line =>
    rw [hline] at h
    rw [blockFrom, drop_rows_of_eq_some hline]
    exact List.takeWhile_cons_of_neg (by simpa [Row.isIndented] using h)

/-- The rows of a block: they are indented, and so is every line before them in the block. -/
theorem mem_blockFrom_iff {start : Nat} {line : Text} :
    ⟨i, line⟩ ∈ p.blockFrom start ↔
      start ≤ i ∧ p.lines[i]? = some line ∧
        ∀ j, start ≤ j → j ≤ i → p.lines[j]?.any Line.isIndented = true := by
  induction hn : p.size - start generalizing start with
  | zero =>
    have hnone : p.lines[start]? = none := Array.getElem?_eq_none (Nat.le_of_sub_eq_zero hn)
    have hblock : p.blockFrom start = [] := blockFrom_of_not_indented (by rw [hnone]; rfl)
    rw [hblock]
    refine ⟨fun h => absurd h List.not_mem_nil, fun ⟨hle, _, h⟩ => ?_⟩
    have hstart := h start (Nat.le_refl _) hle
    rw [hnone] at hstart
    cases hstart
  | succ n ih =>
    obtain ⟨first, hfirst⟩ : ∃ first, p.lines[start]? = some first :=
      ⟨_, Array.getElem?_eq_getElem (show start < p.size by omega)⟩
    cases hi : Line.isIndented first with
    | false =>
      have hblock : p.blockFrom start = [] := blockFrom_of_not_indented (by rw [hfirst]; exact hi)
      rw [hblock]
      refine ⟨fun h => absurd h List.not_mem_nil, fun ⟨hle, _, h⟩ => ?_⟩
      have hstart := h start (Nat.le_refl _) hle
      rw [hfirst, Option.any_some, hi] at hstart
      cases hstart
    | true =>
      rw [blockFrom_of_indented hfirst hi, List.mem_cons, Row.mk.injEq, ih (by omega)]
      constructor
      · rintro (⟨rfl, rfl⟩ | ⟨hle, hline, h⟩)
        · refine ⟨Nat.le_refl _, hfirst, fun j hge hle => ?_⟩
          obtain rfl : j = i := Nat.le_antisymm hle hge
          rw [hfirst]
          exact hi
        · refine ⟨by omega, hline, fun j hge hle' => ?_⟩
          rcases Nat.eq_or_lt_of_le hge with rfl | hlt
          · rw [hfirst]
            exact hi
          · exact h j hlt hle'
      · rintro ⟨hle, hline, h⟩
        rcases Nat.eq_or_lt_of_le hle with rfl | hlt
        · exact Or.inl ⟨rfl, Option.some.inj (hline.symm.trans hfirst)⟩
        · exact Or.inr ⟨hlt, hline, fun j hge => h j (by omega)⟩

/-- A body is the longest run of indented lines behind its definition. -/
theorem inBody_iff :
    p.InBody definition i ↔
      definition < i ∧ ∀ j, definition < j → j ≤ i → p.lines[j]?.any Line.isIndented = true := by
  unfold InBody body
  simp only [mem_blockFrom_iff]
  constructor
  · rintro ⟨line, hlt, -, h⟩
    exact ⟨hlt, h⟩
  · rintro ⟨hlt, h⟩
    obtain ⟨line, hline, -⟩ := exists_line_of_any (h i hlt (Nat.le_refl i))
    exact ⟨line, hlt, hline, h⟩

theorem InBody.indented (h : p.InBody definition i) : p.lines[i]?.any Line.isIndented = true := by
  obtain ⟨hlt, hlines⟩ := inBody_iff.mp h
  exact hlines i hlt (Nat.le_refl i)

/-- Control that moves on from a definition, or from a line of its body, and does not leave, is in
the body. -/
theorem inBody_succ (hd : p.lines[definition]?.any Line.isDefinition = true)
    (h : i = definition ∨ p.InBody definition i) (hstay : p.leavesBlock (i + 1) = false) :
    p.InBody definition (i + 1) := by
  have hskipped : p.lines[i]?.any Line.isSkipped = true := by
    rcases h with rfl | h
    · exact any_isSkipped_of_isDefinition hd
    · exact any_isSkipped_of_isIndented h.indented
  have hnext : p.lines[i + 1]?.any Line.isIndented = true :=
    indented_of_not_leavesBlock hstay hskipped
  rw [inBody_iff]
  rcases h with rfl | h
  · refine ⟨Nat.lt_succ_self i, fun j hgt hle => ?_⟩
    obtain rfl : j = i + 1 := by omega
    exact hnext
  · obtain ⟨hlt, hlines⟩ := inBody_iff.mp h
    refine ⟨by omega, fun j hgt hle => ?_⟩
    rcases Nat.eq_or_lt_of_le hle with rfl | hlt'
    · exact hnext
    · exact hlines j hgt (by omega)

/-! ## Chains of calls -/

/-- The line calls the function: its first two words are `call` and the name. -/
def CallsAt (p : Program) (i : Nat) (function : Text) : Prop :=
  ∃ line rest, p.lines[i]? = some line ∧ line.words = utf8 "call" :: function :: rest

/-- **A chain of pending calls**, from the innermost on, with the definition of the function that
control is inside of. Each call stands in the body of the function that the next one enters. Without
calls control is outside of all functions; if the outermost call came from outside the program, its
position is the first line and `outer` is the function that it enters. -/
inductive Chain (p : Program) (outer : Option Text) : (calls : List Nat) → (inside : Option Nat) →
    Prop
  | top (houter : outer = none) : Chain p outer [] none
  | outside {function : Text} {definition : Nat} (houter : outer = some function)
      (hf : p.functions.get? function = some definition) : Chain p outer [0] (some definition)
  | call {calls : List Nat} {inside : Option Nat} {call definition : Nat} {function : Text}
      (h : Chain p outer calls inside) (hbody : ∀ d ∈ inside, p.InBody d call)
      (hcall : p.CallsAt call function) (hf : p.functions.get? function = some definition) :
      Chain p outer (call :: calls) (some definition)

/-- The call that is the `j`-th from the bottom of a stack enters the function. The one at the
bottom may come from outside the program. -/
def Enters (p : Program) : (outer : Option Text) → (j call : Nat) → (function : Text) → Prop
  | some entered, 0, call, function => call = 0 ∧ function = entered
  | _, _, call, function => p.CallsAt call function

/-- **The calls of a stack are nested**, from the bottom to the top: each one enters a defined
function, and the position above it, that of the next call or of control, is in the body of this
function. -/
def Nests (p : Program) (outer : Option Text) (stack : List Nat) (pc : Nat) : Prop :=
  ∀ j call, stack[j]? = some call → ∃ function definition i, p.Enters outer j call function ∧
    p.functions.get? function = some definition ∧ (stack ++ [pc])[j + 1]? = some i ∧
    p.InBody definition i

theorem CallsAt.enters {j call : Nat} {function : Text} (h : p.CallsAt call function)
    (hj : outer = none ∨ j ≠ 0) : p.Enters outer j call function := by
  cases outer with
  | none => exact h
  | some entered =>
    cases j with
    | zero => simp at hj
    | succ j => exact h

/-- One more call on top of nested ones. -/
theorem Nests.snoc {stack : List Nat} {call pc : Nat} {function : Text}
    (h : p.Nests outer stack call) (henters : p.Enters outer stack.length call function)
    (hf : p.functions.get? function = some definition) (hpc : p.InBody definition pc) :
    p.Nests outer (stack ++ [call]) pc := by
  intro j call' hj
  rcases Nat.lt_trichotomy j stack.length with hlt | rfl | hgt
  · rw [List.getElem?_append_left hlt] at hj
    obtain ⟨function', definition', i, henters', hf', hi, hbody⟩ := h j call' hj
    refine ⟨function', definition', i, henters', hf', ?_, hbody⟩
    rwa [List.getElem?_append_left (by simpa using hlt)]
  · obtain rfl : call = call' := by simpa using hj
    refine ⟨function, definition, pc, henters, hf, ?_, hpc⟩
    rw [List.append_assoc, List.getElem?_append_right (by omega)]
    simp
  · rw [List.getElem?_eq_none (by simp; omega)] at hj
    cases hj

/-- A call from outside the program stays at the bottom, so that control is inside of a function. -/
theorem Chain.bottom (h : p.Chain outer calls inside) :
    outer = none ∨ calls.reverse.head? = some 0 ∧ ∃ d, inside = some d := by
  induction h with
  | top houter => exact Or.inl houter
  | @outside _ definition => exact Or.inr ⟨rfl, definition, rfl⟩
  | @call calls _ call definition _ _ _ _ _ ih =>
    refine ih.imp_right fun ⟨hhead, _⟩ => ⟨?_, definition, rfl⟩
    rw [List.reverse_cons, List.head?_append, hhead, Option.some_or]

/-- **A chain of calls is nested** around every position inside of it. -/
theorem Chain.nests (h : p.Chain outer calls inside) {pc : Nat}
    (hpc : ∀ d ∈ inside, p.InBody d pc) : p.Nests outer calls.reverse pc := by
  induction h generalizing pc with
  | top => exact fun j call hj => (by simp at hj)
  | @outside function definition houter hf =>
    subst houter
    have hempty : p.Nests (some function) [] 0 := fun j call hj => (by simp at hj)
    exact hempty.snoc ⟨rfl, rfl⟩ hf (hpc definition rfl)
  | @call calls inside call definition function h hbody hcall hf ih =>
    rw [List.reverse_cons]
    refine (ih hbody).snoc (hcall.enters ?_) hf (hpc definition rfl)
    refine h.bottom.imp_right fun ⟨hhead, _⟩ hlength => ?_
    rw [List.eq_nil_of_length_eq_zero hlength] at hhead
    cases hhead

end Program

namespace Machine

variable {opts : Options} {m : Machine} {outer : Option Text}

/-! ## Returning from calls -/

/-- **Control that returns from calls lands inside the right body.** It has come to the position
behind `i`, a line of the body that it was inside of, or the definition of that body. A call from
outside the program is waited for, so that control never goes on behind it. -/
theorem unwind_chain {p : Program} (hp : p.IndexesDefinitions) {target : Option Nat}
    (htarget : outer = none ∨ target = some 0) {calls : List Nat} {inside : Option Nat}
    (hchain : p.Chain outer calls inside) {i size : Nat} (hsize : calls.length = size)
    (hi : ∀ d ∈ inside, i = d ∨ p.InBody d i)
    (h : (unwind p target (i + 1) ⟨calls, size, hsize⟩).arrived = false) :
    ∃ inside', p.Chain outer (unwind p target (i + 1) ⟨calls, size, hsize⟩).calls.items inside' ∧
      ∀ d ∈ inside', p.InBody d (unwind p target (i + 1) ⟨calls, size, hsize⟩).pc := by
  subst hsize
  -- one call is given up at a time; the chain below it knows which body it stands in
  induction hchain generalizing i with
  | top houter => exact ⟨none, .top houter, fun d hd => (by cases hd)⟩
  | @outside function definition houter hf =>
    obtain rfl : target = some 0 := htarget.resolve_left (by simp [houter])
    have hpush : (⟨[0], [0].length, rfl⟩ : Stack Nat) = Stack.empty.push 0 := rfl
    rw [hpush, unwind_push] at h ⊢
    cases hleave : p.leavesBlock (i + 1) with
    | true => simp [hleave] at h
    | false =>
      refine ⟨some definition, .outside houter hf, fun d hd => ?_⟩
      cases hd
      exact Program.inBody_succ (hp _ _ hf) (hi definition rfl) hleave
  | @call calls inside call definition function hchain hbody hcall hf ih =>
    have hpush : (⟨call :: calls, (call :: calls).length, rfl⟩ : Stack Nat) =
        Stack.push ⟨calls, calls.length, rfl⟩ call := rfl
    rw [hpush, unwind_push] at h ⊢
    cases hleave : p.leavesBlock (i + 1) with
    | true =>
      rw [hleave, if_pos rfl] at h
      rw [if_pos rfl]
      by_cases ht : target = some calls.length
      · rw [if_pos ht] at h
        cases h
      · rw [if_neg ht] at h ⊢
        exact ih (fun d hd => Or.inr (hbody d hd)) h
    | false =>
      refine ⟨some definition, .call hchain hbody hcall hf, fun d hd => ?_⟩
      cases hd
      exact Program.inBody_succ (hp _ _ hf) (hi definition rfl) hleave

/-! ## Machines between two steps -/

/-- **The pending calls of a machine are a chain**, and control is inside of it. A call from outside
the program is waited for. -/
structure Chained (outer : Option Text) (m : Machine) : Prop where
  target : outer = none ∨ m.returnDepth = some 0
  chain : ∃ inside, m.program.Chain outer m.calls.items inside ∧
    ∀ d ∈ inside, m.program.InBody d m.pc

/-- The same of a machine that has performed a statement and is about to move on: control may still
be at the definition of a function that has just been entered. -/
structure ChainedBehind (outer : Option Text) (m : Machine) : Prop where
  target : outer = none ∨ m.returnDepth = some 0
  chain : ∃ inside, m.program.Chain outer m.calls.items inside ∧
    ∀ d ∈ inside, m.pc = d ∨ m.program.InBody d m.pc

/-- Moving on to another line leads inside the chain again. -/
theorem ChainedBehind.advance (hp : m.program.IndexesDefinitions) (hm : m.ChainedBehind outer)
    (h : m.advance.halted = false) : Chained outer m.advance.machine := by
  obtain ⟨inside, hchain, hpc⟩ := hm.chain
  have hlands := unwind_chain hp hm.target hchain m.calls.size_eq hpc
  unfold Machine.advance at h ⊢
  generalize unwind m.program m.returnDepth (m.pc + 1) m.calls = landing at h hlands ⊢
  dsimp only at h ⊢
  split at h
  · cases h
  · next ha =>
    split at h
    · cases h
    · next hend =>
      rw [if_neg ha, if_neg hend]
      exact ⟨hm.target, hlands (Bool.eq_false_iff.mpr ha)⟩

/-- Inside a body there is no definition to be passed over. -/
theorem Chained.skipDefinitions (hm : m.Chained outer) : Chained outer m.skipDefinitions.1 := by
  obtain ⟨inside, hchain, hpc⟩ := hm.chain
  unfold Machine.skipDefinitions
  split
  · next hdef =>
    refine ⟨hm.target, inside, hchain, fun d hd => ?_⟩
    obtain ⟨line, hline, hd'⟩ := Program.exists_line_of_any hdef
    have hindented := (hpc d hd).indented
    rw [hline, Option.any_some, Line.isIndented_eq_false_of_isDefinition hd'] at hindented
    cases hindented
  · exact hm

/-- **Performing a statement keeps the chain**, and a call adds a link to it. -/
theorem Chained.perform (hm : m.Chained outer) {line : Text} {m' : Machine} {events : List Event}
    (hline : m.program.lines[m.pc]? = some line)
    (h : m.perform opts (Statement.ofLine line) = .ok (m', events)) : ChainedBehind outer m' := by
  obtain ⟨inside, hchain, hpc⟩ := hm.chain
  obtain ⟨s, -, rfl⟩ | ⟨definition, ha, rfl⟩ := action_of_perform h
  · exact ⟨hm.target, inside, hchain, fun d hd => Or.inr (hpc d hd)⟩
  · obtain ⟨function, hs, hf⟩ := Statement.action_eq_enter ha
    obtain ⟨rest, hwords⟩ := Statement.words_of_call hs
    refine ⟨hm.target, some definition, .call hchain hpc ⟨line, rest, hline, hwords⟩ hf, ?_⟩
    intro d hd
    exact Or.inl (Option.some.inj hd)

/-- **A step keeps the pending calls nested.** -/
theorem Chained.step (hp : m.program.IndexesDefinitions) (hm : m.Chained outer)
    (h : (m.step opts).result = .ok false) : Chained outer (m.step opts).state := by
  have hpasses := passes_of_running h
  generalize (m.step opts).state = next at hpasses
  cases hpasses with
  | intro m' hline hperform hrunning hmachine =>
    have hprogram := program_eq_of_code m.skipDefinitions_code
    rw [← hprogram] at hline
    have hbehind := hm.skipDefinitions.perform hline hperform
    have hprogram' : m'.program = m.program :=
      (program_eq_of_code (perform_code hperform)).trans hprogram
    have hnext := hbehind.advance (hprogram' ▸ hp) hrunning
    rw [hmachine] at hnext
    exact ⟨hnext.target, hnext.chain⟩

/-- They stay nested for as long as execution goes on. -/
theorem Chained.proceed (hp : m.program.IndexesDefinitions) (hm : m.Chained outer) {k : Nat}
    (h : (m.proceed opts k).result = .ok false) : Chained outer (m.proceed opts k).state := by
  induction k generalizing m with
  | zero => exact hm
  | succ k ih =>
    by_cases hstep : (m.step opts).result = .ok false
    · have hprogram : (m.step opts).state.program = m.program :=
        program_eq_of_code (m.step_code opts)
      rw [proceed_succ_of_running hstep] at h ⊢
      exact ih (hprogram ▸ hp) (hm.step hp hstep) h
    · rw [proceed_succ_of_ended hstep] at h
      exact absurd h hstep

/-! ## Executions -/

/-- A machine at rest has no calls, and control is outside of all functions. -/
theorem chained_of_idle (hcalls : m.calls = .empty) : m.Chained none := by
  refine ⟨Or.inl rfl, none, ?_, fun d hd => (by cases hd)⟩
  rw [hcalls]
  exact .top rfl

/-- An immediate call from rest leaves the position of rest on the stack: that of the first line. -/
theorem chainedBehind_enterNow {function : Text} {definition : Nat} (hpc : m.pc = 0)
    (hcalls : m.calls = .empty) (hf : m.program.functions.get? function = some definition) :
    ChainedBehind (some function) (m.enterNow definition) := by
  have htarget : (m.enterNow definition).returnDepth = some 0 :=
    congrArg (fun calls : Stack Nat => some calls.size) hcalls
  have hitems : (m.enterNow definition).calls.items = [0] := by
    simp [enterNow, hpc, hcalls]
  refine ⟨Or.inr htarget, some definition, ?_, fun d hd => Or.inl (Option.some.inj hd)⟩
  rw [hitems]
  exact .outside rfl hf

/-- An execution from rest begins with a chain: that of no calls, or that of the call which it
performs. -/
theorem Launches.chained {text : Text} {start : Machine} (hp : m.program.IndexesDefinitions)
    (hpc : m.pc = 0) (hcalls : m.calls = .empty) (h : m.Launches text start) :
    Chained (Statement.ofLine text).function? start := by
  cases h with
  | run => exact chained_of_idle hcalls
  | call _ _ hs hf hrunning =>
    rw [hs]
    exact (chainedBehind_enterNow hpc hcalls hf).advance hp hrunning

/-- **Pending calls are nested bodies.** Between any two steps of a run or of an immediate call from
rest, whatever the variables and the step limit are, every pending call enters a defined function,
and the next call above it, or control if there is none, is in the body of this function. All of
them are calls on lines of the program, except for the immediate call itself: it is at the bottom,
with the first line as its position, so that control is always on an indented line. -/
theorem pending_calls_nest {redefine : Bool} (hp : m.program.Loaded redefine) (hpc : m.pc = 0)
    (hcalls : m.calls = .empty) {text : Text} {start m' : Machine} {events : List Event} {k : Nat}
    (hlaunch : m.Launches text start) (hsteps : start.proceed opts k = ⟨m', events, .ok false⟩) :
    m.program.Nests (Statement.ofLine text).function? m'.calls.items.reverse m'.pc ∧
      ∀ function, Statement.ofLine text = .call function →
        m'.calls.items.reverse.head? = some 0 ∧
        ∃ line, m.program.lines[m'.pc]? = some line ∧ Line.isIndented line = true ∧
          Line.isDefinition line = false := by
  have hindex := hp.indexesDefinitions
  have hprogram := program_eq_of_code hlaunch.code
  have hstart := hlaunch.chained hindex hpc hcalls
  have hm' : m'.Chained (Statement.ofLine text).function? := by
    have hnext := hstart.proceed (hprogram ▸ hindex) (congrArg Reply.result hsteps)
    rwa [hsteps] at hnext
  have hprogram' : m'.program = m.program := by
    have hcode := code_proceed opts k start
    rw [hsteps] at hcode
    exact (program_eq_of_code hcode).trans hprogram
  obtain ⟨inside, hchain, hinside⟩ := hm'.chain
  rw [hprogram'] at hchain hinside
  refine ⟨hchain.nests hinside, fun function hs => ?_⟩
  obtain ⟨hbottom, d, rfl⟩ := hchain.bottom.resolve_left (by simp [hs, Statement.function?])
  obtain ⟨line, hline, hindented⟩ := Program.exists_line_of_any (hinside d rfl).indented
  refine ⟨hbottom, line, hline, hindented, ?_⟩
  simp [Line.isDefinition, hindented]

/-- A function whose body ends with a call. It is called from the table, and can be from outside. -/
def tailCallingLines : List Text :=
  [utf8 "call f", utf8 "def f", utf8 " set a 1", utf8 " call g", utf8 "def g", utf8 " print a",
    utf8 " print b"]

/-- A machine at rest that has these lines loaded. -/
def tailCalling : Machine := (Machine.initial.load {} tailCallingLines).state

/-- Two calls are pending while control is in the inner body, in a run and in an immediate call. -/
theorem tailCalling_nests :
    (∃ start m' events, tailCalling.Launches ModeCommand.run.wording start ∧
      start.proceed {} 3 = ⟨m', events, .ok false⟩ ∧ m'.calls.items.reverse = [0, 3] ∧ m'.pc = 5 ∧
      tailCalling.program.Nests none [0, 3] 5) ∧
    ∃ start m' events line, tailCalling.Launches (utf8 "call f") start ∧
      start.proceed {} 3 = ⟨m', events, .ok false⟩ ∧ m'.calls.items.reverse = [0, 3] ∧ m'.pc = 6 ∧
      tailCalling.program.Nests (some (utf8 "f")) [0, 3] 6 ∧
      tailCalling.program.lines[6]? = some line ∧ Line.isIndented line = true := by
  have hp : tailCalling.program.Loaded false :=
    .load .empty (rfl : Program.empty.load false tailCallingLines = .ok _)
  constructor
  · obtain ⟨m', events, hsteps, hstack, hpc⟩ : ∃ m' events,
        { tailCalling with steps := 0, returnDepth := none }.proceed {} 3 =
          ⟨m', events, .ok false⟩ ∧ m'.calls.items.reverse = [0, 3] ∧ m'.pc = 5 :=
      ⟨_, _, rfl, rfl, rfl⟩
    obtain ⟨hnests, -⟩ := pending_calls_nest hp rfl rfl .run hsteps
    rw [hstack, hpc] at hnests
    exact ⟨_, m', events, .run, hsteps, hstack, hpc, hnests⟩
  · obtain ⟨start, m', events, hlaunch, hsteps, hstack, hpc⟩ : ∃ start m' events,
        tailCalling.Launches (utf8 "call f") start ∧
        start.proceed {} 3 = ⟨m', events, .ok false⟩ ∧ m'.calls.items.reverse = [0, 3] ∧
        m'.pc = 6 := ⟨_, _, _, .call rfl rfl rfl (rfl : _ = some 1) rfl, rfl, rfl, rfl⟩
    obtain ⟨hnests, hinside⟩ := pending_calls_nest hp rfl rfl hlaunch hsteps
    obtain ⟨-, line, hline, hindented, -⟩ := hinside (utf8 "f") rfl
    rw [hstack, hpc] at hnests
    rw [hpc] at hline
    exact ⟨start, m', events, line, hlaunch, hsteps, hstack, hpc, hnests, hline, hindented⟩

end Machine

end LineScript

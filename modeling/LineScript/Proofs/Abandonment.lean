import LineScript.Proofs.ShellUse

/-!
# Abandoning a block

A line that is entered in a block does nothing but join the lines held back, and abandoning the
block drops these. So a session in which lines are entered and then abandoned goes on as if they had
not been entered. What is left of them are the prompts at which they were entered, and their number
in the log.

## Main definitions

* `Event.sessionOf`, `Event.promptsOf`: what a session writes, and the prompts that it shows
* `Shell.holding`: a shell that holds back more lines
* `Shell.Conversation.Alike`: two sessions that only their prompts and the log tell apart

## Main results

* `Shell.converse_lines`: lines entered in a block join those held back
* `Shell.converse_abandon`: abandoning a block drops them
* `Shell.abandoned_lines_leave_no_trace`: lines that are abandoned leave no trace
-/

namespace LineScript

namespace Event

/-- The text that a session wrote to its user, of some events. -/
def sessionOf (events : List Event) : Text :=
  events.flatMap fun
    | session text => text
    | _ => []

/-- The prompts of some events. -/
def promptsOf (events : List Event) : List Text :=
  events.filterMap fun
    | prompt text => some text
    | _ => none

@[simp] theorem sessionOf_append (a b : List Event) :
    sessionOf (a ++ b) = sessionOf a ++ sessionOf b := by
  simp [sessionOf]

end Event

namespace Shell

variable {opts : Options} {fuel : Nat} {colored : Bool} {s : Shell}

/-! ## Answers inside a block -/

/-- The prompt inside a block. -/
def blockPrompt : Text := utf8 "....> "

theorem prompt_of_collecting (hs : s.collecting = true) : s.prompt = blockPrompt := by
  rw [prompt, if_pos hs]
  rfl

/-- The same shell with more lines held back. -/
def holding (s : Shell) (lines : List Text) : Shell :=
  { s with pending := s.pending ++ lines }

@[simp] theorem holding_nil (s : Shell) : s.holding [] = s := by
  simp [holding]

theorem holding_cons (s : Shell) (line : Text) (lines : List Text) :
    { s with pending := s.pending.push line }.holding lines = s.holding (line :: lines) := by
  simp [holding]

@[simp] theorem discard_holding (s : Shell) (lines : List Text) :
    (s.holding lines).discard = s.discard := rfl

/-- Inside a block, a line that is no mode command joins those held back. The exit words are no
exception. -/
theorem respond_line (hs : s.collecting = true) {line : Text}
    (hline : ModeCommand.ofText? line.chomp = none) :
    s.respond opts fuel colored (.line line) =
      some (.pure { s with pending := s.pending.push line.chomp } false) := by
  simp only [respond, hs, Bool.not_true, Bool.false_and, Bool.false_eq_true, if_false,
    feed_of_collecting hline hs]
  rfl

theorem respond_abandon (hs : s.collecting = true) :
    s.respond opts fuel colored .abandon =
      some ⟨s.discard, [.note (.blockAbandoned s.pending.size)], .ok false⟩ := by
  rw [respond, if_pos hs]

/-! ## Sessions -/

theorem Conversation.after_after (c : Conversation) (first second : List Event) :
    (c.after second).after first = c.after (first ++ second) := by
  simp [Conversation.after, Reply.after]

@[simp] theorem Conversation.after_nil (c : Conversation) : c.after [] = c := rfl

/-- An answer that does not end the session is followed by the other answers. -/
theorem converse_of_running {answer : Answer} {answers : List Answer} {r : Reply Shell Bool}
    (h : s.respond opts fuel colored answer = some r) (hr : r.result = .ok false) :
    converse opts fuel colored (answer :: answers) s =
      (converse opts fuel colored answers r.state).map
        (·.after (.prompt s.prompt :: r.events)) := by
  rw [converse_cons, h, Option.bind_some, hr]

/-- **Lines entered in a block join those held back**, each at a prompt of its own. -/
theorem converse_lines {lines : List Text} (hs : s.collecting = true)
    (hlines : ∀ line ∈ lines, ModeCommand.ofText? line.chomp = none) (answers : List Answer) :
    converse opts fuel colored (lines.map .line ++ answers) s =
      (converse opts fuel colored answers (s.holding (lines.map Text.chomp))).map
        (·.after (List.replicate lines.length (.prompt blockPrompt))) := by
  induction lines generalizing s with
  | nil => simp
  | cons line lines ih =>
    obtain ⟨hline, hlines⟩ := List.forall_mem_cons.mp hlines
    -- the shell that has taken the first line is still inside the block
    have hrest := ih (s := { s with pending := s.pending.push line.chomp }) hs hlines
    rw [List.map_cons, List.cons_append, converse_of_running (respond_line hs hline) rfl,
      prompt_of_collecting hs]
    simp only [Reply.pure]
    rw [hrest, holding_cons, Option.map_map]
    refine congrArg (Option.map · _) (funext fun c => ?_)
    exact c.after_after _ _

/-- **Abandoning a block drops the lines held back.** -/
theorem converse_abandon (hs : s.collecting = true) (answers : List Answer) :
    converse opts fuel colored (.abandon :: answers) s =
      (converse opts fuel colored answers s.discard).map
        (·.after [.prompt blockPrompt, .note (.blockAbandoned s.pending.size)]) := by
  rw [converse_of_running (respond_abandon hs) rfl, prompt_of_collecting hs]

/-! ## Lines that are abandoned -/

/-- Two sessions that only their prompts and the log tell apart. -/
structure Conversation.Alike (c c' : Conversation) : Prop where
  result : c'.reply.result = c.reply.result
  state : c'.reply.state = c.reply.state
  output : Event.outputOf c'.reply.events = Event.outputOf c.reply.events
  session : Event.sessionOf c'.reply.events = Event.sessionOf c.reply.events
  unread : c'.unread = c.unread

/-- Sessions are alike if they go on alike after notes and prompts. -/
theorem Conversation.alike_after (c : Conversation) {events events' : List Event}
    (hout : Event.outputOf events' = Event.outputOf events)
    (hsession : Event.sessionOf events' = Event.sessionOf events) :
    Alike (c.after events) (c.after events') where
  result := rfl
  state := rfl
  output := by simp [Conversation.after, hout]
  session := by simp [Conversation.after, hsession]
  unread := rfl

/-- **Lines that are abandoned leave no trace.** Inside a block, any lines that are no mode commands
are entered and then abandoned, and the session goes on with any answers. It ends exactly if it does
without these lines, and it is alike: with the same result, the same shell, the same output of the
program and the same text of the session. Each of the lines has been asked for by one prompt more,
and the only other difference is the number of lines in the note that the block is abandoned. -/
theorem abandoned_lines_leave_no_trace (opts : Options) (fuel : Nat) (colored : Bool) (s : Shell)
    (lines : List Text) (answers : List Answer) (hs : s.collecting = true)
    (hlines : ∀ line ∈ lines, ModeCommand.ofText? line.chomp = none) :
    converse opts fuel colored (.abandon :: answers) s = none ∧
        converse opts fuel colored (lines.map .line ++ .abandon :: answers) s = none ∨
      ∃ c c', converse opts fuel colored (.abandon :: answers) s = some c ∧
        converse opts fuel colored (lines.map .line ++ .abandon :: answers) s = some c' ∧
        c.Alike c' ∧
        Event.promptsOf c'.reply.events =
          List.replicate lines.length blockPrompt ++ Event.promptsOf c.reply.events ∧
        ∃ later,
          c.reply.events =
            .prompt blockPrompt :: .note (.blockAbandoned s.pending.size) :: later ∧
          c'.reply.events = List.replicate lines.length (.prompt blockPrompt) ++
            .prompt blockPrompt :: .note (.blockAbandoned (s.pending.size + lines.length)) ::
              later := by
  have hholding : (s.holding (lines.map Text.chomp)).collecting = true := hs
  have hsize : (s.holding (lines.map Text.chomp)).pending.size = s.pending.size + lines.length := by
    simp [holding, ← Array.length_toList]
  -- both sessions go on from the shell without lines held back
  have hlong : converse opts fuel colored (lines.map .line ++ .abandon :: answers) s =
      (converse opts fuel colored answers s.discard).map
        (·.after (List.replicate lines.length (.prompt blockPrompt) ++
          [.prompt blockPrompt, .note (.blockAbandoned (s.pending.size + lines.length))])) := by
    rw [converse_lines hs hlines, converse_abandon hholding, discard_holding, hsize,
      Option.map_map]
    exact congrArg (Option.map · _) (funext fun c => c.after_after _ _)
  rw [hlong, converse_abandon hs]
  cases converse opts fuel colored answers s.discard with
  | none => exact Or.inl ⟨rfl, rfl⟩
  | some rest =>
    refine Or.inr ⟨_, _, rfl, rfl, rest.alike_after ?_ ?_, ?_, rest.reply.events, rfl, ?_⟩
    · simp [Event.outputOf]
    · simp [Event.sessionOf]
    · simp [Conversation.after, Event.promptsOf]
    · simp [Conversation.after]

/-- A shell inside a block of which one line has been entered. -/
def halfEntered : Shell := ⟨{ Machine.initial with loading := true }, #[utf8 "def f"], true⟩

/-- Two lines are entered in the block and abandoned, one of them an exit word. Another line is
entered, and the block is closed: it is the only line of the program. -/
theorem halfEntered_abandoned :
    ∃ c c', converse {} 0 false [.abandon, .line (utf8 "print a"), .line (utf8 "end set code")]
        halfEntered = some c ∧
      converse {} 0 false [.line (utf8 "exit"), .line (utf8 "def f\r"), .abandon,
        .line (utf8 "print a"), .line (utf8 "end set code")] halfEntered = some c' ∧
      c.Alike c' ∧ c'.reply.state.machine.program.lines = #[utf8 "print a"] ∧
      (Event.promptsOf c'.reply.events).length = (Event.promptsOf c.reply.events).length + 2 := by
  obtain ⟨c, hc, hlines⟩ : ∃ c, converse {} 0 false
      [.abandon, .line (utf8 "print a"), .line (utf8 "end set code")] halfEntered = some c ∧
        c.reply.state.machine.program.lines = #[utf8 "print a"] := ⟨_, rfl, rfl⟩
  obtain ⟨hnone, -⟩ | ⟨c₁, c', hc₁, hc', halike, hprompts, -⟩ :=
    abandoned_lines_leave_no_trace {} 0 false halfEntered [utf8 "exit", utf8 "def f\r"]
      [.line (utf8 "print a"), .line (utf8 "end set code")] rfl (by decide)
  · rw [hnone] at hc
    cases hc
  · obtain rfl : c₁ = c := Option.some.inj (hc₁.symm.trans hc)
    refine ⟨c₁, c', hc, hc', halike, ?_, ?_⟩
    · rw [halike.state, hlines]
    · rw [hprompts, List.length_append, List.length_replicate, Nat.add_comm]
      rfl

end Shell

end LineScript

import LineScript.Proofs.Batch
import LineScript.Proofs.Handover

/-!
# Grouping lines into blocks

A shell holds the lines of a block back and hands them over together. A machine to which the same
lines are submitted directly loads them one by one, so it is ahead of the machine in the shell by
the lines held back, or has refused one of them already. Apart from that delay the two do the
same.

## Main definitions

* `Machine.submitAll`: submits texts up to the first failure
* `Shell.Holds`: what the lines held back amount to
* `Shell.Behind`: a shell whose machine is behind another one by the lines held back
* `Shell.Abreast`: how feeding lines compares to submitting them
* `Shell.Shows`: what a shell has written so far

## Main results

* `Shell.feed_abreast`, `Shell.feedAll_abreast`: a line, and any number of them
* `Shell.grouping_transparent`: a script has the same outcome either way, and writes the same
-/

namespace LineScript

namespace Machine

variable {opts : Options} {fuel : Nat} {m : Machine} {text out : Text} {texts : List Text}
  {r : Reply Machine Unit}

/-! ## Submitting texts directly -/

/-- Submits texts up to the first failure. -/
def submitAll (opts : Options) (fuel : Nat) : List Text → Machine → Option (Reply Machine Unit)
  | [], m => some (.pure m ())
  | text :: texts, m => do
    let r ← m.submit opts fuel text
    match r.result with
    | .error _ => some r
    | .ok () => (submitAll opts fuel texts r.state).map (·.after r.events)

theorem submitAll_cons_of_none (h : m.submit opts fuel text = none) :
    submitAll opts fuel (text :: texts) m = none := by
  rw [submitAll, h]
  rfl

theorem submitAll_cons_of_error {failure : Failure} (h : m.submit opts fuel text = some r)
    (herror : r.result = .error failure) :
    submitAll opts fuel (text :: texts) m = some r := by
  simp only [submitAll, h, Option.bind_eq_bind, Option.bind_some, herror]

theorem submitAll_cons_of_ok (h : m.submit opts fuel text = some r) (hok : r.result = .ok ()) :
    submitAll opts fuel (text :: texts) m =
      (submitAll opts fuel texts r.state).map (·.after r.events) := by
  simp only [submitAll, h, Option.bind_eq_bind, Option.bind_some, hok]

/-- What a text writes before it fails is seen. -/
theorem Submitted.shows_of_error {m' : Machine} {cause : Failure}
    (h : Submitted opts m texts out m') (hr : m'.Answers opts text r)
    (herror : r.result = .error cause) :
    m.Shows opts (texts ++ [text]) (out ++ Event.outputOf r.events) := by
  refine ⟨texts.length, out, m', by rwa [List.take_left], ?_⟩
  rcases output_of_error hr herror with hsilent | ⟨start, k, hlaunch, houtput⟩
  · exact Or.inl (by rw [hsilent, List.append_nil])
  · exact Or.inr ⟨text, start, k, by simp, hlaunch, by rw [houtput]⟩

/-- What texts have written remains written when more of them follow. -/
theorem Shows.append (h : m.Shows opts texts out) (later : List Text) :
    m.Shows opts (texts ++ later) out := by
  obtain ⟨i, out', m', hsubmitted, hout⟩ := h
  by_cases hi : i ≤ texts.length
  · refine ⟨i, out', m', ?_, hout.imp id ?_⟩
    · rwa [List.take_append_of_le_length hi]
    · rintro ⟨text, start, k, htext, hlaunch⟩
      have hlt : i < texts.length := (List.getElem?_eq_some_iff.mp htext).1
      exact ⟨text, start, k, by rwa [List.getElem?_append_left hlt], hlaunch⟩
  · -- all of the texts were submitted, and no other follows
    refine ⟨texts.length, out', m', ?_, ?_⟩
    · rw [List.take_left]
      rwa [List.take_of_length_le (by omega)] at hsubmitted
    · rcases hout with rfl | ⟨text, start, k, htext, -⟩
      · exact Or.inl rfl
      · rw [List.getElem?_eq_none (by omega)] at htext
        cases htext

end Machine

namespace Shell

variable {opts : Options} {fuel number : Nat} {s : Shell} {m start : Machine} {fault : Fault}
  {line out : Text} {lines : List Text} {r : Reply Shell Unit}

theorem feedAll_cons_of_none (h : s.feed opts fuel line = none) :
    feedAll opts fuel number (line :: lines) s = none := by
  rw [feedAll, h]
  rfl

theorem feedAll_cons_of_error {failure : Failure} (h : s.feed opts fuel line = some r)
    (herror : r.result = .error failure) :
    feedAll opts fuel number (line :: lines) s =
      some ⟨r.state, r.events,
        .error (.context (utf8 "script line " ++ Decimal.ofNat number) failure)⟩ := by
  simp only [feedAll, h, Option.bind_eq_bind, Option.bind_some, herror, Reply.within]
  rfl

theorem feedAll_cons_of_ok (h : s.feed opts fuel line = some r) (hok : r.result = .ok ()) :
    feedAll opts fuel number (line :: lines) s =
      (feedAll opts fuel (number + 1) lines r.state).map (·.after r.events) := by
  simp only [feedAll, h, Option.bind_eq_bind, Option.bind_some, hok]

/-! ## Lines held back -/

/-- **What the lines held back amount to**: the program that they lead to, or the fault for which
they will be refused. -/
structure Holds (opts : Options) (s : Shell) (outcome : Except Fault Program) : Prop where
  loaded : s.machine.program.Loaded opts.redefine
  coherent : s.Coherent
  agrees : s.Agrees
  lines : ∀ line ∈ s.pending, line ≠ [] ∧ line.IsLine
  load : s.machine.program.load opts.redefine s.pending.toList = outcome

variable {outcome : Except Fault Program}

theorem holds_of_empty {collecting : Bool} (hm : m.program.Loaded opts.redefine)
    (hmode : collecting = m.loading) :
    Holds opts ⟨m, #[], collecting⟩ (.ok m.program) where
  loaded := hm
  coherent := coherent_of_empty fun hc => hmode.symm.trans hc
  agrees := hmode
  lines line hline := absurd hline (Array.not_mem_empty line)
  load := Program.load_nil opts.redefine m.program

/-- A block that is opened again goes on. -/
theorem Holds.reopen (h : s.Holds opts outcome) :
    Holds opts ⟨{ s.machine with loading := true }, s.pending, true⟩ outcome where
  loaded := h.loaded
  coherent := ⟨fun _ => rfl, fun _ => rfl, h.coherent.texts⟩
  agrees := rfl
  lines := h.lines
  load := h.load

/-- A line that is held back is loaded after the others. -/
theorem Holds.push (h : s.Holds opts outcome) (hs : s.collecting = true)
    (hc : ModeCommand.ofText? line = none) (hne : line ≠ []) (hline : line.IsLine) :
    Holds opts { s with pending := s.pending.push line }
      (outcome.bind fun p => p.load opts.redefine [line]) where
  loaded := h.loaded
  coherent :=
    { loading := h.coherent.loading
      collecting _ := hs
      texts text htext := by
        rcases Array.mem_push.mp htext with htext | rfl
        · exact h.coherent.texts text htext
        · exact hc }
  agrees := h.agrees
  lines text htext := by
    rcases Array.mem_push.mp htext with htext | rfl
    · exact h.lines text htext
    · exact ⟨hne, hline⟩
  load := by
    rw [Array.toList_push, Program.load_append, h.load]

theorem Holds.pending_ne_blank (h : s.Holds opts outcome) : s.pending ≠ #[[]] := by
  intro hblank
  have hne := (h.lines [] (by simp [hblank])).1
  exact hne rfl

theorem Holds.pending_ne_empty (h : s.Holds opts (.error fault)) : s.pending ≠ #[] := by
  intro hempty
  have hload := h.load
  rw [hempty, Program.load_nil] at hload
  cases hload

theorem Holds.flush_eq (h : s.Holds opts outcome) (hne : s.pending ≠ #[]) (fuel : Nat) :
    s.flush opts fuel =
      some (((s.machine.load opts s.pending.toList).mapState fun machine =>
        { s.discard with machine := machine }).after
          [.note (.blockSubmitted s.pending.size)]) :=
  flush_of_block h.coherent (fun line hline => (h.lines line hline).2) hne h.pending_ne_blank

/-- Lines that can be loaded are, when they are handed over. -/
theorem Holds.flush_ok {p : Program} (h : s.Holds opts (.ok p)) (fuel : Nat) :
    ∃ events, Event.outputOf events = [] ∧
      s.flush opts fuel = some ⟨⟨{ s.machine with program := p }, #[], s.collecting⟩, events,
        .ok ()⟩ := by
  by_cases hempty : s.pending = #[]
  · -- nothing is handed over, and the program stays
    have hload := h.load
    rw [hempty, Program.load_nil] at hload
    cases hload
    refine ⟨[], rfl, ?_⟩
    rw [flush_of_empty hempty, ← hempty]
    rfl
  · obtain ⟨note, hload⟩ := Machine.load_of_program h.load
    rw [h.flush_eq hempty fuel, hload]
    exact ⟨_, rfl, rfl⟩

/-- Lines that cannot be loaded are refused together. -/
theorem Holds.flush_error (h : s.Holds opts (.error fault)) (fuel : Nat) :
    ∃ events, Event.outputOf events = [] ∧
      s.flush opts fuel = some ⟨s.discard, events, .error (.fault fault)⟩ := by
  rw [h.flush_eq h.pending_ne_empty fuel, Machine.load_of_refused h.load]
  exact ⟨_, rfl, rfl⟩

/-! ## One machine behind the other -/

/-- **The machine in the shell is behind another one** by the lines held back. -/
structure Behind (opts : Options) (s : Shell) (m : Machine) : Prop where
  holds : s.Holds opts (.ok m.program)
  /-- Nothing but the program is different. -/
  rest : m = { s.machine with program := m.program }

theorem behind_of_empty {collecting : Bool} (hm : m.program.Loaded opts.redefine)
    (hmode : collecting = m.loading) : Behind opts ⟨m, #[], collecting⟩ m :=
  ⟨holds_of_empty hm hmode, rfl⟩

theorem Behind.loaded (h : s.Behind opts m) : m.program.Loaded opts.redefine :=
  h.holds.loaded.load h.holds.load

theorem Behind.loading_eq (h : s.Behind opts m) : m.loading = s.collecting := by
  rw [h.rest]
  exact h.holds.agrees.symm

/-- Outside a block nothing is held back. -/
theorem Behind.eq_of_not_collecting (h : s.Behind opts m) (hs : s.collecting = false) :
    s = ⟨m, #[], false⟩ := by
  have hempty : s.pending = #[] := by
    by_contra hne
    rw [h.holds.coherent.collecting hne] at hs
    cases hs
  have hload := h.holds.load
  rw [hempty, Program.load_nil] at hload
  have hprogram : s.machine.program = m.program := Except.ok.inj hload
  have hmachine : s.machine = m := by
    rw [h.rest, ← hprogram]
  rw [← hmachine, ← hempty, ← hs]

theorem Behind.flush_eq (h : s.Behind opts m) (fuel : Nat) :
    ∃ events, Event.outputOf events = [] ∧
      s.flush opts fuel = some ⟨⟨m, #[], s.collecting⟩, events, .ok ()⟩ := by
  obtain ⟨events, houtput, hflush⟩ := h.holds.flush_ok fuel
  rw [← h.rest] at hflush
  exact ⟨events, houtput, hflush⟩

/-- **How feeding lines to a shell compares to submitting them.** The failures that the two report
are related by `Report`. -/
inductive Abreast (opts : Options) (Report : Failure → Failure → Prop) :
    Option (Reply Shell Unit) → Option (Reply Machine Unit) → Prop
  /-- Neither comes to an end. -/
  | endless : Abreast opts Report none none
  /-- Both go on. -/
  | going {s : Shell} {m : Machine} {events events' : List Event}
      (houtput : Event.outputOf events = Event.outputOf events') (h : s.Behind opts m) :
      Abreast opts Report (some ⟨s, events, .ok ()⟩) (some ⟨m, events', .ok ()⟩)
  /-- Both have failed. -/
  | failed {s : Shell} {m : Machine} {events events' : List Event} {failure failure' : Failure}
      (houtput : Event.outputOf events = Event.outputOf events') (h : Report failure failure') :
      Abreast opts Report (some ⟨s, events, .error failure⟩) (some ⟨m, events', .error failure'⟩)
  /-- One has refused a line that the other still holds back. -/
  | late {s : Shell} {m : Machine} {events events' : List Event} {fault : Fault}
      (houtput : Event.outputOf events = Event.outputOf events')
      (h : s.Holds opts (.error fault)) :
      Abreast opts Report (some ⟨s, events, .ok ()⟩) (some ⟨m, events', .error (.fault fault)⟩)

variable {Report : Failure → Failure → Prop}

theorem Abreast.after {fed : Option (Reply Shell Unit)} {submitted : Option (Reply Machine Unit)}
    {events events' : List Event} (h : Abreast opts Report fed submitted)
    (hevents : Event.outputOf events = Event.outputOf events') :
    Abreast opts Report (fed.map (·.after events)) (submitted.map (·.after events')) := by
  cases h with
  | endless => exact .endless
  | going houtput h => exact .going (by simp [hevents, houtput]) h
  | failed houtput h => exact .failed (by simp [hevents, houtput]) h
  | late houtput h => exact .late (by simp [hevents, houtput]) h

/-- Events that are notes only make no difference. -/
theorem Abreast.after_silent {fed : Option (Reply Shell Unit)}
    {submitted : Option (Reply Machine Unit)} {events : List Event}
    (h : Abreast opts Report fed submitted) (hevents : Event.outputOf events = []) :
    Abreast opts Report (fed.map (·.after events)) submitted := by
  have hnil : submitted.map (·.after []) = submitted := Option.map_id_apply
  rw [← hnil]
  exact h.after hevents

/-! ## One line -/

/-- Without lines held back, the machine in the shell does what the other one does. -/
theorem submit_abreast {collecting : Bool} (hm : m.program.Loaded opts.redefine)
    (hmode : collecting = m.loading)
    (hkeeps : ∀ r, m.submit opts fuel line = some r → r.state.loading = m.loading) :
    Abreast opts Eq ((⟨m, #[], collecting⟩ : Shell).submit opts fuel line)
      (m.submit opts fuel line) := by
  cases hr : m.submit opts fuel line with
  | none =>
    rw [submit, hr]
    exact .endless
  | some r =>
    have hloaded : r.state.program.Loaded opts.redefine := by
      rcases (Machine.submits_of_submit hr).program with heq | ⟨-, hload⟩
      · rwa [heq]
      · exact hm.load hload
    have hloading : collecting = r.state.loading := hmode.trans (hkeeps r hr).symm
    rw [submit, hr]
    obtain ⟨m', events, result⟩ := r
    cases result with
    | error failure => exact .failed rfl rfl
    | ok =>
      have hbehind : Behind opts ⟨m', #[], collecting⟩ m' := behind_of_empty hloaded hloading
      exact .going rfl hbehind

/-- A mode command is carried out behind the lines held back. -/
theorem command_abreast (h : s.Behind opts m) (c : ModeCommand) :
    Abreast opts Eq (s.command opts fuel c) (m.submit opts fuel c.wording) := by
  cases c with
  | openCode =>
    have hrest := congrArg (fun m : Machine => { m with loading := true }) h.rest
    exact .going rfl ⟨h.holds.reopen, hrest⟩
  | closeCode =>
    obtain ⟨events, houtput, hflush⟩ := h.flush_eq fuel
    have hclosed : s.command opts fuel .closeCode =
        some ⟨⟨{ m with loading := false }, #[], false⟩, events ++ [], .ok ()⟩ := by
      simp only [command, hflush]
      rfl
    have hbehind : Behind opts ⟨{ m with loading := false }, #[], false⟩
        { m with loading := false } := behind_of_empty h.loaded rfl
    rw [hclosed]
    exact .going (by simpa using houtput) hbehind
  | run =>
    -- behind the handover the two machines are the same
    obtain ⟨events, houtput, hflush⟩ := h.flush_eq fuel
    have hrun : s.command opts fuel .run =
        ((⟨m, #[], s.collecting⟩ : Shell).submit opts fuel ModeCommand.run.wording).map
          (·.after events) := by
      simp only [command, hflush]
      rfl
    have hsame : Abreast opts Eq
        ((⟨m, #[], s.collecting⟩ : Shell).submit opts fuel ModeCommand.run.wording)
        (m.submit opts fuel ModeCommand.run.wording) := by
      refine submit_abreast h.loaded h.loading_eq.symm fun r hr => ?_
      rw [Machine.submit_run] at hr
      exact Machine.loading_eq_of_code (Machine.run_code hr)
    rw [hrun]
    exact hsame.after_silent houtput

/-- **A line that is fed, and the same line submitted.** -/
theorem feed_abreast (h : s.Behind opts m) (hne : line ≠ []) (hline : line.IsLine) :
    Abreast opts Eq (s.feed opts fuel line) (m.submit opts fuel line) := by
  cases hc : ModeCommand.ofText? line with
  | some c =>
    rw [feed_of_command (by rw [hline.chomp_eq, hc]), ModeCommand.eq_wording_of_ofText? hc]
    exact command_abreast h c
  | none =>
    have hc' : ModeCommand.ofText? line.chomp = none := by rw [hline.chomp_eq, hc]
    cases hs : s.collecting with
    | true =>
      -- the line is held back here, and loaded there
      have hsubmit : m.submit opts fuel line = some (m.load opts [line]) :=
        Machine.submit_line hne hline hc (h.loading_eq.trans hs)
      have hpush := h.holds.push hs hc hne hline
      rw [feed_of_collecting hc' hs, hline.chomp_eq, hsubmit]
      change Holds opts _ (m.program.load opts.redefine [line]) at hpush
      cases hload : m.program.load opts.redefine [line] with
      | ok p =>
        rw [hload] at hpush
        obtain ⟨note, hnote⟩ := Machine.load_of_program hload
        rw [hnote]
        refine .going rfl ⟨hpush, ?_⟩
        rw [h.rest]
      | error fault =>
        rw [hload] at hpush
        rw [Machine.load_of_refused hload]
        exact .late rfl hpush
    | false =>
      -- nothing is held back, so both machines take the line
      have heq := h.eq_of_not_collecting hs
      rw [feed_of_text hc' hs, hline.chomp_eq, heq]
      exact submit_abreast h.loaded (hs.symm.trans h.loading_eq.symm) fun r hr =>
        Machine.submit_loading hc hr

/-- Lines that will be refused are refused when they are handed over, and nothing else happens until
then. -/
theorem feed_late (h : s.Holds opts (.error fault)) (hne : line ≠ []) (hline : line.IsLine) :
    Abreast opts Eq (s.feed opts fuel line) (some (.fail m (.fault fault))) := by
  have hs : s.collecting = true := h.coherent.collecting h.pending_ne_empty
  cases hc : ModeCommand.ofText? line with
  | some c =>
    rw [feed_of_command (by rw [hline.chomp_eq, hc])]
    obtain ⟨events, houtput, hflush⟩ := h.flush_error fuel
    cases c with
    | openCode => exact .late rfl h.reopen
    | closeCode =>
      -- the block is closed all the same
      have hclosed : s.command opts fuel .closeCode =
          some ⟨⟨{ s.machine with loading := false }, #[], false⟩, events ++ [],
            .error (.fault fault)⟩ := by
        simp only [command, hflush]
        rfl
      rw [hclosed]
      exact .failed (by simpa using houtput) rfl
    | run =>
      have hrun : s.command opts fuel .run = some ⟨s.discard, events, .error (.fault fault)⟩ := by
        simp only [command, hflush]
        rfl
      rw [hrun]
      exact .failed houtput rfl
  | none =>
    rw [feed_of_collecting (by rw [hline.chomp_eq, hc]) hs, hline.chomp_eq]
    exact .late rfl (h.push hs hc hne hline)

/-! ## Lines -/

/-- A failure as it is reported, possibly with the number of a line of the script. -/
def Reported (reported failure : Failure) : Prop :=
  reported = failure ∨
    ∃ number, reported = .context (utf8 "script line " ++ Decimal.ofNat number) failure

/-- A line that a script can hold, with something on it. -/
def IsScriptLine (line : Text) : Prop :=
  line ≠ [] ∧ line.IsLine ∧ line.length < Script.lineLimit

/-- Lines behind one that was refused already. The fault is reported when the block is handed
over. -/
theorem feedAll_late (h : s.Holds opts (.error fault))
    (hlines : ∀ line ∈ lines, IsScriptLine line) :
    Abreast opts Reported (feedAll opts fuel number lines s) (some (.fail m (.fault fault))) := by
  induction lines generalizing number s with
  | nil => exact .late rfl h
  | cons line lines ih =>
    obtain ⟨⟨hne, hline, -⟩, hlines⟩ := List.forall_mem_cons.mp hlines
    have hfeed : Abreast opts Eq (s.feed opts fuel line) (some (.fail m (.fault fault))) :=
      feed_late h hne hline
    generalize hfed : s.feed opts fuel line = fed at hfeed
    cases hfeed with
    | failed houtput hfailure =>
      subst hfailure
      rw [feedAll_cons_of_error hfed rfl]
      exact .failed houtput (Or.inr ⟨number, rfl⟩)
    | late houtput h =>
      rw [feedAll_cons_of_ok hfed rfl]
      exact (ih h hlines).after_silent houtput

/-- **Lines that are fed, and the same lines submitted.** -/
theorem feedAll_abreast (h : s.Behind opts m) (hlines : ∀ line ∈ lines, IsScriptLine line) :
    Abreast opts Reported (feedAll opts fuel number lines s) (m.submitAll opts fuel lines) := by
  induction lines generalizing number s m with
  | nil => exact .going rfl h
  | cons line lines ih =>
    obtain ⟨⟨hne, hline, -⟩, hlines⟩ := List.forall_mem_cons.mp hlines
    have hfeed : Abreast opts Eq (s.feed opts fuel line) (m.submit opts fuel line) :=
      feed_abreast h hne hline
    generalize hfed : s.feed opts fuel line = fed at hfeed
    generalize hsubmitted : m.submit opts fuel line = submitted at hfeed
    cases hfeed with
    | endless =>
      rw [feedAll_cons_of_none hfed, Machine.submitAll_cons_of_none hsubmitted]
      exact .endless
    | going houtput h =>
      rw [feedAll_cons_of_ok hfed rfl, Machine.submitAll_cons_of_ok hsubmitted rfl]
      exact (ih h hlines).after houtput
    | failed houtput hfailure =>
      subst hfailure
      rw [feedAll_cons_of_error hfed rfl, Machine.submitAll_cons_of_error hsubmitted rfl]
      exact .failed houtput (Or.inr ⟨number, rfl⟩)
    | @late s' m' events events' fault houtput h =>
      -- there the failure is final, and here it is still to be reported
      rw [feedAll_cons_of_ok hfed rfl, Machine.submitAll_cons_of_error hsubmitted rfl]
      have hrest : Abreast opts Reported (feedAll opts fuel (number + 1) lines s')
          (some (.fail m' (.fault fault))) := feedAll_late h hlines
      have hreply : some ⟨m', events', .error (.fault fault)⟩ =
          (some (.fail m' (.fault fault) : Reply Machine Unit)).map (·.after events') := by
        simp [Reply.after, Reply.fail]
      rw [hreply]
      exact hrest.after houtput

/-! ## Scripts -/

/-- A script that is a text of joined lines is read as these lines. -/
theorem ofText_joinLines (hlines : ∀ line ∈ lines, IsScriptLine line) :
    Script.ofText (Text.joinLines lines) = ⟨lines, none⟩ := by
  have hpieces : Script.pieces (Text.joinLines lines) = lines := by
    cases hlast : lines.getLast? with
    | none =>
      rw [List.getLast?_eq_none_iff.mp hlast]
      rfl
    | some last =>
      -- the last line is not empty, so no piece of the text is left out
      have hne : lines ≠ [] := by
        rintro rfl
        cases hlast
      have hlast' : last ≠ [] := (hlines last (List.mem_of_getLast? hlast)).1
      have hsplit := Text.splitLines_joinLines hne fun line hline => (hlines line hline).2.1.1
      rw [Script.pieces, hsplit, if_neg]
      rw [hlast]
      simpa using hlast'
  have hchomp : lines.map Text.chomp = lines.map id :=
    List.map_congr_left fun line hline => (hlines line hline).2.1.chomp_eq
  rw [Script.ofText_of_short, hpieces, hchomp, List.map_id]
  rw [hpieces]
  exact fun line hline => (hlines line hline).2.2

/-- At the end of a script the lines held back are handed over. -/
theorem Behind.endScript_eq (h : s.Behind opts m) (fuel : Nat) :
    ∃ events, Event.outputOf events = [] ∧
      s.endScript opts fuel = some ⟨⟨m, #[], false⟩, events, .ok ()⟩ := by
  cases hs : s.collecting with
  | true =>
    obtain ⟨events, houtput, hflush⟩ := h.flush_eq fuel
    rw [endScript, if_pos hs, hflush]
    exact ⟨_, by simpa [Event.outputOf] using houtput, rfl⟩
  | false =>
    rw [h.eq_of_not_collecting hs]
    exact ⟨[], rfl, rfl⟩

/-- At the end of a script the lines held back are refused. -/
theorem Holds.endScript_eq (h : s.Holds opts (.error fault)) (fuel : Nat) :
    ∃ t events, Event.outputOf events = [] ∧
      s.endScript opts fuel = some ⟨t, events, .error (.fault fault)⟩ := by
  have hs : s.collecting = true := h.coherent.collecting h.pending_ne_empty
  obtain ⟨events, houtput, hflush⟩ := h.flush_error fuel
  rw [endScript, if_pos hs, hflush]
  exact ⟨_, _, by simpa [Event.outputOf] using houtput, rfl⟩

/-- **A script and the same lines submitted directly have the same outcome.** -/
structure SameOutcome (r : Reply Shell Unit) (r' : Reply Machine Unit) : Prop where
  output : Event.outputOf r.events = Event.outputOf r'.events
  ok_iff : r.result = .ok () ↔ r'.result = .ok ()
  state : r.result = .ok () → r.state.machine = r'.state
  failure : ∀ failure, r'.result = .error failure →
    ∃ reported, r.result = .error reported ∧ Reported reported failure

theorem sameOutcome_of_error {reported failure : Failure} {r' : Reply Machine Unit}
    (houtput : Event.outputOf r.events = Event.outputOf r'.events)
    (hr : r.result = .error reported) (hr' : r'.result = .error failure)
    (h : Reported reported failure) : SameOutcome r r' where
  output := houtput
  ok_iff := by simp [hr, hr']
  state hok := by simp [hr] at hok
  failure failure' hfailure := by
    rw [hr'] at hfailure
    cases hfailure
    exact ⟨reported, hr, h⟩

theorem runScript_sameOutcome (h : s.Behind opts m) (hlines : ∀ line ∈ lines, IsScriptLine line) :
    Option.Rel SameOutcome (s.runScript opts fuel ⟨lines, none⟩) (m.submitAll opts fuel lines) := by
  have habreast : Abreast opts Reported (feedAll opts fuel 1 lines s)
      (m.submitAll opts fuel lines) := feedAll_abreast h hlines
  unfold runScript
  generalize feedAll opts fuel 1 lines s = fed at habreast
  generalize m.submitAll opts fuel lines = submitted at habreast
  cases habreast with
  | endless => exact .none
  | failed houtput h => exact .some (sameOutcome_of_error houtput rfl rfl h)
  | @going t m events events' houtput h =>
    obtain ⟨ending, hsilent, hend⟩ := h.endScript_eq fuel
    have houtput' : Event.outputOf (events ++ ending) = Event.outputOf events' := by
      simp [hsilent, houtput]
    simp only [Option.bind_eq_bind, Option.bind_some, hend]
    exact .some ⟨houtput', Iff.rfl, fun _ => rfl, fun failure hfailure => by cases hfailure⟩
  | @late t m events events' fault houtput h =>
    -- the end of the script hands the block over, so the fault is reported now
    obtain ⟨t', ending, hsilent, hend⟩ := h.endScript_eq fuel
    have houtput' : Event.outputOf (events ++ ending) = Event.outputOf events' := by
      simp [hsilent, houtput]
    simp only [Option.bind_eq_bind, Option.bind_some, hend]
    exact .some (sameOutcome_of_error houtput' rfl rfl (Or.inl rfl))

/-! ## What is written on the way -/

/-- The line starts the loop of a run or of a call. Before a run, the lines held back are handed
over. -/
inductive Launches (opts : Options) (s : Shell) (line : Text) (start : Machine) : Prop
  | text (hc : ModeCommand.ofText? line.chomp = none) (hs : s.collecting = false)
      (h : s.machine.Launches line.chomp start)
  | run {fuel : Nat} {flushed : Reply Shell Unit} (hc : ModeCommand.ofText? line.chomp = some .run)
      (hflush : s.flush opts fuel = some flushed) (hok : flushed.result = .ok ())
      (h : flushed.state.machine.Launches ModeCommand.run.wording start)

/-- The lines, fed to a fresh shell one after another, have written this at some point, possibly in
the middle of a run or a call. -/
def Shows (opts : Options) (lines : List Text) (out : Text) : Prop :=
  ∃ past out' s, Fed opts past out' s ∧ past.map Prod.snd <+: lines ∧
    (out = out' ∨ ∃ line start k, lines[past.length]? = some line ∧ s.Launches opts line start ∧
      out = out' ++ Event.outputOf (start.proceed opts k).events)

theorem Behind.launches_iff (h : s.Behind opts m) (hline : line.IsLine) :
    s.Launches opts line start ↔ m.Launches line start := by
  constructor
  · intro hlaunch
    cases hlaunch with
    | text hc hs hlaunch =>
      rw [h.eq_of_not_collecting hs, hline.chomp_eq] at hlaunch
      exact hlaunch
    | @run fuel flushed hc hflush hok hlaunch =>
      obtain ⟨events, -, hflush'⟩ := h.flush_eq fuel
      rw [hflush'] at hflush
      cases hflush
      rw [hline.chomp_eq] at hc
      rw [ModeCommand.eq_wording_of_ofText? hc]
      exact hlaunch
  · intro hlaunch
    cases hlaunch with
    | run =>
      obtain ⟨events, -, hflush⟩ := h.flush_eq 0
      exact .run rfl hflush rfl .run
    | call hc hl hstatement hf hhalted =>
      have hs : s.collecting = false := h.loading_eq.symm.trans hl
      refine .text (by rwa [hline.chomp_eq]) hs ?_
      rw [h.eq_of_not_collecting hs, hline.chomp_eq]
      exact .call hc hl hstatement hf hhalted

/-- While lines that will be refused are held back, nothing is started. -/
theorem Holds.not_launches (h : s.Holds opts (.error fault)) : ¬ s.Launches opts line start := by
  intro hlaunch
  cases hlaunch with
  | text hc hs =>
    rw [h.coherent.collecting h.pending_ne_empty] at hs
    cases hs
  | @run fuel flushed hc hflush hok =>
    obtain ⟨events, -, hflush'⟩ := h.flush_error fuel
    rw [hflush'] at hflush
    cases hflush
    cases hok

/-- Lines that were fed with success were submitted with success, or one of them was refused
already. -/
theorem Fed.abreast {past : List (Shell × Text)} (h : Fed opts past out s)
    (hlines : ∀ line ∈ past.map Prod.snd, IsScriptLine line) :
    (∃ m, Machine.Submitted opts .initial (past.map Prod.snd) out m ∧ s.Behind opts m) ∨
      Machine.Shows opts .initial (past.map Prod.snd) out ∧
        ∃ fault, s.Holds opts (.error fault) := by
  induction h with
  | fresh => exact Or.inl ⟨.initial, .nil, behind_of_empty .empty rfl⟩
  | @feed past out s fuel line r hfed hr hok ih =>
    rw [List.map_append] at hlines ⊢
    obtain ⟨hpast, hlast⟩ := List.forall_mem_append.mp hlines
    obtain ⟨hne, hline, -⟩ := hlast line List.mem_cons_self
    rcases ih hpast with ⟨m, hsubmitted, hbehind⟩ | ⟨hshows, fault, hholds⟩
    · have hfeed : Abreast opts Eq (s.feed opts fuel line) (m.submit opts fuel line) :=
        feed_abreast hbehind hne hline
      rw [hr] at hfeed
      generalize hsubmit : m.submit opts fuel line = submitted at hfeed
      cases hfeed with
      | going houtput h =>
        rw [houtput]
        exact Or.inl ⟨_, hsubmitted.snoc ⟨fuel, hsubmit⟩ rfl, h⟩
      | failed => cases hok
      | late houtput h =>
        -- the machine that refused the line stays behind the lines before it
        rw [houtput]
        have hshows := hsubmitted.shows_of_error ⟨fuel, hsubmit⟩ rfl
        exact Or.inr ⟨hshows, _, h⟩
    · have hfeed : Abreast opts Eq (s.feed opts fuel line) (some (.fail .initial (.fault fault))) :=
        feed_late hholds hne hline
      rw [hr] at hfeed
      cases hfeed with
      | failed => cases hok
      | late houtput h =>
        rw [houtput]
        refine Or.inr ⟨?_, fault, h⟩
        simpa [Reply.fail] using hshows.append [line]

/-- Lines that were submitted with success can be fed with success. -/
theorem fed_of_submitted (h : Machine.Submitted opts .initial lines out m)
    (hlines : ∀ line ∈ lines, IsScriptLine line) :
    ∃ past s, Fed opts past out s ∧ past.map Prod.snd = lines ∧ s.Behind opts m := by
  induction h with
  | nil => exact ⟨[], around .initial, .fresh, rfl, behind_of_empty .empty rfl⟩
  | @snoc lines out line m r hsubmitted hr hok ih =>
    obtain ⟨hpast, hlast⟩ := List.forall_mem_append.mp hlines
    obtain ⟨hne, hline, -⟩ := hlast line List.mem_cons_self
    obtain ⟨past, s, hfed, hmap, hbehind⟩ := ih hpast
    obtain ⟨fuel, hr⟩ := hr
    have hfeed : Abreast opts Eq (s.feed opts fuel line) (m.submit opts fuel line) :=
      feed_abreast hbehind hne hline
    rw [hr] at hfeed
    generalize hfeeding : s.feed opts fuel line = fed at hfeed
    cases hfeed with
    | going houtput h =>
      refine ⟨past ++ [(s, line)], _, ?_, by simp [hmap], h⟩
      rw [← houtput]
      exact hfed.feed hfeeding rfl
    | failed => cases hok
    | late => cases hok

/-- **A script writes the same as its lines submitted directly**, at any point. -/
theorem shows_iff (hlines : ∀ line ∈ lines, IsScriptLine line) :
    Shows opts lines out ↔ Machine.Shows opts .initial lines out := by
  constructor
  · rintro ⟨past, out', s, hfed, hinit, hout⟩
    have hpast : ∀ line ∈ past.map Prod.snd, IsScriptLine line :=
      fun line hline => hlines line (hinit.subset hline)
    obtain ⟨later, rfl⟩ := hinit
    rcases hfed.abreast hpast with ⟨m, hsubmitted, hbehind⟩ | ⟨hshows, fault, hholds⟩
    · refine ⟨past.length, out', m, ?_, hout.imp id ?_⟩
      · rwa [List.take_left' (by simp)]
      · rintro ⟨line, start, k, hline, hlaunch, rfl⟩
        have hline' := (hlines line (List.mem_of_getElem? hline)).2.1
        exact ⟨line, start, k, hline, (hbehind.launches_iff hline').mp hlaunch, rfl⟩
    · -- the shell has written nothing since, and cannot start anything
      rcases hout with rfl | ⟨line, start, k, -, hlaunch, -⟩
      · exact hshows.append later
      · exact absurd hlaunch hholds.not_launches
  · rintro ⟨i, out', m, hsubmitted, hout⟩
    obtain ⟨past, s, hfed, hmap, hbehind⟩ :=
      fed_of_submitted hsubmitted fun line hline => hlines line (List.mem_of_mem_take hline)
    refine ⟨past, out', s, hfed, ?_, hout.imp id ?_⟩
    · rw [hmap]
      exact List.take_prefix i lines
    · rintro ⟨line, start, k, hline, hlaunch, rfl⟩
      have hi : i < lines.length := (List.getElem?_eq_some_iff.mp hline).1
      have hlength : past.length = i := by
        rw [← List.length_map Prod.snd, hmap, List.length_take]
        omega
      have hline' := (hlines line (List.mem_of_getElem? hline)).2.1
      exact ⟨line, start, k, by rwa [hlength], (hbehind.launches_iff hline').mpr hlaunch, rfl⟩

/-- **Grouping lines into blocks is transparent.** A script that is fed to a fresh shell, and its
lines submitted directly to a fresh machine up to the first failure, end together, and with the
same outcome. Whether they end or not, they write the same. -/
theorem grouping_transparent (opts : Options) (hlines : ∀ line ∈ lines, IsScriptLine line) :
    (∀ fuel, Option.Rel SameOutcome
      ((around .initial).runScript opts fuel (.ofText (Text.joinLines lines)))
      (Machine.initial.submitAll opts fuel lines)) ∧
    ∀ out, Shows opts (Script.ofText (Text.joinLines lines)).lines out ↔
      Machine.Shows opts .initial lines out := by
  rw [ofText_joinLines hlines]
  refine ⟨fun fuel => ?_, fun out => shows_iff hlines⟩
  exact runScript_sameOutcome (behind_of_empty .empty rfl) hlines

/-- A script that opens a block twice, runs the program inside it, calls a function behind it, and
leaves another block open. -/
def nestedScript : List Text :=
  [utf8 "set code", utf8 "def show", utf8 "    print a", utf8 "set code", utf8 "set a 1",
    utf8 "call show", utf8 "run", utf8 "end set code", utf8 "set a 2", utf8 "call show",
    utf8 "set code", utf8 "print a"]

/-- Both ways, the script writes what its run and its call write, and its last line is loaded. -/
theorem grouping_of_nestedScript :
    (∀ line ∈ nestedScript, IsScriptLine line) ∧
      ∃ r r', (around .initial).runScript {} 8 (.ofText (Text.joinLines nestedScript)) = some r ∧
        Machine.initial.submitAll {} 8 nestedScript = some r' ∧ SameOutcome r r' ∧
        r.result = .ok () ∧ Event.outputOf r.events = utf8 "1\n2\n" ∧
        r'.state.program.size = 5 ∧ r'.state.loading = true := by
  have hlines : ∀ line ∈ nestedScript, IsScriptLine line := by
    unfold IsScriptLine
    decide
  refine ⟨hlines, ?_⟩
  obtain ⟨r, hr, hok, houtput⟩ : ∃ r,
      (around .initial).runScript {} 8 (.ofText (Text.joinLines nestedScript)) = some r ∧
        r.result = .ok () ∧ Event.outputOf r.events = utf8 "1\n2\n" := ⟨_, rfl, rfl, rfl⟩
  obtain ⟨r', hr', hsize, hloading⟩ : ∃ r', Machine.initial.submitAll {} 8 nestedScript = some r' ∧
      r'.state.program.size = 5 ∧ r'.state.loading = true := ⟨_, rfl, rfl, rfl⟩
  have hsame := (grouping_transparent {} hlines).1 8
  rw [hr, hr'] at hsame
  cases hsame with
  | some hsame => exact ⟨r, r', hr, hr', hsame, hok, houtput, hsize, hloading⟩

end Shell

end LineScript

import LineScript.Proofs.Lockstep

/-!
# Batch and interactive execution

A session submits statements one after another to a machine that holds functions, until one of
them fails. A batch runs the functions and the statements as one program. Both write the same, and
fail at the same statement for the same reason.

## Main definitions

* `Machine.Submitted`: statements that were submitted with success
* `Machine.FailsAt`, `Machine.Shows`: how a session fails, and what it has written so far
* `Machine.RunFailsAt`: how a run fails
* `Machine.Tracks`: a batch is where some session is

## Main results

* `Machine.Submitted.reaches`: a batch comes to where a session is
* `Machine.tracks_proceed`: a batch is always where some session is
* `Machine.batch_agrees_with_session`: batch and interactive execution agree
-/

namespace LineScript

namespace Machine

variable {opts : Options} {m b : Machine} {p p' : Program} {statements texts : List Text} {i : Nat}
  {s : Store} {rows : List Row} {text out : Text} {r : Reply Machine Unit}

/-! ## Sessions and batches -/

/-- **The texts are submitted one after another**, all with success. -/
inductive Submitted (opts : Options) (m : Machine) : List Text → Text → Machine → Prop
  | nil : Submitted opts m [] [] m
  | snoc {texts : List Text} {out text : Text} {m' : Machine} {r : Reply Machine Unit}
      (h : Submitted opts m texts out m') (hr : m'.Answers opts text r) (hok : r.result = .ok ()) :
      Submitted opts m (texts ++ [text]) (out ++ Event.outputOf r.events) r.state

/-- Of the texts, submitted one after another, the one at `i` is the first to fail. -/
def FailsAt (opts : Options) (m : Machine) (texts : List Text) (i : Nat) (out : Text)
    (cause : Failure) : Prop :=
  ∃ out' m' text r, Submitted opts m (texts.take i) out' m' ∧ texts[i]? = some text ∧
    m'.Answers opts text r ∧ r.result = .error cause ∧ out = out' ++ Event.outputOf r.events

/-- The texts, submitted one after another, have written this at some point, possibly in the
middle of a call. -/
def Shows (opts : Options) (m : Machine) (texts : List Text) (out : Text) : Prop :=
  ∃ i out' m', Submitted opts m (texts.take i) out' m' ∧
    (out = out' ∨ ∃ text start k, texts[i]? = some text ∧ m'.Launches text start ∧
      out = out' ++ Event.outputOf (start.proceed opts k).events)

/-- The machine with which the loop of a run begins. -/
def runStart (m : Machine) : Machine := { m with steps := 0, returnDepth := none }

/-- A run fails while the line outside the functions is performed, the calls that it leads to
included. -/
def RunFailsAt (opts : Options) (m : Machine) (line : Nat) (out : Text) (failure : Failure) :
    Prop :=
  ∃ r k, m.Answers opts ModeCommand.run.wording r ∧ Event.outputOf r.events = out ∧
    r.result = .error failure ∧ (m.runStart.proceed opts k).result = .error failure ∧
    (m.runStart.proceed opts k).state.outerLine = line

/-- A run answers when its steps have come to an end. -/
theorem answers_run_iff_conclude :
    m.Answers opts ModeCommand.run.wording r ↔
      ∃ k r', conclude (m.runStart.proceed opts k) = some r' ∧
        r'.after [.note (.runStarted m.program.size m.program.functions.size)] = r := by
  rw [answers_run_iff]
  simp only [loop_eq_conclude]
  rfl

theorem answers_run_ok_iff :
    (∃ r, m.Answers opts ModeCommand.run.wording r ∧ Event.outputOf r.events = out ∧
        r.result = .ok ()) ↔
      ∃ k, (m.runStart.proceed opts k).result = .ok true ∧
        Event.outputOf (m.runStart.proceed opts k).events = out := by
  simp only [answers_run_iff_conclude]
  constructor
  · rintro ⟨r, ⟨k, r', hr', rfl⟩, rfl, hok⟩
    refine ⟨k, ?_, by simp [outputOf_of_conclude hr']⟩
    cases hk : (m.runStart.proceed opts k).result with
    | error failure =>
      rw [conclude_of_error hk] at hr'
      cases hr'
      cases hok
    | ok halted =>
      cases halted with
      | true => rfl
      | false => exact absurd hk (ended_of_conclude hr')
  · rintro ⟨k, hk, rfl⟩
    exact ⟨_, ⟨k, _, conclude_of_halted hk, rfl⟩, by simp, rfl⟩

theorem runFailsAt_iff {line : Nat} {failure : Failure} :
    m.RunFailsAt opts line out failure ↔
      ∃ k, (m.runStart.proceed opts k).result = .error failure ∧
        (m.runStart.proceed opts k).state.outerLine = line ∧
        Event.outputOf (m.runStart.proceed opts k).events = out := by
  constructor
  · rintro ⟨r, k, hr, rfl, -, hk, hline⟩
    obtain ⟨k', r', hr', rfl⟩ := answers_run_iff_conclude.mp hr
    -- both counts have come to the end of the run
    have heq : m.runStart.proceed opts k' = m.runStart.proceed opts k :=
      proceed_eq_of_ended (ended_of_conclude hr') (by simp [hk])
    rw [heq] at hr'
    exact ⟨k, hk, hline, by simp [outputOf_of_conclude hr']⟩
  · rintro ⟨k, hk, hline, rfl⟩
    exact ⟨_, k, answers_run_iff_conclude.mpr ⟨k, _, conclude_of_error hk, rfl⟩, by simp, rfl, hk,
      hline⟩

/-- What a failing submission writes, its loop has written. -/
theorem output_of_error {cause : Failure} (hr : m.Answers opts text r)
    (herror : r.result = .error cause) :
    Event.outputOf r.events = [] ∨
      ∃ start k, m.Launches text start ∧
        Event.outputOf r.events = Event.outputOf (start.proceed opts k).events := by
  obtain ⟨fuel, hr⟩ := hr
  by_cases hloops : ∃ start, m.Launches text start
  · obtain ⟨start, hlaunch⟩ := hloops
    obtain ⟨leave, before, -, hbefore, hsubmit⟩ := hlaunch.submit_eq
    rw [hsubmit, loop_eq_conclude] at hr
    obtain ⟨r', hr', rfl⟩ := Option.map_eq_some_iff.mp hr
    exact Or.inr ⟨start, fuel, hlaunch, by simp [hbefore, outputOf_of_conclude hr']⟩
  · rcases (submits_of_submit hr).error herror with ⟨fault, -, rfl⟩ | ⟨start, -, hlaunch, -⟩
    · exact Or.inl rfl
    · exact absurd ⟨start, hlaunch⟩ hloops

/-! ## From a session to a batch -/

theorem Matches.output {r' : Reply Machine Bool} (h : Matches p p' statements i r r') :
    Event.outputOf r'.events = Event.outputOf r.events := by
  cases h with
  | passed hout => exact hout
  | failed hout => exact hout

theorem Matches.after {r' : Reply Machine Bool} {before before' : List Event}
    (h : Matches p p' statements i r r')
    (hout : Event.outputOf before' = Event.outputOf before) :
    Matches p p' statements i (r.after before) (r'.after before') := by
  have houtput : Event.outputOf (r'.after before').events =
      Event.outputOf (r.after before).events := by
    simp [hout, h.output]
  cases h with
  | passed _ hr hrest hr' => exact .passed houtput hr hrest hr'
  | failed _ htext hr hcause hr' houter => exact .failed houtput htext hr hcause hr' houter

section Forward

variable (hp : p.Followed p' statements) (hlimit : opts.stepLimit = 0)
  (htext : statements[i]? = some text)

include hp hlimit htext

/-- When an immediate call is over, so is the call in the program. -/
theorem InCall.loop (h : InCall p p' i s rows m b) {fuel : Nat}
    (hr : Machine.loop opts fuel m = some r) :
    ∃ k, Matches p p' statements i (r.mapState settle) (b.proceed opts k) := by
  -- the steps of the immediate call are those of the program, one by one
  induction fuel generalizing m b s rows r with
  | zero => cases hr
  | succ fuel ih =>
    cases h.step hp hlimit htext with
    | running hout hrunning hrunning' h =>
      rw [loop_of_running hrunning] at hr
      obtain ⟨r', hr', rfl⟩ := Option.map_eq_some_iff.mp hr
      obtain ⟨k, hk⟩ := ih h hr'
      refine ⟨k + 1, ?_⟩
      rw [proceed_succ_of_running hrunning']
      exact hk.after hout
    | ended hended h =>
      rw [loop_eq_conclude, proceed_succ_of_ended (ended_of_conclude hended), hended] at hr
      cases hr
      exact ⟨1, by rwa [proceed_one]⟩

/-- What is written in the middle of an immediate call is written in the program as well. -/
theorem InCall.shows (h : InCall p p' i s rows m b) (n : Nat) :
    ∃ k, Event.outputOf (b.proceed opts k).events =
      Event.outputOf (m.proceed opts n).events := by
  induction n generalizing m b s rows with
  | zero => exact ⟨0, rfl⟩
  | succ n ih =>
    cases h.step hp hlimit htext with
    | running hout hrunning hrunning' h =>
      obtain ⟨k, hk⟩ := ih h
      refine ⟨k + 1, ?_⟩
      rw [proceed_succ_of_running hrunning, proceed_succ_of_running hrunning']
      simp [hout, hk]
    | ended hended h =>
      refine ⟨1, ?_⟩
      rw [proceed_succ_of_ended (ended_of_conclude hended), proceed_one, h.output,
        Reply.mapState_events, outputOf_of_conclude hended]

/-- **A statement that is answered is performed by the program**, with the same outcome. -/
theorem matches_of_answers (hm : AtRest p s m)
    (hb : Resumes p' s (p'.rows.drop (p.size + i)) b) (hr : m.Answers opts text r) :
    ∃ k, Matches p p' statements i r (b.proceed opts k) := by
  obtain ⟨fuel, hr⟩ := hr
  cases begins hp hlimit htext hm hb with
  | answered hr' h =>
    rw [hr'] at hr
    cases hr
    exact ⟨1, by rwa [proceed_one]⟩
  | launched _ hbefore hsubmit hout hr' h =>
    rw [hsubmit] at hr
    obtain ⟨r', hloop, rfl⟩ := Option.map_eq_some_iff.mp hr
    obtain ⟨k, hk⟩ := h.loop hp hlimit htext hloop
    refine ⟨k + 1, ?_⟩
    rw [proceed_succ_of_running hr']
    exact hk.after (hout.trans hbefore.symm)

theorem shows_of_launches {start : Machine} (hm : AtRest p s m)
    (hb : Resumes p' s (p'.rows.drop (p.size + i)) b) (hlaunch : m.Launches text start) (n : Nat) :
    ∃ k, Event.outputOf (b.proceed opts k).events =
      Event.outputOf (start.proceed opts n).events := by
  cases begins hp hlimit htext hm hb with
  | answered hr' =>
    -- a submission that loops is not answered at once
    obtain ⟨leave, before, -, -, hsubmit⟩ := hlaunch.submit_eq
    have hnone := (hsubmit opts 0).symm.trans (hr' 0)
    cases hnone
  | launched hlaunch' _ _ hout hr' h =>
    obtain rfl := hlaunch.unique hlaunch'
    obtain ⟨k, hk⟩ := h.shows hp hlimit htext n
    refine ⟨k + 1, ?_⟩
    rw [proceed_succ_of_running hr']
    simp [hout, hk]

end Forward

/-- As long as there are statements to come, the program goes on. -/
theorem resumes_of_continues (hp : p.Followed p' statements) {r' : Reply Machine Bool}
    (hi : i < statements.length) (h : Continues (Resumes p') s (p'.rows.drop (p.size + i)) r') :
    r'.result = .ok false ∧ Resumes p' s (p'.rows.drop (p.size + i)) r'.state := by
  refine h.resolve_left ?_
  rintro ⟨-, hnil⟩
  exact Nat.not_le.mpr hi (hp.drop_eq_nil_iff.mp hnil)

/-- **A batch comes to where a session is.** -/
theorem Submitted.reaches (hp : p.Followed p' statements) (hlimit : opts.stepLimit = 0)
    (hm : AtRest p s m) (hb : Resumes p' s (p'.rows.drop (p.size + 0)) b) {m' : Machine}
    (h : Submitted opts m texts out m') (htexts : texts <+: statements) :
    ∃ s' k, AtRest p s' m' ∧
      Continues (Resumes p') s' (p'.rows.drop (p.size + texts.length)) (b.proceed opts k) ∧
      Event.outputOf (b.proceed opts k).events = out := by
  induction h with
  | nil => exact ⟨s, 0, hm, Or.inr ⟨rfl, hb⟩, rfl⟩
  | @snoc texts out text m' r _ hr hok ih =>
    obtain ⟨s', k, hm', hb', hout⟩ := ih ((List.prefix_append _ _).trans htexts)
    obtain ⟨later, rfl⟩ := htexts
    have htext : (texts ++ [text] ++ later)[texts.length]? = some text := by simp
    obtain ⟨hrunning, hresumes⟩ := resumes_of_continues hp (by simp) hb'
    obtain ⟨k', hk'⟩ := matches_of_answers hp hlimit htext hm' hresumes hr
    -- the steps so far, and behind them those of the statement
    have hsteps := proceed_add hrunning k'
    have houtput := hk'.output
    cases hk' with
    | passed _ _ hrest hr' =>
      refine ⟨_, k + k', hrest, ?_, ?_⟩
      · rw [hsteps, List.length_append]
        exact hr'
      · rw [hsteps]
        simp [hout, houtput]
    | failed _ _ herror => cases hok.symm.trans herror

/-! ## From a batch to a session -/

/-- **A batch is where some session is**: between two statements, inside a call from one of them,
or at its failure. -/
inductive Tracks (opts : Options) (p p' : Program) (statements : List Text) (m : Machine)
    (r' : Reply Machine Bool) : Prop
  | between {i : Nat} {s : Store} {m' : Machine} (hi : i ≤ statements.length)
      (h : Submitted opts m (statements.take i) (Event.outputOf r'.events) m')
      (hm' : AtRest p s m') (hr' : Continues (Resumes p') s (p'.rows.drop (p.size + i)) r')
  | inside {i k : Nat} {s : Store} {rows : List Row} {m' start : Machine} {out text : Text}
      {before : List Event} (h : Submitted opts m (statements.take i) out m')
      (htext : statements[i]? = some text) (hlaunch : m'.Launches text start)
      (hbefore : Event.outputOf before = [])
      (hsubmit : ∀ fuel, m'.submit opts fuel text =
        (loop opts fuel start).map fun r => (r.mapState settle).after before)
      (hk : (start.proceed opts k).result = .ok false) (hr' : r'.result = .ok false)
      (hin : InCall p p' i s rows (start.proceed opts k).state r'.state)
      (hout : Event.outputOf r'.events =
        out ++ Event.outputOf (start.proceed opts k).events)
  | failed {i : Nat} {text : Text} {cause : Failure} (htext : statements[i]? = some text)
      (h : FailsAt opts m statements i (Event.outputOf r'.events) cause)
      (hr' : r'.result = .error (cause.locatedAt (p.size + i) text))
      (houter : r'.state.outerLine = p.size + i)

section Backward

variable {r' : Reply Machine Bool}

/-- When a statement is over in the program, it is answered in the session. -/
theorem Matches.tracks {m' : Machine} {before before' : List Event}
    (hmatch : Matches p p' statements i r r') (htext : statements[i]? = some text)
    (h : Submitted opts m (statements.take i) out m')
    (hr : m'.Answers opts text (r.after before))
    (hout : Event.outputOf before' = out ++ Event.outputOf before) :
    Tracks opts p p' statements m (r'.after before') := by
  have houtput : out ++ Event.outputOf (r.after before).events =
      Event.outputOf (r'.after before').events := by
    simp [hout, hmatch.output]
  cases hmatch with
  | passed _ hok hrest hr' =>
    have hi : i < statements.length := (List.getElem?_eq_some_iff.mp htext).1
    have hnext := h.snoc hr hok
    rw [houtput] at hnext
    refine .between hi ?_ hrest hr'
    rw [List.take_add_one, htext]
    exact hnext
  | failed _ htext' herror _ hr' houter =>
    cases htext.symm.trans htext'
    exact .failed htext ⟨out, m', text, _, h, htext, hr, herror, houtput.symm⟩ hr' houter

/-- **A step of a batch** goes where some session goes. -/
theorem Tracks.step (hp : p.Followed p' statements) (hlimit : opts.stepLimit = 0)
    (h : Tracks opts p p' statements m r') (hrunning : r'.result = .ok false) :
    Tracks opts p p' statements m ((r'.state.step opts).after r'.events) := by
  cases h with
  | @between i s m' hi h hm' hr' =>
    obtain ⟨-, hb⟩ := hr'.resolve_left fun hended => by cases hrunning.symm.trans hended.1
    cases htext : statements[i]? with
    | none =>
      -- all statements are performed, and the step only ends the run
      have hnil := hp.drop_eq_nil_iff.mpr (List.getElem?_eq_none_iff.mp htext)
      have hfollows := step_spec hlimit hp.indexed' hb
      rw [hnil] at hfollows
      cases hfollows with
      | halted hresult hout =>
        exact .between hi (by simpa [hout] using h) hm' (Or.inl ⟨hresult, hnil⟩)
    | some text =>
      cases begins hp hlimit htext hm' hb with
      | @answered r hr hmatch =>
        have hanswers : m'.Answers opts text (r.after []) := ⟨0, hr 0⟩
        exact hmatch.tracks htext h hanswers (by simp)
      | launched hlaunch hbefore hsubmit hout hr' hin =>
        exact .inside (k := 0) h htext hlaunch hbefore hsubmit rfl hr' hin
          (by simp [hout, Reply.pure])
  | @inside i k s rows m' start out text before h htext hlaunch hbefore hsubmit hk _ hin hout =>
    have hsteps : start.proceed opts (k + 1) =
        ((start.proceed opts k).state.step opts).after (start.proceed opts k).events := by
      rw [proceed_add hk, proceed_one]
    cases hin.step hp hlimit htext with
    | @running s' rows' hout' hr hr' hin =>
      have hin' : InCall p p' i s' rows' (start.proceed opts (k + 1)).state
          ((r'.state.step opts).after r'.events).state := by
        rw [hsteps]
        exact hin
      refine .inside h htext hlaunch hbefore hsubmit ?_ hr' hin' ?_
      · rw [hsteps]
        exact hr
      · rw [hsteps]
        simp [hout, hout']
    | @ended answer hr hmatch =>
      -- the loop of the immediate call is over as well
      have hloop : loop opts (k + 1) start =
          some (answer.after (start.proceed opts k).events) := by
        rw [loop_eq_conclude, hsteps, conclude_after, hr]
        rfl
      have hanswers : m'.Answers opts text
          ((answer.mapState settle).after (before ++ (start.proceed opts k).events)) := by
        refine ⟨k + 1, ?_⟩
        rw [hsubmit, hloop]
        simp [Reply.after, Reply.mapState]
      exact hmatch.tracks htext h hanswers (by simp [hout, hbefore])
  | failed _ _ herror => cases hrunning.symm.trans herror

/-- **A batch is always where some session is.** -/
theorem tracks_proceed (hp : p.Followed p' statements) (hlimit : opts.stepLimit = 0)
    (hm : AtRest p s m) (hb : Resumes p' s (p'.rows.drop (p.size + 0)) b) (k : Nat) :
    Tracks opts p p' statements m (b.proceed opts k) := by
  induction k with
  | zero => exact .between (Nat.zero_le _) .nil hm (Or.inr ⟨rfl, hb⟩)
  | succ k ih =>
    by_cases hrunning : (b.proceed opts k).result = .ok false
    · rw [proceed_add hrunning, proceed_one]
      exact ih.step hp hlimit hrunning
    · rw [proceed_of_ended hrunning (Nat.le_succ k)]
      exact ih

end Backward

/-! ## Agreement -/

section Agreement

variable (hp : p.Followed p' statements) (hlimit : opts.stepLimit = 0) (hm : AtRest p s m)
  (hb : Resumes p' s (p'.rows.drop (p.size + 0)) b)

include hp hlimit hm hb

theorem submitted_iff :
    (∃ m', Submitted opts m statements out m') ↔
      ∃ k, (b.proceed opts k).result = .ok true ∧
        Event.outputOf (b.proceed opts k).events = out := by
  constructor
  · rintro ⟨m', h⟩
    obtain ⟨s', k, -, hcontinues, hout⟩ := h.reaches hp hlimit hm hb (List.prefix_refl _)
    rcases hcontinues with ⟨hended, -⟩ | ⟨hrunning, hresumes⟩
    · exact ⟨k, hended, hout⟩
    · -- there is nothing left to perform, so the next step is the last one
      rw [hp.drop_eq_nil_iff.mpr (Nat.le_refl _)] at hresumes
      cases step_spec hlimit hp.indexed' hresumes with
      | halted hended hlast =>
        refine ⟨k + 1, ?_⟩
        rw [proceed_add hrunning, proceed_one]
        exact ⟨hended, by simp [hout, hlast]⟩
  · rintro ⟨k, hended, rfl⟩
    cases tracks_proceed hp hlimit hm hb k with
    | @between i s' m' hi h hm' hcontinues =>
      -- the run has ended, so no statement is left
      rcases hcontinues with ⟨-, hnil⟩ | ⟨hrunning, -⟩
      · rw [List.take_of_length_le (hp.drop_eq_nil_iff.mp hnil)] at h
        exact ⟨m', h⟩
      · cases hrunning.symm.trans hended
    | inside _ _ _ _ _ _ hrunning => cases hrunning.symm.trans hended
    | failed _ _ herror => cases herror.symm.trans hended

/-- A batch comes to the failure of a session. -/
theorem FailsAt.reaches {cause : Failure} (h : FailsAt opts m statements i out cause) :
    ∃ text k, statements[i]? = some text ∧ p.Raises cause ∧
      (b.proceed opts k).result = .error (cause.locatedAt (p.size + i) text) ∧
      (b.proceed opts k).state.outerLine = p.size + i ∧
      Event.outputOf (b.proceed opts k).events = out := by
  obtain ⟨out', m', text, r, h, htext, hr, herror, rfl⟩ := h
  have hi : i < statements.length := (List.getElem?_eq_some_iff.mp htext).1
  obtain ⟨s', k, hm', hcontinues, hout⟩ := h.reaches hp hlimit hm hb (List.take_prefix _ _)
  rw [List.length_take_of_le (Nat.le_of_lt hi)] at hcontinues
  obtain ⟨hrunning, hresumes⟩ := resumes_of_continues hp hi hcontinues
  obtain ⟨k', hk'⟩ := matches_of_answers hp hlimit htext hm' hresumes hr
  have houtput := hk'.output
  cases hk' with
  | passed _ hok => cases hok.symm.trans herror
  | failed _ htext' herror' hcause hresult houter =>
    cases htext.symm.trans htext'
    cases herror.symm.trans herror'
    refine ⟨text, k + k', htext, hcause, ?_⟩
    rw [proceed_add hrunning]
    exact ⟨hresult, houter, by simp [hout, houtput]⟩

theorem failsAt_iff {line : Nat} {failure : Failure} :
    (∃ k, (b.proceed opts k).result = .error failure ∧
        (b.proceed opts k).state.outerLine = line ∧
        Event.outputOf (b.proceed opts k).events = out) ↔
      ∃ i text cause, line = p.size + i ∧ statements[i]? = some text ∧
        FailsAt opts m statements i out cause ∧ failure = cause.locatedAt line text := by
  constructor
  · rintro ⟨k, herror, rfl, rfl⟩
    cases tracks_proceed hp hlimit hm hb k with
    | between _ _ _ hcontinues =>
      rcases hcontinues with ⟨hended, -⟩ | ⟨hrunning, -⟩
      · cases hended.symm.trans herror
      · cases hrunning.symm.trans herror
    | inside _ _ _ _ _ _ hrunning => cases hrunning.symm.trans herror
    | @failed i text cause htext h hresult houter =>
      refine ⟨i, text, cause, houter, htext, h, ?_⟩
      rw [houter]
      exact Except.error.inj (herror.symm.trans hresult)
  · rintro ⟨i, text, cause, rfl, htext, h, rfl⟩
    obtain ⟨text', k, htext', -, hk⟩ := h.reaches hp hlimit hm hb
    cases htext.symm.trans htext'
    exact ⟨k, hk⟩

theorem shows_iff :
    Shows opts m statements out ↔ ∃ k, Event.outputOf (b.proceed opts k).events = out := by
  constructor
  · rintro ⟨i, out', m', h, hout⟩
    obtain ⟨s', k, hm', hcontinues, rfl⟩ := h.reaches hp hlimit hm hb (List.take_prefix _ _)
    rcases hout with rfl | ⟨text, start, n, htext, hlaunch, rfl⟩
    · exact ⟨k, rfl⟩
    · have hi : i < statements.length := (List.getElem?_eq_some_iff.mp htext).1
      rw [List.length_take_of_le (Nat.le_of_lt hi)] at hcontinues
      obtain ⟨hrunning, hresumes⟩ := resumes_of_continues hp hi hcontinues
      obtain ⟨k', hk'⟩ := shows_of_launches hp hlimit htext hm' hresumes hlaunch n
      refine ⟨k + k', ?_⟩
      rw [proceed_add hrunning]
      simp [hk']
  · rintro ⟨k, rfl⟩
    cases tracks_proceed hp hlimit hm hb k with
    | between _ h => exact ⟨_, _, _, h, Or.inl rfl⟩
    | inside h htext hlaunch _ _ _ _ _ hout =>
      exact ⟨_, _, _, h, Or.inr ⟨_, _, _, htext, hlaunch, hout⟩⟩
    | @failed i text cause htext h =>
      obtain ⟨out', m', text, r, h, htext, hr, herror, hout⟩ := h
      rcases output_of_error hr herror with hnone | ⟨start, n, hlaunch, hevents⟩
      · exact ⟨i, out', m', h, Or.inl (by rw [hout, hnone, List.append_nil])⟩
      · exact ⟨i, out', m', h, Or.inr ⟨text, start, n, htext, hlaunch, by rw [hout, hevents]⟩⟩

end Agreement

/-- A machine that was made with a program and has done nothing yet. -/
def holding (opts : Options) (lines : List Text) : Machine :=
  (Machine.initial.load opts lines).state

/-- **Batch and interactive execution agree.** The functions are some lines that can be loaded,
each a definition or indented, and a definition first. Statements that are no lines of functions
may be submitted one after another to a machine that holds the functions, or follow the functions
in a program that is run. One succeeds with some output exactly if the other does, and what one
has written at some point the other has as well. The session fails at a statement exactly if the
run fails while it performs that statement, with the same output and for the same reason: a
failure in a called body is the same, and the fault of the statement itself is named with its line
in the run. -/
theorem batch_agrees_with_session (opts : Options) (functions statements : List Text)
    (hlimit : opts.stepLimit = 0)
    (hopened : ∀ line, functions.head? = some line → Line.isDefinition line = true)
    (hskipped : ∀ line ∈ functions, Line.isSkipped line = true)
    (hload : (Machine.initial.load opts functions).result = .ok ())
    (hstatements : ∀ text ∈ statements, text ≠ [] ∧ Line.isIndented text = false ∧
      Line.isDefinition text = false ∧ ModeCommand.ofText? text = none) :
    (Machine.initial.load opts (functions ++ statements)).result = .ok () ∧
    (∀ out, (∃ m, Submitted opts (holding opts functions) statements out m) ↔
      ∃ r, (holding opts (functions ++ statements)).Answers opts ModeCommand.run.wording r ∧
        Event.outputOf r.events = out ∧ r.result = .ok ()) ∧
    (∀ line out failure,
      (holding opts (functions ++ statements)).RunFailsAt opts line out failure ↔
        ∃ i text cause, line = functions.length + i ∧ statements[i]? = some text ∧
          (holding opts functions).FailsAt opts statements i out cause ∧
          failure = cause.locatedAt line text) ∧
    (∀ i out cause, (holding opts functions).FailsAt opts statements i out cause →
      (∃ fault, cause = .fault fault) ∨
        ∃ (line : Nat) (text : Text) (fault : Fault), functions[line]? = some text ∧
          Line.isIndented text = true ∧ cause = .atLine line text (.fault fault)) ∧
    ∀ out, (holding opts functions).Shows opts statements out ↔
      ∃ k, Event.outputOf
        ((holding opts (functions ++ statements)).runStart.proceed opts k).events = out := by
  obtain ⟨p, hload⟩ : ∃ p, Program.empty.load opts.redefine functions = .ok p := by
    rcases Machine.initial.load_cases opts functions with ⟨fault, h⟩ | ⟨p, -, hp, -⟩
    · rw [h] at hload
      cases hload
    · exact ⟨p, hp⟩
  obtain ⟨hlines, p', hload', hp⟩ := Program.followed_of_load hload hskipped hopened
    (fun text htext => by simp [Line.isSkipped, hstatements text htext])
    (fun text htext => ⟨(hstatements text htext).1, (hstatements text htext).2.2.2⟩)
  have hsize : p.size = functions.length := by
    rw [← hlines, Array.length_toList]
    rfl
  obtain ⟨-, hsession⟩ := load_of_ok (m := Machine.initial) hload
  obtain ⟨hok, hbatch⟩ := load_of_ok (m := Machine.initial) hload'
  have hm : AtRest p .empty { Machine.initial with program := p } := ⟨rfl, rfl, rfl, rfl, rfl⟩
  have hb : Resumes p' .empty (p'.rows.drop (p.size + 0))
      { Machine.initial with program := p' }.runStart := by
    rw [Nat.add_zero, ← hp.mainRows_rows]
    exact resumes_of_idle (m := { Machine.initial with program := p' }) rfl rfl
  unfold holding
  rw [hsession, hbatch]
  refine ⟨hok, fun out => ?_, fun line out failure => ?_, fun i out cause h => ?_,
    fun out => shows_iff hp hlimit hm hb⟩
  · rw [answers_run_ok_iff]
    exact submitted_iff hp hlimit hm hb
  · rw [runFailsAt_iff, ← hsize]
    exact failsAt_iff hp hlimit hm hb
  · obtain ⟨-, -, -, hcause, -⟩ := h.reaches hp hlimit hm hb
    rcases hcause with hfault | ⟨line, text, fault, hline, hcause⟩
    · exact Or.inl hfault
    · refine Or.inr ⟨line, text, fault, ?_, hcause⟩
      rwa [← Array.getElem?_toList, hlines] at hline

/-- Functions of which the first calls the second, and the last one has no body. -/
def takingFunctions : List Text :=
  [utf8 "def f", utf8 " print a", utf8 " call g", utf8 "def g", utf8 " sub a 3", utf8 "def h"]

/-- Statements of which the last one takes off too much, two calls deep. -/
def takingStatements : List Text :=
  [utf8 "set a 5", utf8 "call h", utf8 "call f", utf8 "call f"]

theorem session_of_takingStatements :
    (holding {} (takingFunctions ++ takingStatements)).RunFailsAt {} 9 (utf8 "5\n2\n")
        (.atLine 4 (utf8 " sub a 3") (.fault (.underflow (utf8 "a") 2 3))) ∧
      (holding {} takingFunctions).FailsAt {} takingStatements 3 (utf8 "5\n2\n")
        (.atLine 4 (utf8 " sub a 3") (.fault (.underflow (utf8 "a") 2 3))) := by
  have hbatch : (holding {} (takingFunctions ++ takingStatements)).RunFailsAt {} 9 (utf8 "5\n2\n")
      (.atLine 4 (utf8 " sub a 3") (.fault (.underflow (utf8 "a") 2 3))) :=
    ⟨_, 10, ⟨10, rfl⟩, rfl, rfl, rfl, rfl⟩
  obtain ⟨-, -, hfails, hcauses, -⟩ := batch_agrees_with_session {} takingFunctions
    takingStatements rfl (fun line h => by cases h; rfl) (by decide) rfl (by decide)
  obtain ⟨i, text, cause, hline, -, h, hcause⟩ := (hfails _ _ _).mp hbatch
  obtain rfl : i = 3 := by
    have hlength : takingFunctions.length = 6 := rfl
    omega
  refine ⟨hbatch, ?_⟩
  rcases hcauses _ _ _ h with ⟨fault, rfl⟩ | ⟨line, text', fault, -, -, rfl⟩
  · cases hcause
  · rw [hcause]
    exact h

end Machine

end LineScript

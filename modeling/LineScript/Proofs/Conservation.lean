import LineScript.Proofs.Handover
import Mathlib.Data.List.Perm.Basic

/-!
# Lines on their way

A line that is entered in a block is held back in the shell first and is part of the program later.
On the way its text is joined with others and split again. Lines keep their order, none is there
twice, and none is lost but one: an empty line that is handed over alone.

## Main definitions

* `Shell.sourceLines`: the lines of the program, followed by the lines held back
* `Shell.entered`: the lines that were entered in a block
* `Shell.DropsBlank`: a line that makes the shell hand over a single empty line
* `Shell.Takes`: what a line that is taken with success does to the lines of a shell

## Main results

* `Shell.takes_of_feed`: one line is taken in one of four ways
* `Shell.Takes.sourceLines_append`: what becomes of the lines
* `Shell.sourceLines_eq_entered_iff`: the lines are those entered, except for empty ones that are
  handed over alone
-/

namespace LineScript

namespace Shell

variable {opts : Options} {fuel : Nat} {s t : Shell} {line out : Text} {r : Reply Shell Unit}
  {past : List (Shell × Text)}

/-! ## Source lines -/

/-- The lines of the program, followed by the lines held back. -/
def sourceLines (s : Shell) : List Text := s.machine.program.lines.toList ++ s.pending.toList

/-- The line, if it is fed while a block is being entered and is no mode command. -/
def enters? (s : Shell) (line : Text) : Option Text :=
  if s.collecting ∧ ModeCommand.ofText? line = none then some line else none

/-- The lines that were entered in a block, of those that were fed. -/
def entered (past : List (Shell × Text)) : List Text :=
  past.filterMap fun use => use.1.enters? use.2

/-- The line makes the shell hand over a block of a single empty line. -/
def DropsBlank (s : Shell) (line : Text) : Prop :=
  s.pending = #[[]] ∧ (line = ModeCommand.closeCode.wording ∨ line = ModeCommand.run.wording)

instance (s : Shell) (line : Text) : Decidable (s.DropsBlank line) :=
  inferInstanceAs (Decidable (_ ∧ _))

/-- The empty line that is lost with a line, if there is one. -/
def dropped (s : Shell) (line : Text) : List Text := if s.DropsBlank line then [[]] else []

theorem enters?_of_command {c : ModeCommand} (hc : ModeCommand.ofText? line = some c) :
    s.enters? line = none := by
  simp [enters?, hc]

/-- Only commands that hand a block over can lose a line. -/
theorem dropped_of_command {c : ModeCommand} (hc : ModeCommand.ofText? line = some c) :
    s.dropped line = if s.pending = #[[]] ∧ c ≠ .openCode then [[]] else [] := by
  have hiff : c.wording = ModeCommand.closeCode.wording ∨ c.wording = ModeCommand.run.wording ↔
      c ≠ .openCode := by
    cases c <;> decide
  simp only [dropped, DropsBlank, ModeCommand.eq_wording_of_ofText? hc, hiff]

theorem dropped_of_text (hc : ModeCommand.ofText? line = none) : s.dropped line = [] := by
  refine if_neg ?_
  rintro ⟨-, rfl | rfl⟩ <;> simp at hc

/-! ## One line -/

/-- **What a line that is taken with success does to the lines of a shell.** -/
inductive Takes (opts : Options) (s : Shell) (line : Text) : Shell → Prop
  /-- A block is opened. -/
  | opens {machine : Machine} (hc : ModeCommand.ofText? line.chomp = some .openCode)
      (hprogram : machine.program = s.machine.program) :
      Takes opts s line ⟨machine, s.pending, true⟩
  /-- The lines held back are handed over. -/
  | handsOver {c : ModeCommand} {fuel : Nat} {flushed : Reply Shell Unit} {machine : Machine}
      {collecting : Bool} (hc : ModeCommand.ofText? line.chomp = some c) (hopen : c ≠ .openCode)
      (hflush : s.flush opts fuel = some flushed) (hok : flushed.result = .ok ())
      (hprogram : machine.program = flushed.state.machine.program) :
      Takes opts s line ⟨machine, #[], collecting⟩
  /-- The line is held back. -/
  | holds (hc : ModeCommand.ofText? line.chomp = none) (hs : s.collecting = true) :
      Takes opts s line { s with pending := s.pending.push line.chomp }
  /-- The line is performed at once. -/
  | performs {machine : Machine} (hc : ModeCommand.ofText? line.chomp = none)
      (hs : s.collecting = false) (hprogram : machine.program = s.machine.program) :
      Takes opts s line { s with machine := machine }

/-- A command that closes or runs a block hands it over. -/
theorem takes_of_command {c : ModeCommand} (hs : s.Coherent)
    (hc : ModeCommand.ofText? line.chomp = some c) (h : s.command opts fuel c = some r)
    (hok : r.result = .ok ()) : Takes opts s line r.state := by
  cases c with
  | openCode =>
    cases h
    exact .opens hc rfl
  | closeCode =>
    obtain ⟨flushed, hflush, h⟩ := Option.bind_eq_some_iff.mp h
    obtain ⟨machine, hstate, -⟩ := flush_state hs hflush
    rw [submit_closeCode, Option.bind_eq_bind, Option.bind_some] at h
    split at h
    · -- a block that is refused is reported, although it is closed
      cases h
      cases hok
    · next hflushed =>
      cases h
      have hprogram : machine.program = flushed.state.machine.program := by rw [hstate]
      rw [Reply.after_state, hstate]
      exact .handsOver hc (by decide) hflush hflushed hprogram
  | run =>
    obtain ⟨flushed, hflush, h⟩ := Option.bind_eq_some_iff.mp h
    obtain ⟨machine, hstate, -⟩ := flush_state hs hflush
    split at h
    · next hflushed =>
      cases h
      rw [hflushed] at hok
      cases hok
    · next hflushed =>
      obtain ⟨r₁, hr₁, rfl⟩ := Option.map_eq_some_iff.mp h
      obtain ⟨r₂, hr₂, rfl⟩ := Option.map_eq_some_iff.mp hr₁
      have hprogram : r₂.state.program = flushed.state.machine.program :=
        Machine.program_eq_of_code (Machine.run_code hr₂)
      rw [Reply.after_state, Reply.mapState_state, hstate]
      exact .handsOver hc (by decide) hflush hflushed hprogram

/-- **A line is taken in one of four ways.** -/
theorem takes_of_feed (hs : s.Coherent) (ha : s.Agrees) (h : s.feed opts fuel line = some r)
    (hok : r.result = .ok ()) : Takes opts s line r.state := by
  cases hc : ModeCommand.ofText? line.chomp with
  | some c =>
    rw [feed_of_command hc] at h
    exact takes_of_command hs hc h hok
  | none =>
    cases hcollecting : s.collecting with
    | true =>
      rw [feed_of_collecting hc hcollecting] at h
      cases h
      exact .holds hc hcollecting
    | false =>
      rw [feed_of_text hc hcollecting] at h
      obtain ⟨r', hr', rfl⟩ := Option.map_eq_some_iff.mp h
      -- the machine is not loading either, so the text is no block
      rcases (Machine.submits_of_submit hr').program with hprogram | ⟨⟨-, -, hloading, -⟩, -⟩
      · exact .performs hc hcollecting hprogram
      · rw [← ha, hcollecting] at hloading
        cases hloading

theorem Takes.pending (h : Takes opts s line t) :
    ∀ text ∈ t.pending, text ∈ s.pending ∨ text = line.chomp := by
  intro text htext
  cases h with
  | opens => exact Or.inl htext
  | handsOver => exact absurd htext (Array.not_mem_empty text)
  | holds => exact Array.mem_push.mp htext
  | performs => exact Or.inl htext

/-- A block that is handed over becomes part of the program, unless it is a single empty line. -/
theorem sourceLines_of_flush (hs : s.Coherent) (hlines : ∀ text ∈ s.pending, text.IsLine)
    (h : s.flush opts fuel = some r) (hok : r.result = .ok ()) :
    s.sourceLines =
      r.state.machine.program.lines.toList ++ if s.pending = #[[]] then [[]] else [] := by
  by_cases hempty : s.pending = #[]
  · rw [flush_of_empty hempty] at h
    cases h
    simp [sourceLines, hempty, Reply.pure]
  by_cases hblank : s.pending = #[[]]
  · -- the text is empty, and the machine is what it was
    rw [flush_of_blank hblank] at h
    cases h
    simp [sourceLines, hblank, Reply.pure, discard]
  · rw [flush_of_block hs hlines hempty hblank] at h
    cases h
    rcases s.machine.load_cases opts s.pending.toList with ⟨fault, hload⟩ | ⟨p, note, hp, hload⟩
    · rw [hload] at hok
      cases hok
    · obtain ⟨found, -, rfl⟩ := Program.load_eq_ok hp
      rw [hload]
      simp [sourceLines, hblank]

/-- **What becomes of the lines**: the line entered comes last, and an empty line may be lost. -/
theorem Takes.sourceLines_append (h : Takes opts s line t) (hs : s.Coherent)
    (hlines : ∀ text ∈ s.pending, text.IsLine) (hline : line.IsLine) :
    s.sourceLines ++ (s.enters? line).toList = t.sourceLines ++ s.dropped line := by
  have hchomp := hline.chomp_eq
  cases h with
  | opens hc hprogram =>
    rw [hchomp] at hc
    simp [enters?_of_command hc, dropped_of_command hc, sourceLines, hprogram]
  | handsOver hc hopen hflush hok hprogram =>
    rw [hchomp] at hc
    rw [enters?_of_command hc, dropped_of_command hc, sourceLines_of_flush hs hlines hflush hok]
    simp [sourceLines, hprogram, hopen]
  | holds hc hcollecting =>
    rw [hchomp] at hc
    simp [dropped_of_text hc, sourceLines, enters?, hc, hcollecting, hchomp]
  | performs hc hcollecting hprogram =>
    rw [hchomp] at hc
    simp [dropped_of_text hc, sourceLines, enters?, hcollecting, hprogram]

/-! ## Lines that were fed -/

/-- The shell stays coherent, and holds back lines that were fed. -/
theorem Fed.tidy (h : Fed opts past out s) (hlines : ∀ use ∈ past, use.2.IsLine) :
    s.Coherent ∧ s.Agrees ∧ ∀ text ∈ s.pending, text.IsLine := by
  induction h with
  | fresh =>
    refine ⟨coherent_of_empty fun hc => (by cases hc), rfl, fun text htext => ?_⟩
    exact absurd htext (Array.not_mem_empty text)
  | @feed past out s fuel line r _ hr hok ih =>
    obtain ⟨hpast, hlast⟩ := List.forall_mem_append.mp hlines
    obtain ⟨hs, ha, hpending⟩ := ih hpast
    have hline : line.IsLine := hlast (s, line) List.mem_cons_self
    have hkeeps := feed_keeps hs hr
    refine ⟨hkeeps.coherent, hkeeps.agrees ha, fun text htext => ?_⟩
    -- a line held back was held back before, or is the one that was fed
    rcases (takes_of_feed hs ha hr hok).pending text htext with hheld | rfl
    · exact hpending text hheld
    · rwa [hline.chomp_eq]

/-- The number of empty lines that were handed over alone. -/
def droppedBlanks (past : List (Shell × Text)) : Nat :=
  past.countP fun use => use.1.DropsBlank use.2

theorem entered_snoc (past : List (Shell × Text)) (s : Shell) (line : Text) :
    entered (past ++ [(s, line)]) = entered past ++ (s.enters? line).toList := by
  rw [entered, List.filterMap_append]
  cases h : s.enters? line <;> simp [entered, h]

theorem replicate_droppedBlanks_snoc (past : List (Shell × Text)) (s : Shell) (line : Text) :
    List.replicate (droppedBlanks (past ++ [(s, line)])) [] =
      s.dropped line ++ List.replicate (droppedBlanks past) [] := by
  rw [droppedBlanks, List.countP_append]
  by_cases h : s.DropsBlank line <;> simp [droppedBlanks, dropped, h, List.replicate_succ]

/-- **Lines that were entered are there**, in their order, up to the empty ones that were handed
over alone. -/
theorem Fed.entered_perm (h : Fed opts past out s) (hlines : ∀ use ∈ past, use.2.IsLine) :
    s.sourceLines.Sublist (entered past) ∧
      (entered past).Perm (s.sourceLines ++ List.replicate (droppedBlanks past) []) := by
  induction h with
  | fresh => exact ⟨List.Sublist.refl _, List.Perm.refl _⟩
  | @feed past out s fuel line r hfed hr hok ih =>
    obtain ⟨hpast, hlast⟩ := List.forall_mem_append.mp hlines
    obtain ⟨hs, ha, hpending⟩ := hfed.tidy hpast
    obtain ⟨hsub, hperm⟩ := ih hpast
    have hline : line.IsLine := hlast (s, line) List.mem_cons_self
    have hstep := (takes_of_feed hs ha hr hok).sourceLines_append hs hpending hline
    rw [entered_snoc, replicate_droppedBlanks_snoc]
    constructor
    · -- nothing is added by what is lost
      have hkept := List.sublist_append_left r.state.sourceLines (s.dropped line)
      rw [← hstep] at hkept
      exact hkept.trans (hsub.append_right _)
    · -- the line entered stands behind the lines kept, and before the lines lost
      have hswap : (s.sourceLines ++ List.replicate (droppedBlanks past) [] ++
          (s.enters? line).toList).Perm (r.state.sourceLines ++
            (s.dropped line ++ List.replicate (droppedBlanks past) [])) := by
        rw [← List.append_assoc r.state.sourceLines, ← hstep, List.append_assoc, List.append_assoc]
        exact List.perm_append_comm.append_left _
      exact (hperm.append_right _).trans hswap

/-- **No line is lost or doubled on its way to the program, with one exception.** The lines of the
program and those held back are the lines entered in blocks, exactly if no empty line was handed
over alone. In any case they are among the lines entered, in their order, and for each empty line
that was handed over alone one is missing. -/
theorem sourceLines_eq_entered_iff (h : Fed opts past out s)
    (hlines : ∀ use ∈ past, use.2.IsLine) :
    (s.sourceLines = entered past ↔ ∀ use ∈ past, ¬ use.1.DropsBlank use.2) ∧
      s.sourceLines.Sublist (entered past) ∧
      (entered past).Perm (s.sourceLines ++ List.replicate (droppedBlanks past) []) := by
  obtain ⟨hsub, hperm⟩ := h.entered_perm hlines
  have hlength : (entered past).length = s.sourceLines.length + droppedBlanks past := by
    simpa using hperm.length_eq
  -- a sublist is the whole list exactly if none is missing
  have hnone : droppedBlanks past = 0 ↔ ∀ use ∈ past, ¬ use.1.DropsBlank use.2 := by
    simp [droppedBlanks, List.countP_eq_zero]
  refine ⟨?_, hsub, hperm⟩
  rw [← hnone]
  constructor
  · intro heq
    rw [heq] at hlength
    omega
  · intro hzero
    exact hsub.eq_of_length (by omega)

/-- A block of a single empty line is opened, entered and closed. -/
def blankBlock : List (Shell × Text) :=
  [(around .initial, utf8 "set code"),
    (⟨{ Machine.initial with loading := true }, #[], true⟩, []),
    (⟨{ Machine.initial with loading := true }, #[[]], true⟩, utf8 "end set code")]

theorem fed_blankBlock : Fed {} blankBlock [] (around .initial) := by
  have hopen : (around .initial).feed {} 0 (utf8 "set code") =
      some (.pure ⟨{ Machine.initial with loading := true }, #[], true⟩ ()) := rfl
  have henter : feed {} 0 ⟨{ Machine.initial with loading := true }, #[], true⟩ [] =
      some (.pure ⟨{ Machine.initial with loading := true }, #[[]], true⟩ ()) := rfl
  have hclose : feed {} 0 ⟨{ Machine.initial with loading := true }, #[[]], true⟩
      (utf8 "end set code") =
        some ⟨around .initial, [.note (.blockSubmitted 1)], .ok ()⟩ := rfl
  exact ((Fed.fresh.feed hopen rfl).feed henter rfl).feed hclose rfl

/-- The empty line of that block was entered, and it is in none of the two places. -/
theorem sourceLines_behind_blankBlock :
    Fed {} blankBlock [] (around .initial) ∧ (∀ use ∈ blankBlock, use.2.IsLine) ∧
      (around .initial).sourceLines = [] ∧ entered blankBlock = [[]] ∧
      (¬ ∀ use ∈ blankBlock, ¬ use.1.DropsBlank use.2) ∧ droppedBlanks blankBlock = 1 := by
  have hlines : ∀ use ∈ blankBlock, use.2.IsLine := by decide
  have hkept : (around .initial).sourceLines ≠ entered blankBlock := by decide
  have hiff := (sourceLines_eq_entered_iff fed_blankBlock hlines).1
  exact ⟨fed_blankBlock, hlines, rfl, by decide, mt hiff.mpr hkept, by decide⟩

end Shell

end LineScript

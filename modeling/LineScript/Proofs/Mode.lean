import LineScript.Proofs.ShellUse
import Mathlib.Tactic.ByContra

/-!
# Two copies of the mode

A shell knows whether a block is being entered, and its machine knows whether texts are lines of
a program. The commands that open and close a block change both. The end of a script inside a
block changes the shell only, and leaves a machine that goes on taking texts as lines of a
program. This is the only way in which the two come apart.

## Main definitions

* `Shell.Agrees`: shell and machine are in the same mode
* `Shell.Coherent`: what holds of every shell in use, whether the modes agree or not
* `Shell.EndsInBlock`, `Shell.LeavesBlockOpen`: a script is read to its end inside a block

## Main results

* `Shell.feed_keeps`, `Shell.converse_keeps`: lines and sessions keep the agreement
* `Shell.runScript_agrees_iff`: a script keeps it unless it ends inside a block
* `Shell.modes_agree_iff`: the modes agree along a trace exactly if no script ends like that
-/

namespace LineScript

/-! ## Submissions and the mode -/

/-- The wording of a mode command is a single line. -/
theorem ModeCommand.newline_not_mem_wording (c : ModeCommand) : Text.newline ∉ c.wording := by
  cases c <;> decide

/-- Lines that are no mode commands do not form one together. -/
theorem ModeCommand.ofText?_joinLines {lines : List Text} (hne : lines ≠ [])
    (h : ∀ line ∈ lines, ModeCommand.ofText? line = none) :
    ModeCommand.ofText? (Text.joinLines lines) = none := by
  cases lines with
  | nil => exact absurd rfl hne
  | cons line lines =>
    by_cases hlines : lines = []
    · subst hlines
      exact h line List.mem_cons_self
    · -- the text of several lines holds a newline
      rw [Text.joinLines_cons hlines]
      cases hc : ModeCommand.ofText? (line ++ Text.newline :: Text.joinLines lines) with
      | none => rfl
      | some c =>
        refine absurd ?_ c.newline_not_mem_wording
        rw [← ModeCommand.eq_wording_of_ofText? hc]
        simp

namespace Machine

variable {opts : Options} {fuel : Nat} {m : Machine} {text : Text} {r : Reply Machine Unit}

/-- Only mode commands change the mode. -/
theorem submit_loading (hc : ModeCommand.ofText? text = none)
    (h : m.submit opts fuel text = some r) : r.state.loading = m.loading := by
  cases submits_of_submit h with
  | nothing => rfl
  | opened => simp at hc
  | closed => simp at hc
  | ran => simp at hc
  | loaded =>
    rcases m.load_cases opts (blockLines text) with ⟨fault, h⟩ | ⟨p, note, -, h⟩
    · rw [h]
      rfl
    · rw [h]
  | refused => rfl
  | updated => rfl
  | called _ _ _ hf h => exact loading_eq_of_code (callNow_code hf h)

end Machine

namespace Shell

variable {opts : Options} {fuel : Nat} {colored : Bool} {s t u : Shell} {r : Reply Shell Unit}

/-! ## Agreement -/

/-- Shell and machine are in the same mode. -/
def Agrees (s : Shell) : Prop := s.collecting = s.machine.loading

/-- What holds of every shell in use: lines are held back only while a block is being entered,
the machine is loading then, and none of the lines held back is a mode command. -/
structure Coherent (s : Shell) : Prop where
  loading : s.collecting = true → s.machine.loading = true
  collecting : s.pending ≠ #[] → s.collecting = true
  texts : ∀ line ∈ s.pending, ModeCommand.ofText? line = none

/-- Without lines held back, only the modes matter. -/
theorem coherent_of_empty {machine : Machine} {collecting : Bool}
    (h : collecting = true → machine.loading = true) :
    Coherent ⟨machine, #[], collecting⟩ where
  loading := h
  collecting hne := absurd rfl hne
  texts line hline := absurd hline (Array.not_mem_empty line)

/-- A use of a shell leaves it coherent, and in agreement with its machine if it was. -/
structure Keeps (s t : Shell) : Prop where
  coherent : t.Coherent
  agrees : s.Agrees → t.Agrees

theorem Keeps.refl (hs : s.Coherent) : s.Keeps s := ⟨hs, id⟩

theorem Keeps.trans (h : s.Keeps t) (h' : t.Keeps u) : s.Keeps u :=
  ⟨h'.coherent, fun ha => h'.agrees (h.agrees ha)⟩

theorem keeps_of_empty {machine : Machine} (hs : s.Coherent)
    (h : machine.loading = s.machine.loading) : s.Keeps ⟨machine, #[], s.collecting⟩ :=
  ⟨coherent_of_empty fun hc => h.trans (hs.loading hc), fun ha => ha.trans h.symm⟩

theorem submit_keeps {text : Text} (hs : s.Coherent) (hc : ModeCommand.ofText? text = none)
    (h : s.submit opts fuel text = some r) : s.Keeps r.state := by
  obtain ⟨r', hr', rfl⟩ := Option.map_eq_some_iff.mp h
  have hloading := Machine.submit_loading hc hr'
  exact ⟨⟨fun hc => hloading.trans (hs.loading hc), hs.collecting, hs.texts⟩,
    fun ha => ha.trans hloading.symm⟩

/-! ## Handing over a block -/

/-- A block that is handed over changes the mode of neither side, since its lines are no mode
commands. -/
theorem flush_state (hs : s.Coherent) (h : s.flush opts fuel = some r) :
    ∃ machine, r.state = ⟨machine, #[], s.collecting⟩ ∧
      machine.loading = s.machine.loading := by
  unfold flush at h
  split at h
  · next hnone =>
    cases h
    refine ⟨s.machine, ?_, rfl⟩
    rw [← Array.isEmpty_iff.mp hnone]
    rfl
  · next hsome =>
    obtain ⟨r₁, hr₁, rfl⟩ := Option.map_eq_some_iff.mp h
    obtain ⟨r₂, hr₂, rfl⟩ := Option.map_eq_some_iff.mp hr₁
    refine ⟨r₂.state, rfl, Machine.submit_loading ?_ hr₂⟩
    refine ModeCommand.ofText?_joinLines ?_ fun line hline => ?_
    · simpa [Array.isEmpty_iff] using hsome
    · exact hs.texts line (Array.mem_toList_iff.mp hline)

/-! ## Lines -/

theorem submit_closeCode (opts : Options) (fuel : Nat) (s : Shell) :
    s.submit opts fuel ModeCommand.closeCode.wording =
      some (.pure { s with machine := { s.machine with loading := false } } ()) := rfl

/-- Whether the block was refused or not, the command that closes it is carried out. -/
theorem closeCode_state (hs : s.Coherent) (h : s.command opts fuel .closeCode = some r) :
    ∃ machine : Machine, r.state = ⟨{ machine with loading := false }, #[], false⟩ := by
  obtain ⟨flushed, hflushed, h⟩ := Option.bind_eq_some_iff.mp h
  obtain ⟨machine, hflush, -⟩ := flush_state hs hflushed
  refine ⟨machine, ?_⟩
  rw [submit_closeCode, Option.bind_eq_bind, Option.bind_some, hflush] at h
  split at h <;> cases h <;> rfl

/-- A block that is run is handed over first. -/
theorem run_state (hs : s.Coherent) (h : s.command opts fuel .run = some r) :
    ∃ machine, r.state = ⟨machine, #[], s.collecting⟩ ∧
      machine.loading = s.machine.loading := by
  obtain ⟨flushed, hflushed, h⟩ := Option.bind_eq_some_iff.mp h
  obtain ⟨machine, hflush, hloading⟩ := flush_state hs hflushed
  split at h
  · cases h
    exact ⟨machine, hflush, hloading⟩
  · rw [hflush] at h
    obtain ⟨r₁, hr₁, rfl⟩ := Option.map_eq_some_iff.mp h
    obtain ⟨r₂, hr₂, rfl⟩ := Option.map_eq_some_iff.mp hr₁
    exact ⟨r₂.state, rfl, (Machine.loading_eq_of_code (Machine.run_code hr₂)).trans hloading⟩

/-- **Mode commands keep the agreement**, and two of them restore it. -/
theorem command_keeps {c : ModeCommand} (hs : s.Coherent) (h : s.command opts fuel c = some r) :
    s.Keeps r.state := by
  cases c with
  | openCode =>
    cases h
    exact ⟨⟨fun _ => rfl, fun _ => rfl, hs.texts⟩, fun _ => rfl⟩
  | closeCode =>
    obtain ⟨machine, hstate⟩ := closeCode_state hs h
    rw [hstate]
    exact ⟨coherent_of_empty fun hc => (by cases hc), fun _ => rfl⟩
  | run =>
    obtain ⟨machine, hstate, hloading⟩ := run_state hs h
    rw [hstate]
    exact keeps_of_empty hs hloading

/-- **A line keeps the agreement.** -/
theorem feed_keeps {line : Text} (hs : s.Coherent) (h : s.feed opts fuel line = some r) :
    s.Keeps r.state := by
  cases hc : ModeCommand.ofText? line.chomp with
  | some c =>
    rw [feed_of_command hc] at h
    exact command_keeps hs h
  | none =>
    cases hcollecting : s.collecting with
    | true =>
      rw [feed_of_collecting hc hcollecting] at h
      cases h
      refine ⟨⟨hs.loading, fun _ => hcollecting, fun text htext => ?_⟩, id⟩
      rcases Array.mem_push.mp htext with htext | rfl
      · exact hs.texts text htext
      · exact hc
    | false =>
      rw [feed_of_text hc hcollecting] at h
      exact submit_keeps hs hc h

/-- Lines keep the agreement, whether one of them fails or not. -/
theorem feedAll_keeps {number : Nat} {lines : List Text} (hs : s.Coherent)
    (h : feedAll opts fuel number lines s = some r) : s.Keeps r.state := by
  induction lines generalizing number s r with
  | nil =>
    cases h
    exact .refl hs
  | cons line lines ih =>
    obtain ⟨fed, hfed, h⟩ := Option.bind_eq_some_iff.mp h
    have hkeeps := feed_keeps hs hfed
    split at h
    · cases h
      exact hkeeps
    · obtain ⟨r', hr', rfl⟩ := Option.map_eq_some_iff.mp h
      have hrest := ih hkeeps.coherent hr'
      exact hkeeps.trans hrest

/-! ## Scripts -/

/-- A script is read to its end, without a failure, and the end is inside a block. -/
def EndsInBlock (opts : Options) (s : Shell) (script : Script) : Prop :=
  ∃ fuel r, feedAll opts fuel 1 script.lines s = some r ∧ r.result = .ok () ∧
    script.fault = none ∧ r.state.collecting = true

/-- At the end of a script inside a block, the modes come apart. -/
theorem endScript_state (hs : s.Coherent) (h : s.endScript opts fuel = some r) :
    s.collecting = false ∧ r.state = s ∨
      s.collecting = true ∧
        ∃ machine, r.state = ⟨machine, #[], false⟩ ∧ machine.loading = true := by
  unfold endScript at h
  split at h
  · next hcollecting =>
    obtain ⟨flushed, hflushed, rfl⟩ := Option.map_eq_some_iff.mp h
    obtain ⟨machine, hflush, hloading⟩ := flush_state hs hflushed
    refine Or.inr ⟨hcollecting, machine, ?_, hloading.trans (hs.loading hcollecting)⟩
    simp [hflush]
  · next hcollecting =>
    cases h
    exact Or.inl ⟨Bool.eq_false_iff.mpr hcollecting, rfl⟩

/-- A script that does not come to its end leaves what its lines have left. One that does is
followed by the end of the script. -/
theorem runScript_cases {script : Script} (h : s.runScript opts fuel script = some r) :
    ∃ fed, feedAll opts fuel 1 script.lines s = some fed ∧
      ((fed.result ≠ .ok () ∨ script.fault ≠ none) ∧ r.state = fed.state ∨
        fed.result = .ok () ∧ script.fault = none ∧
          ∃ ended, fed.state.endScript opts fuel = some ended ∧ r.state = ended.state) := by
  obtain ⟨fed, hfed, h⟩ := Option.bind_eq_some_iff.mp h
  refine ⟨fed, hfed, ?_⟩
  split at h
  · next hfailed =>
    cases h
    exact Or.inl ⟨Or.inl (by simp [hfailed]), rfl⟩
  · next hok =>
    split at h
    · next hfault =>
      cases h
      exact Or.inl ⟨Or.inr (by simp [hfault]), rfl⟩
    · next hfault =>
      obtain ⟨ended, hended, rfl⟩ := Option.map_eq_some_iff.mp h
      exact Or.inr ⟨hok, hfault, ended, hended, rfl⟩

/-- **A script keeps the agreement unless it ends inside a block.** -/
theorem runScript_agrees_iff {script : Script} (hs : s.Coherent)
    (h : s.runScript opts fuel script = some r) :
    r.state.Coherent ∧ (s.Agrees → (r.state.Agrees ↔ ¬ s.EndsInBlock opts script)) := by
  obtain ⟨fed, hfed, hend⟩ := runScript_cases h
  have hkeeps := feedAll_keeps hs hfed
  -- the lines are fed in one way only, so it is this reply that decides
  have hiff : s.EndsInBlock opts script ↔
      fed.result = .ok () ∧ script.fault = none ∧ fed.state.collecting = true := by
    constructor
    · rintro ⟨fuel', fed', hfed', hends⟩
      rwa [feedAll_unique hfed hfed']
    · intro hends
      exact ⟨fuel, fed, hfed, hends⟩
  rw [hiff]
  rcases hend with ⟨hearly, hstate⟩ | ⟨hok, hfault, ended, hended, hstate⟩
  · -- the end of the script was not reached
    rw [hstate]
    refine ⟨hkeeps.coherent, fun ha => ⟨fun _ hends => ?_, fun _ => hkeeps.agrees ha⟩⟩
    rcases hearly with hfailed | hfault
    · exact hfailed hends.1
    · exact hfault hends.2.1
  · rcases endScript_state hkeeps.coherent hended with
      ⟨hclosed, hsame⟩ | ⟨hopen, machine, happart, hloading⟩
    · -- it was reached outside a block
      rw [hstate, hsame]
      refine ⟨hkeeps.coherent, fun ha => ⟨fun _ hends => ?_, fun _ => hkeeps.agrees ha⟩⟩
      rw [hends.2.2] at hclosed
      cases hclosed
    · -- it was reached inside a block, and the machine has not been told
      rw [hstate, happart]
      refine ⟨coherent_of_empty fun hc => (by cases hc), fun _ => ⟨fun ha => ?_, fun hends => ?_⟩⟩
      · rw [Agrees, hloading] at ha
        cases ha
      · exact absurd ⟨hok, hfault, hopen⟩ hends

/-! ## Sessions -/

/-- An answer at a prompt keeps the agreement. -/
theorem respond_keeps {answer : Answer} {r : Reply Shell Bool} (hs : s.Coherent)
    (h : s.respond opts fuel colored answer = some r) : s.Keeps r.state := by
  cases answer with
  | line text =>
    simp only [respond] at h
    split at h
    · cases h
      exact .refl hs
    · obtain ⟨fed, hfed, rfl⟩ := Option.map_eq_some_iff.mp h
      have hkeeps := feed_keeps hs hfed
      split <;> exact hkeeps
  | abandon =>
    simp only [respond] at h
    split at h
    · cases h
      exact keeps_of_empty hs rfl
    · cases h
      exact .refl hs
  | stop =>
    cases h
    exact .refl hs
  | failure message =>
    cases h
    exact .refl hs

/-- **A session keeps the agreement**, however it ends. -/
theorem converse_keeps {answers : List Answer} {c : Conversation} (hs : s.Coherent)
    (h : converse opts fuel colored answers s = some c) : s.Keeps c.reply.state := by
  induction answers generalizing s c with
  | nil =>
    cases h
    exact .refl hs
  | cons answer answers ih =>
    rw [converse_cons] at h
    obtain ⟨r, hr, h⟩ := Option.bind_eq_some_iff.mp h
    have hkeeps := respond_keeps hs hr
    split at h
    · cases h
      exact hkeeps
    · cases h
      exact hkeeps
    · obtain ⟨c', hc', rfl⟩ := Option.map_eq_some_iff.mp h
      have hrest := ih hkeeps.coherent hc'
      exact hkeeps.trans hrest

/-! ## Traces -/

/-- A use reads a script to its end, and the end is inside a block. -/
def LeavesBlockOpen (opts : Options) (s : Shell) : Call → Prop
  | .script script => s.EndsInBlock opts script
  | .file _ (.content text) => s.EndsInBlock opts (.ofText text)
  | _ => False

/-- A use keeps the agreement unless it leaves a block open. -/
theorem handle_agrees_iff {call : Call} (hs : s.Coherent)
    (h : s.handle opts fuel colored call = some r) :
    r.state.Coherent ∧ (s.Agrees → (r.state.Agrees ↔ ¬ s.LeavesBlockOpen opts call)) := by
  have hiff : s.Keeps r.state →
      r.state.Coherent ∧ (s.Agrees → (r.state.Agrees ↔ ¬ False)) := fun hkeeps =>
    ⟨hkeeps.coherent, fun ha => iff_of_true (hkeeps.agrees ha) not_false⟩
  cases call with
  | feed line => exact hiff (feed_keeps hs h)
  | script script => exact runScript_agrees_iff hs h
  | session answers =>
    obtain ⟨c, hc, rfl⟩ := Option.map_eq_some_iff.mp h
    exact hiff (converse_keeps hs hc)
  | file path resource =>
    obtain ⟨r', hr', rfl⟩ := Option.map_eq_some_iff.mp h
    cases resource with
    | missing =>
      cases hr'
      exact hiff (.refl hs)
    | directory =>
      -- nothing is read, so the end of the script is not reached
      obtain ⟨fed, hfed, ⟨-, hstate⟩ | ⟨-, hfault, -⟩⟩ := runScript_cases hr'
      · refine hiff ?_
        rw [Reply.after_state, hstate]
        exact feedAll_keeps hs hfed
      · cases hfault
    | content text =>
      have hscript := runScript_agrees_iff hs hr'
      exact hscript

/-- Every shell of a trace is coherent. -/
theorem Trace.coherent {past : List (Shell × Call)} (h : Trace opts colored past s) :
    ∀ t ∈ s :: past.map Prod.fst, t.Coherent := by
  induction h with
  | fresh =>
    intro t ht
    rw [List.mem_singleton.mp ht]
    exact coherent_of_empty fun hc => (by cases hc)
  | @call past s call r _ hr ih =>
    obtain ⟨fuel, hr⟩ := hr
    intro t ht
    rcases List.mem_cons.mp ht with rfl | ht
    · exact (handle_agrees_iff (ih s List.mem_cons_self) hr).1
    · exact ih t ht

/-- **The modes of shell and machine agree along a trace exactly if no script was read to its
end inside a block.** Whether they agree or not, lines are held back only while a block is being
entered, and the machine is loading then. -/
theorem modes_agree_iff {past : List (Shell × Call)} (h : Trace opts colored past s) :
    ((∀ t ∈ s :: past.map Prod.fst, t.collecting = t.machine.loading) ↔
      ∀ use ∈ past, ¬ use.1.LeavesBlockOpen opts use.2) ∧
    ∀ t ∈ s :: past.map Prod.fst, (t.pending ≠ #[] → t.collecting = true) ∧
      (t.collecting = true → t.machine.loading = true) := by
  refine ⟨?_, fun t ht => ?_⟩
  · -- as long as all shells of the past agree, the latest use decides about the next one
    induction h with
    | fresh => simp [around, Machine.initial]
    | @call past s call r h hr ih =>
      obtain ⟨fuel, hr⟩ := hr
      have hcall := (handle_agrees_iff (h.coherent s List.mem_cons_self) hr).2
      constructor
      · intro hall use huse
        have hpast := ih.mp fun t ht => hall t (List.mem_cons_of_mem _ ht)
        rcases List.mem_cons.mp huse with rfl | huse
        · exact (hcall (hall s (by simp))).mp (hall r.state List.mem_cons_self)
        · exact hpast use huse
      · intro hclosed t ht
        have hpast := ih.mpr fun use huse => hclosed use (List.mem_cons_of_mem _ huse)
        rcases List.mem_cons.mp ht with rfl | ht
        · exact (hcall (hpast s List.mem_cons_self)).mpr (hclosed _ List.mem_cons_self)
        · exact hpast t ht
  · have hcoherent := h.coherent t ht
    exact ⟨hcoherent.collecting, hcoherent.loading⟩

/-- A script of two lines that opens a block and ends inside it. -/
def openScript : Script := .ofText (utf8 "set code\nset a 1")

/-- Behind a script that ends inside a block, the machine is loading and the shell is not. -/
theorem modes_apart_behind_openScript :
    ∃ past s, Trace {} false past s ∧ s.collecting = false ∧ s.machine.loading = true ∧
      ∃ use ∈ past, use.1.LeavesBlockOpen {} use.2 := by
  obtain ⟨r, hr, hcollecting, hloading⟩ : ∃ r,
      (around .initial).handle {} 0 false (.script openScript) = some r ∧
        r.state.collecting = false ∧ r.state.machine.loading = true := ⟨_, rfl, rfl, rfl⟩
  have h := Trace.fresh.call ⟨0, hr⟩
  refine ⟨_, _, h, hcollecting, hloading, ?_⟩
  by_contra hnone
  have hagrees := (modes_agree_iff h).1.mpr (fun use huse hopen => hnone ⟨use, huse, hopen⟩) r.state
    List.mem_cons_self
  rw [hcollecting, hloading] at hagrees
  cases hagrees

end Shell

end LineScript

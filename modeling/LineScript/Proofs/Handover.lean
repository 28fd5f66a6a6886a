import LineScript.Proofs.Loading
import LineScript.Proofs.Mode
import Mathlib.Data.List.TakeDrop
import Mathlib.Data.List.TakeWhile

/-!
# Handing over a block

The lines of a block travel from the shell to the machine as one text. They are joined by newlines
on one side and split again on the other, so the machine loads the lines that were held back, with
one exception: the text of a block of a single empty line is empty, and a machine does nothing with
an empty text.

## Main definitions

* `Text.IsLine`: a text without line ends

## Main results

* `Text.splitLines_joinLines`: splitting joined lines gives them back
* `Script.ofText_of_short`: a script of short lines is read whole
* `Machine.submit_block`: a text of joined lines is loaded as these lines
* `Shell.flush_of_block`, `Shell.flush_of_blank`: what a block that is handed over does
-/

namespace LineScript

/-! ## Lines and texts -/

namespace Text

/-- A text that is a single line: it holds no byte of a line end. -/
def IsLine (t : Text) : Prop := newline ∉ t ∧ carriageReturn ∉ t

instance (t : Text) : Decidable t.IsLine := inferInstanceAs (Decidable (_ ∧ _))

variable {t line : Text} {lines : List Text}

theorem IsLine.chomp_eq (h : t.IsLine) : t.chomp = t := by
  apply chomp_of_getLast?_ne
  intro hlast
  exact h.2 (List.mem_of_getLast? hlast)

theorem splitLines_of_not_mem (h : newline ∉ line) : splitLines line = [line] := by
  induction line with
  | nil => rfl
  | cons b line ih =>
    obtain ⟨hb, hline⟩ := not_or.mp (mt List.mem_cons.mpr h)
    rw [splitLines_cons (Ne.symm hb), ih hline]
    rfl

theorem splitLines_append_newline (h : newline ∉ line) (t : Text) :
    splitLines (line ++ newline :: t) = line :: splitLines t := by
  induction line with
  | nil => exact splitLines_newline t
  | cons b line ih =>
    obtain ⟨hb, hline⟩ := not_or.mp (mt List.mem_cons.mpr h)
    rw [List.cons_append, splitLines_cons (Ne.symm hb), ih hline]
    rfl

/-- **Splitting joined lines gives them back**, if there are any. -/
theorem splitLines_joinLines (hne : lines ≠ []) (h : ∀ line ∈ lines, newline ∉ line) :
    splitLines (joinLines lines) = lines := by
  induction lines with
  | nil => exact absurd rfl hne
  | cons line lines ih =>
    obtain ⟨hline, hlines⟩ := List.forall_mem_cons.mp h
    by_cases hlast : lines = []
    · subst hlast
      exact splitLines_of_not_mem hline
    · rw [joinLines_cons hlast, splitLines_append_newline hline, ih hlast hlines]

/-- Only no lines at all, or one empty line, make an empty text. -/
theorem joinLines_ne_nil (hne : lines ≠ []) (hblank : lines ≠ [[]]) : joinLines lines ≠ [] := by
  cases lines with
  | nil => exact absurd rfl hne
  | cons line lines =>
    by_cases hlast : lines = []
    · subst hlast
      intro hnil
      exact hblank (congrArg (fun line => [line]) hnil)
    · rw [joinLines_cons hlast]
      exact List.append_ne_nil_of_right_ne_nil line (List.cons_ne_nil _ _)

end Text

/-- A script of short lines is read whole. -/
theorem Script.ofText_of_short {t : Text} (h : ∀ piece ∈ pieces t, piece.length < lineLimit) :
    ofText t = ⟨(pieces t).map Text.chomp, none⟩ := by
  have hshort : ∀ piece ∈ pieces t, decide (piece.length < lineLimit) = true :=
    fun piece hpiece => decide_eq_true (h piece hpiece)
  have hspan :
      (pieces t).span (fun piece => decide (piece.length < lineLimit)) = (pieces t, []) := by
    rw [List.span_eq_takeWhile_dropWhile, List.takeWhile_eq_self_iff.mpr hshort,
      List.dropWhile_eq_nil_iff.mpr hshort]
  rw [ofText, hspan]
  rfl

namespace Machine

variable {opts : Options} {fuel : Nat} {m : Machine} {lines : List Text}

theorem blockLines_joinLines (hne : lines ≠ []) (h : ∀ line ∈ lines, line.IsLine) :
    blockLines (Text.joinLines lines) = lines := by
  have hsplit := Text.splitLines_joinLines hne fun line hline => (h line hline).1
  have hchomp : lines.map Text.chomp = lines.map id :=
    List.map_congr_left fun line hline => (h line hline).chomp_eq
  rw [blockLines, hsplit, hchomp, List.map_id]

/-- **A text of joined lines is loaded as these lines.** -/
theorem submit_block (hne : lines ≠ []) (hblank : lines ≠ [[]])
    (h : ∀ line ∈ lines, line.IsLine ∧ ModeCommand.ofText? line = none) (hl : m.loading = true) :
    m.submit opts fuel (Text.joinLines lines) = some (m.load opts lines) := by
  have hnil : ¬ (Text.joinLines lines).isEmpty = true := by
    rw [List.isEmpty_iff]
    exact Text.joinLines_ne_nil hne hblank
  -- several lines hold a newline, so they cannot form a command either
  have hc := ModeCommand.ofText?_joinLines hne fun line hline => (h line hline).2
  unfold submit
  rw [if_neg hnil, hc, hl]
  exact congrArg (fun block => some (m.load opts block))
    (blockLines_joinLines hne fun line hline => (h line hline).1)

/-- A line that is no mode command is loaded as a block of its own. -/
theorem submit_line {line : Text} (hne : line ≠ []) (hline : line.IsLine)
    (hc : ModeCommand.ofText? line = none) (hl : m.loading = true) :
    m.submit opts fuel line = some (m.load opts [line]) := by
  have hblock : m.submit opts fuel (Text.joinLines [line]) = some (m.load opts [line]) :=
    submit_block (List.cons_ne_nil _ _) (by simpa using hne) (by simpa using ⟨hline, hc⟩) hl
  exact hblock

end Machine

/-! ## Blocks -/

namespace Shell

variable {opts : Options} {fuel : Nat} {s : Shell}

theorem flush_of_empty (h : s.pending = #[]) : s.flush opts fuel = some (.pure s ()) := by
  rw [flush, if_pos (by simp [h])]

/-- A block of a single empty line is gone: the machine does nothing with an empty text. -/
theorem flush_of_blank (h : s.pending = #[[]]) :
    s.flush opts fuel =
      some ((Reply.pure s.discard ()).after [.note (.blockSubmitted s.pending.size)]) := by
  rw [flush, if_neg (by simp [h]), h]
  rfl

/-- **Any other block is loaded**, line by line as it was held back. -/
theorem flush_of_block (hs : s.Coherent) (hlines : ∀ line ∈ s.pending, line.IsLine)
    (hne : s.pending ≠ #[]) (hblank : s.pending ≠ #[[]]) :
    s.flush opts fuel =
      some (((s.machine.load opts s.pending.toList).mapState fun machine =>
        { s.discard with machine := machine }).after
          [.note (.blockSubmitted s.pending.size)]) := by
  have hloading : s.machine.loading = true := hs.loading (hs.collecting hne)
  have hsubmit : s.machine.submit opts fuel (Text.joinLines s.pending.toList) =
      some (s.machine.load opts s.pending.toList) := by
    refine Machine.submit_block ?_ ?_ (fun line hline => ?_) hloading
    · exact fun hnil => hne (Array.toList_eq_nil_iff.mp hnil)
    · exact fun hnil => hblank (Array.ext' hnil)
    · have hmem := Array.mem_toList_iff.mp hline
      exact ⟨hlines line hmem, hs.texts line hmem⟩
  have hsome : ¬ s.pending.isEmpty = true := by simpa [Array.isEmpty_iff] using hne
  rw [flush, if_neg hsome, submit]
  change Option.map _ (Option.map _ (s.machine.submit opts fuel _)) = _
  rw [hsubmit]
  rfl

end Shell

end LineScript

import LineScript.Proofs.Handover

/-!
# Line endings

A line may end in LF or in CR LF. Two readers take a text apart into lines, that of scripts and that
of blocks, and each of them drops a carriage return from the end of a line. So a text whose newlines
get a carriage return each, and which had none before, is read as the same lines. Nothing else looks
at a carriage return: mode commands are recognised in lines that have lost it, and a block that
holds a newline is none.

## Main definitions

* `Text.crlf`: a text with CR LF endings

## Main results

* `Text.splitLines_crlf`: the lines of a text with CR LF endings
* `Script.ofText_crlf`: the endings make no difference to a script
* `Machine.blockLines_crlf`: the lines of a block whose endings are CR LF
* `Shell.crlf_makes_no_difference`: scripts and blocks do the same with either ending
-/

namespace LineScript

/-! ## The lines of a text -/

namespace Text

variable {t line last : Text} {lines : List Text}

/-- The text in which a carriage return stands before every newline. -/
def crlf (t : Text) : Text :=
  t.flatMap fun b => if b = newline then [carriageReturn, newline] else [b]

theorem crlf_append (t u : Text) : crlf (t ++ u) = crlf t ++ crlf u :=
  List.flatMap_append

theorem crlf_of_not_mem (h : newline ∉ t) : t.crlf = t := by
  induction t with
  | nil => rfl
  | cons b t ih =>
    obtain ⟨hb, ht⟩ := not_or.mp (mt List.mem_cons.mpr h)
    rw [crlf, List.flatMap_cons, if_neg (Ne.symm hb)]
    exact congrArg (b :: ·) (ih ht)

/-- The bytes of a line are bytes of the text, and none of them is a newline. -/
theorem mem_of_mem_splitLines {b : UInt8} (h : line ∈ t.splitLines) (hb : b ∈ line) :
    b ∈ t ∧ b ≠ newline := by
  induction t generalizing line with
  | nil =>
    rw [List.mem_singleton.mp h] at hb
    cases hb
  | cons a t ih =>
    by_cases ha : a = newline
    · rw [ha, splitLines_newline] at h
      rcases List.mem_cons.mp h with rfl | h
      · cases hb
      · exact (ih h hb).imp_left (List.mem_cons_of_mem a)
    · rw [splitLines_cons ha] at h
      obtain ⟨first, rest, hsplit⟩ := List.exists_cons_of_ne_nil (splitLines_ne_nil t)
      rw [hsplit] at h ih
      rcases List.mem_cons.mp h with rfl | h
      · rcases List.mem_cons.mp hb with rfl | hb
        · exact ⟨List.mem_cons_self, ha⟩
        · exact (ih List.mem_cons_self hb).imp_left (List.mem_cons_of_mem a)
      · exact (ih (List.mem_cons_of_mem first h) hb).imp_left (List.mem_cons_of_mem a)

theorem newline_not_mem_of_mem_splitLines (h : line ∈ t.splitLines) : newline ∉ line :=
  fun hmem => (mem_of_mem_splitLines h hmem).2 rfl

/-- Only the last line of a text is not ended by a newline. -/
theorem exists_splitLines (t : Text) : ∃ lines last, t.splitLines = lines ++ [last] :=
  ⟨_, _, (List.dropLast_concat_getLast (splitLines_ne_nil t)).symm⟩

theorem crlf_joinLines (hlines : ∀ line ∈ lines, newline ∉ line) (hlast : newline ∉ last) :
    crlf (joinLines (lines ++ [last])) =
      joinLines (lines.map (· ++ [carriageReturn]) ++ [last]) := by
  induction lines with
  | nil => exact crlf_of_not_mem hlast
  | cons line lines ih =>
    obtain ⟨hline, hlines⟩ := List.forall_mem_cons.mp hlines
    rw [List.cons_append, joinLines_cons (by simp), crlf_append, crlf_of_not_mem hline,
      List.map_cons, List.cons_append, joinLines_cons (by simp), ← ih hlines, List.append_assoc]
    rfl

/-- **The lines of a text with CR LF endings** have a carriage return each, apart from the last. -/
theorem splitLines_crlf (h : t.splitLines = lines ++ [last]) :
    t.crlf.splitLines = lines.map (· ++ [carriageReturn]) ++ [last] := by
  have hnewline : ∀ line ∈ lines ++ [last], newline ∉ line := by
    rw [← h]
    exact fun line => newline_not_mem_of_mem_splitLines
  obtain ⟨hlines, hlast⟩ := List.forall_mem_append.mp hnewline
  have hlast := hlast last List.mem_cons_self
  have ht : t = joinLines (lines ++ [last]) := by rw [← h, joinLines_splitLines]
  rw [ht, crlf_joinLines hlines hlast]
  refine splitLines_joinLines (by simp) fun line hline => ?_
  rcases List.mem_append.mp hline with hline | hline
  · obtain ⟨line, hmem, rfl⟩ := List.mem_map.mp hline
    have hcr : newline ∉ [carriageReturn] := by decide
    simp [hlines line hmem, hcr]
  · rwa [List.mem_singleton.mp hline]

/-- The lines of a text without carriage returns have none to lose. -/
theorem map_chomp_of_splitLines (hcr : carriageReturn ∉ t) (h : t.splitLines = lines ++ [last]) :
    lines.map chomp = lines := by
  conv_rhs => rw [← List.map_id lines]
  refine List.map_congr_left fun line hline => chomp_of_getLast?_ne fun hend => hcr ?_
  have hmem : line ∈ t.splitLines := by
    rw [h]
    exact List.mem_append_left _ hline
  exact (mem_of_mem_splitLines hmem (List.mem_of_getLast? hend)).1

/-- A carriage return that was put to the end of each line is dropped again. -/
theorem map_chomp_returned (lines : List Text) :
    (lines.map (· ++ [carriageReturn])).map chomp = lines := by
  rw [List.map_map]
  conv_rhs => rw [← List.map_id lines]
  exact List.map_congr_left fun line _ => chomp_append_carriageReturn line

end Text

/-! ## Scripts -/

namespace Script

variable {t last : Text} {lines : List Text}

/-- An empty last line is no line of a script. -/
theorem pieces_of_splitLines (h : t.splitLines = lines ++ [last]) :
    pieces t = lines ++ if last = [] then [] else [last] := by
  rw [pieces, h, List.getLast?_concat, List.dropLast_concat]
  by_cases hlast : last = [] <;> simp [hlast]

/-- **The endings make no difference to a script**, as long as its lines are short enough with a
carriage return. -/
theorem ofText_crlf (hcr : Text.carriageReturn ∉ t)
    (hshort : ∀ line ∈ t.splitLines, line.length + 1 < lineLimit) : ofText t.crlf = ofText t := by
  obtain ⟨lines, last, hsplit⟩ := t.exists_splitLines
  have hpieces := pieces_of_splitLines hsplit
  have hpieces' := pieces_of_splitLines (Text.splitLines_crlf hsplit)
  rw [hsplit] at hshort
  obtain ⟨hlines, hlast⟩ := List.forall_mem_append.mp hshort
  -- the last line may be left out, and is short enough if it is not
  have hend : ∀ piece ∈ (if last = [] then [] else [last]), piece.length < lineLimit := by
    intro piece hpiece
    split at hpiece
    · cases hpiece
    · rw [List.mem_singleton.mp hpiece]
      exact Nat.lt_of_succ_lt (hlast last List.mem_cons_self)
  rw [ofText_of_short, ofText_of_short, hpieces, hpieces', List.map_append, List.map_append,
    Text.map_chomp_returned, Text.map_chomp_of_splitLines hcr hsplit]
  · rw [hpieces, List.forall_mem_append]
    exact ⟨fun line hline => Nat.lt_of_succ_lt (hlines line hline), hend⟩
  · rw [hpieces', List.forall_mem_append, List.forall_mem_map]
    refine ⟨fun line hline => ?_, hend⟩
    rw [List.length_append, List.length_singleton]
    exact hlines line hline

end Script

/-! ## Blocks -/

namespace Machine

variable {opts : Options} {fuel : Nat} {m : Machine} {t last : Text} {lines : List Text}

/-- With CR LF endings, the lines of a block are those that stand before the newlines, whatever they
end in, and the last one without a carriage return. -/
theorem blockLines_crlf (h : t.splitLines = lines ++ [last]) :
    blockLines t.crlf = lines ++ [last.chomp] := by
  rw [blockLines, Text.splitLines_crlf h, List.map_append, Text.map_chomp_returned]
  rfl

/-- A text that holds a newline is a block for a machine that is loading. -/
theorem submit_of_newline (h : Text.newline ∈ t) (hl : m.loading = true) :
    m.submit opts fuel t = some (m.load opts (blockLines t)) := by
  have hne : ¬ t.isEmpty = true := by
    rw [List.isEmpty_iff]
    exact List.ne_nil_of_mem h
  have hc : ModeCommand.ofText? t = none := by
    refine Option.eq_none_iff_forall_ne_some.mpr fun c hc => c.newline_not_mem_wording ?_
    rwa [← ModeCommand.eq_wording_of_ofText? hc]
  rw [submit, if_neg hne, hc]
  exact if_pos hl

end Machine

namespace Shell

/-- **Scripts and blocks do the same with either line ending.** A text without carriage returns has
lines of at most 65534 bytes. As a script it does the same, in every shell, as with CR LF in the
place of each LF: the reply is the same in all its parts. And whatever the length of its lines, if
there is more than one of them, the text does the same with either ending as a block that is
submitted to a machine which is loading. -/
theorem crlf_makes_no_difference (opts : Options) (fuel : Nat) (t : Text)
    (hcr : Text.carriageReturn ∉ t) :
    ((∀ line ∈ t.splitLines, line.length ≤ 65534) → ∀ s : Shell,
      s.runScript opts fuel (.ofText t.crlf) = s.runScript opts fuel (.ofText t)) ∧
    (Text.newline ∈ t → ∀ m : Machine, m.loading = true →
      m.submit opts fuel t.crlf = m.submit opts fuel t) := by
  constructor
  · intro hshort s
    have hlimit : ∀ line ∈ t.splitLines, line.length + 1 < Script.lineLimit := by
      intro line hline
      have hle := hshort line hline
      rw [Script.lineLimit]
      omega
    rw [Script.ofText_crlf hcr hlimit]
  · intro hnewline m hl
    obtain ⟨lines, last, hsplit⟩ := t.exists_splitLines
    -- both texts hold a newline, so neither is empty or a mode command
    have hblock : Machine.blockLines t.crlf = Machine.blockLines t := by
      rw [Machine.blockLines_crlf hsplit, Machine.blockLines, hsplit, List.map_append,
        Text.map_chomp_of_splitLines hcr hsplit]
      rfl
    have hnewline' : Text.newline ∈ t.crlf := by
      refine List.mem_flatMap.mpr ⟨Text.newline, hnewline, ?_⟩
      decide
    rw [Machine.submit_of_newline hnewline' hl, Machine.submit_of_newline hnewline hl, hblock]

/-- A script with an empty line in a block, and without a newline at its end. -/
def unendedScript : Text := utf8 "set code\ndef f\n\n print a\nend set code\nset a 5\nrun"

/-- It runs to the same end, and its lines are loaded alike, with either ending. -/
theorem unendedScript_crlf :
    (∃ r, (around .initial).runScript {} 9 (.ofText unendedScript) = some r ∧
      (around .initial).runScript {} 9 (.ofText unendedScript.crlf) = some r ∧
      Event.outputOf r.events = utf8 "5\n") ∧
    ∃ r, { Machine.initial with loading := true }.submit {} 9 unendedScript = some r ∧
      { Machine.initial with loading := true }.submit {} 9 unendedScript.crlf = some r ∧
      r.state.program.size = 7 := by
  obtain ⟨hscript, hblock⟩ := crlf_makes_no_difference {} 9 unendedScript (by decide)
  have hshort : ∀ line ∈ unendedScript.splitLines, line.length ≤ 65534 := by decide
  obtain ⟨r, hr, hout⟩ : ∃ r, (around .initial).runScript {} 9 (.ofText unendedScript) = some r ∧
      Event.outputOf r.events = utf8 "5\n" := ⟨_, rfl, rfl⟩
  obtain ⟨r', hr', hsize⟩ : ∃ r, { Machine.initial with loading := true }.submit {} 9
      unendedScript = some r ∧ r.state.program.size = 7 := ⟨_, rfl, rfl⟩
  refine ⟨⟨r, hr, ?_, hout⟩, r', hr', ?_, hsize⟩
  · rw [hscript hshort, hr]
  · rw [hblock (by decide) _ rfl, hr']

end Shell

end LineScript

import LineScript.Proofs.Yaml.Scanning
import LineScript.Yaml.Document

/-!
# Mappings with one entry on each line

A block mapping can be written with one entry on each line, a word and a value on the same line. The
lexer finds each entry in three rounds: the word, which may be a key; the colon, which makes it one;
and the value. Between two lines it knows little more than the tokens so far, so what a round does
to the lexer is said once, and a run over all lines is an induction on the entries.

A colon too far behind the start of its key is an error. A reader who waits for it has not gone
beyond the value before the key, and never sees that one.

## Main definitions

* `Text.ofLines`: the text of some lines
* `Yaml.Entry`, `Yaml.Entry.line`, `Yaml.Entry.tokens`: entries, how they are written, and their
  tokens
* `Yaml.Entry.IsSound`: the entries that can be read back
* `Yaml.Lexer.AtLine`: a lexer between two lines

## Main results

* `Yaml.Lexer.AtLine.run_entry`, `Yaml.Lexer.AtLine.run_entries`: what one entry adds, and what
  all of them do
* `Yaml.tokens_sourceOf`: the tokens of a mapping
* `Yaml.tokens_far`: the tokens of a mapping with a key that is too long
-/

namespace LineScript

/-- The text of some lines. A newline follows the last one if `ended`. -/
def Text.ofLines (ended : Bool) (lines : List Text) : Text :=
  joinLines (if ended then lines ++ [[]] else lines)

theorem Text.ofLines_cons (ended : Bool) (line : Text) (lines : List Text) :
    ofLines ended (line :: lines) =
      line ++ if ended || !lines.isEmpty then newline :: ofLines ended lines else [] := by
  cases ended with
  | true =>
    have hne : lines ++ [[]] ≠ [] := List.append_ne_nil_of_right_ne_nil lines (List.cons_ne_nil _ _)
    exact joinLines_cons hne line
  | false =>
    cases lines with
    | nil => exact (List.append_nil line).symm
    | cons line' lines => rfl

namespace Yaml

/-! ## Entries -/

/-- A plain scalar that starts a line can be a key, if it cannot start a marker. -/
structure IsKey (w : List Char) : Prop extends IsPlain w where
  not_marker : w.headD endMark ≠ '-' ∧ w.headD endMark ≠ '.'

/-- An entry of a mapping that is written on one line. -/
structure Entry where
  key : Text
  /-- Is the value written as a plain scalar? If not, it stands between double quotes. -/
  plain : Bool
  value : Text

namespace Entry

/-- How the value of an entry is written. -/
def written (e : Entry) : Text := if e.plain then e.value else utf8 "\"" ++ e.value ++ utf8 "\""

/-- The line of an entry. -/
def line (e : Entry) : Text := e.key ++ utf8 ": " ++ e.written

/-- The tokens of an entry on the given line. -/
def tokens (e : Entry) (line : Nat) : List Token :=
  [⟨line, .key⟩, ⟨line, .scalar true e.key⟩, ⟨line, .value⟩, ⟨line, .scalar e.plain e.value⟩]

/-- **An entry that can be read back**: its value is a word that is taken for a plain scalar, or
needs no escapes. -/
structure IsSound (e : Entry) : Prop where
  key : IsKey e.key.asciiChars
  asciiKey : ∀ b ∈ e.key, 0x20 ≤ b.toNat ∧ b.toNat ≤ 0x7E
  asciiValue : ∀ b ∈ e.value, 0x20 ≤ b.toNat ∧ b.toNat ≤ 0x7E
  plain : e.plain = true → IsPlain e.value.asciiChars
  quoted : e.plain = false → 34 ∉ e.value ∧ 92 ∉ e.value

variable {e : Entry}

theorem isQuotable_of_ne {b : UInt8} (h : 0x20 ≤ b.toNat ∧ b.toNat ≤ 0x7E) (hquote : b ≠ 34)
    (hescape : b ≠ 92) :
    isQuotable (Char.ofNat b.toNat) = true ∨ Char.ofNat b.toNat = ' ' := by
  have hall : ∀ n < 0x7F, 0x20 ≤ n → n ≠ 34 → n ≠ 92 →
      isQuotable (Char.ofNat n) = true ∨ Char.ofNat n = ' ' := by decide
  refine hall b.toNat (by omega) h.1 ?_ ?_
  · exact fun hb => hquote (UInt8.toNat_inj.mp hb)
  · exact fun hb => hescape (UInt8.toNat_inj.mp hb)

theorem IsSound.ofChars_value (h : e.IsSound) : Text.ofChars e.value.asciiChars = e.value :=
  Text.ofChars_asciiChars fun b hb => by
    have := h.asciiValue b hb
    omega

theorem IsSound.ofChars_key (h : e.IsSound) : Text.ofChars e.key.asciiChars = e.key :=
  Text.ofChars_asciiChars fun b hb => by
    have := h.asciiKey b hb
    omega

theorem IsSound.chars_key_ne_nil (h : e.IsSound) : e.key.asciiChars ≠ [] := by
  obtain ⟨d, w, hw, -⟩ := h.key.exists_cons
  rw [hw]
  exact List.cons_ne_nil d w

theorem asciiChars_line (e : Entry) :
    e.line.asciiChars = e.key.asciiChars ++ ':' :: ' ' :: e.written.asciiChars := by
  have hcolon : Text.asciiChars (utf8 ": ") = [':', ' '] := by decide
  simp [line, hcolon]

theorem asciiChars_written (e : Entry) : e.written.asciiChars =
    if e.plain then e.value.asciiChars else '"' :: (e.value.asciiChars ++ ['"']) := by
  have hquote : Text.asciiChars (utf8 "\"") = ['"'] := by decide
  cases hplain : e.plain with
  | true => simp [written, hplain]
  | false => simp [written, hplain, hquote]

theorem IsSound.isTokenStart_written (h : e.IsSound) (tail : List Char) :
    isTokenStart ((e.written.asciiChars ++ tail).headD endMark) = true := by
  rw [asciiChars_written]
  cases hplain : e.plain with
  | true =>
    obtain ⟨d, w, hw, hd, -⟩ := (h.plain hplain).exists_cons
    rw [if_pos rfl, hw]
    exact hd
  | false => rfl

theorem IsSound.length_line (h : e.IsSound) :
    e.value.length + 3 ≤ e.line.asciiChars.length := by
  have hkey : 1 ≤ e.key.asciiChars.length := List.length_pos_iff.mpr h.chars_key_ne_nil
  have hvalue : e.value.length ≤ e.written.asciiChars.length := by
    rw [asciiChars_written, ← Text.length_asciiChars e.value]
    split
    · exact Nat.le_refl _
    · rw [List.length_cons, List.length_append]
      omega
  rw [asciiChars_line, List.length_append, List.length_cons, List.length_cons]
  omega

end Entry

/-- The tokens of entries from the given line on. -/
def entryTokens : (line : Nat) → List Entry → List Token
  | _, [] => []
  | line, e :: es => e.tokens line ++ entryTokens (line + 1) es

/-- What follows a line, and what is left behind its end. The last line need not end. -/
def EndsLine (tail next : List Char) : Prop := tail = '\n' :: next ∨ tail = [] ∧ next = []

theorem EndsLine.lineComment {tail next : List Char} (htail : EndsLine tail next) (i l c : Nat) :
    Cursor.lineComment ⟨tail, true, i, l, c⟩ = some ⟨tail, true, i, l, c⟩ := by
  rcases htail with rfl | ⟨rfl, rfl⟩
  · exact Cursor.lineComment_append (w := []) (by simp) (by simp) rfl (by simp)
  · exact Cursor.lineComment_append (w := []) (by simp) (by simp) rfl (by simp [endMark])

section Source

/-- The source of some entries. -/
def sourceOf (ended : Bool) (es : List Entry) : List Char :=
  Text.asciiChars (Text.ofLines ended (es.map Entry.line))

variable {ended : Bool} {es : List Entry}

theorem isTokenStart_sourceOf (h : ∀ e ∈ es, e.IsSound) :
    isTokenStart ((sourceOf ended es).headD endMark) = true := by
  cases es with
  | nil => cases ended <;> rfl
  | cons e es =>
    obtain ⟨d, w, hw, hd, -⟩ := (h e List.mem_cons_self).key.exists_cons
    rw [sourceOf, List.map_cons, Text.ofLines_cons, Text.asciiChars_append, Entry.asciiChars_line,
      hw]
    exact hd

/-- A source starts with the line of its first entry. -/
theorem sourceOf_cons (ended : Bool) (e : Entry) (es : List Entry) :
    ∃ tail, sourceOf ended (e :: es) = e.line.asciiChars ++ tail ∧
      EndsLine tail (sourceOf ended es) := by
  rw [sourceOf, List.map_cons, Text.ofLines_cons, Text.asciiChars_append]
  refine ⟨_, rfl, ?_⟩
  cases hmore : ended || !(es.map Entry.line).isEmpty with
  | true => exact Or.inl rfl
  | false =>
    obtain ⟨rfl, hes⟩ : ended = false ∧ es = [] := by simpa using hmore
    subst hes
    exact Or.inr ⟨rfl, rfl⟩

end Source

namespace Lexer

variable {s : Lexer} {w rest : List Char} {columns : List Nat} {mark : Option KeyMark}
  {fuel i l c n latest : Nat} {k : Bool} {t : Token} {ts : List Token}

/-- The columns of the block collections that are open after some tokens: a mapping at the start of
lines, unless nothing has been found. -/
def openColumns (found : List Token) : List Nat := if found.isEmpty then [] else [0]

/-- The tokens before a further entry on the given line. The first entry opens the mapping. -/
def opened (line : Nat) (found : List Token) : List Token :=
  if found.isEmpty then [⟨line, .blockMapping⟩] else found

/-! ## Single tokens -/

/-- Nothing is closed at a token that lies right of all open block collections, or in their
column. -/
theorem closeBlocks_of_le (h : ∀ m ∈ s.columns, m ≤ c) : s.closeBlocks c = s := by
  have hstay : s.columns.takeWhile (c < ·) = [] := by
    cases hcolumns : s.columns with
    | nil => rfl
    | cons m columns =>
      have hm : ¬ c < m := Nat.not_lt.mpr (h m (hcolumns ▸ List.mem_cons_self))
      simp [hm]
  simp [closeBlocks, hstay, closeMany]

/-- The next token belongs to the content of a document unless the place says otherwise. -/
theorem fetch_content {p : Cursor} (houter : s.outer = []) (hcomplete : s.cursor.complete = true)
    (htoken : s.cursor.toToken false fuel s.keyAllowed = some (k, p)) (hp : p.complete = true)
    (hcolumns : ∀ m ∈ s.columns, m ≤ p.column) (hend : p.head ≠ endMark)
    (hdirective : p.head ≠ '%') (hmarker : p.atMarker = false) :
    s.fetch fuel = { s with keyAllowed := k, cursor := p }.content fuel := by
  have hstay : closeBlocks { s with keyAllowed := k, cursor := p } p.column =
      { s with keyAllowed := k, cursor := p } := closeBlocks_of_le hcolumns
  have hflow : s.inFlow = false := by simp [inFlow, houter]
  simp [fetch, Cursor.has, Cursor.atEnd, hcomplete, hflow, htoken, hp, hstay, hend, hdirective,
    hmarker]

theorem closeMany_eq (m : Nat) (s : Lexer) :
    (closeMany m s).tokens = List.replicate m ⟨s.cursor.line, .blockEnd⟩ ++ s.tokens ∧
      (closeMany m s).mark = s.mark := by
  induction m generalizing s with
  | zero => exact ⟨rfl, rfl⟩
  | succ m ih =>
    obtain ⟨htokens, hmark⟩ :=
      ih ({ s with columns := s.columns.tail }.emit s.cursor.line .blockEnd)
    refine ⟨?_, hmark⟩
    rw [closeMany, htokens, List.replicate_succ', List.append_assoc]
    rfl

theorem finish_eq (houter : s.outer = []) (hmark : s.mark = none) :
    ∃ s', s.finish = some s' ∧
      s'.tokens = List.replicate s.columns.length ⟨s.cursor.line, .blockEnd⟩ ++ s.tokens := by
  obtain ⟨htokens, hkept⟩ := closeMany_eq s.columns.length s
  have hclose : s.closeAll = closeMany s.columns.length s := by simp [closeAll, inFlow, houter]
  refine ⟨{ s.closeAll with keyAllowed := false }, ?_, ?_⟩
  · simp [finish, hclose, dropMark, hkept, hmark]
  · rw [hclose]
    exact htokens

/-- The end of the source closes what is open. -/
theorem fetch_end (houter : s.outer = []) (hmark : s.mark = none)
    (hcomplete : s.cursor.complete = true)
    (htoken : s.cursor.toToken false fuel s.keyAllowed = some (k, ⟨[], true, i, l, c⟩))
    (hcolumns : ∀ m ∈ s.columns, m ≤ c) :
    ∃ s', s.fetch fuel = some s' ∧ s'.tokens = ⟨if c = 0 then l else l + 1, .streamEnd⟩ ::
      (List.replicate s.columns.length ⟨if c = 0 then l else l + 1, .blockEnd⟩ ++ s.tokens) := by
  have hstay : closeBlocks { s with keyAllowed := k, cursor := ⟨[], true, i, l, c⟩ } c =
      { s with keyAllowed := k, cursor := ⟨[], true, i, l, c⟩ } := closeBlocks_of_le hcolumns
  have hflow : s.inFlow = false := by simp [inFlow, houter]
  have hend : Cursor.atEnd ⟨[], true, i, l, c⟩ = true := rfl
  let line := if c = 0 then l else l + 1
  let s₁ : Lexer := { s with keyAllowed := k, cursor := ⟨[], true, i, line, 0⟩ }
  obtain ⟨s', hfinish, htokens⟩ := finish_eq (s := s₁) houter hmark
  refine ⟨s'.emit line .streamEnd, ?_, congrArg (List.cons _) htokens⟩
  simp only [fetch, Cursor.has, hcomplete, hflow, htoken, hend, hstay, Bool.true_or,
    Option.bind_eq_bind, guard_true, Option.pure_def, Option.bind_some, if_true]
  exact congrArg (·.bind fun s => some (s.emit line .streamEnd)) hfinish

theorem startsPlain_of_isOrdinary {d : Char} (h : isOrdinary d = true) (e : Char) :
    startsPlain false d e = true := by
  simp only [isOrdinary, Bool.and_eq_true, Bool.not_eq_true', decide_eq_true_eq] at h
  simp [startsPlain, h]

/-- A plain scalar is taken where one starts. -/
theorem content_plain (houter : s.outer = []) (hw : IsPlain w) (hrest : s.cursor.rest = w ++ rest) :
    s.content fuel = s.plain fuel := by
  have hflow : s.inFlow = false := by simp [inFlow, houter]
  rcases hw.opens with ⟨d, w, rfl, hd⟩ | ⟨d, w, rfl⟩
  · have hhead : s.cursor.head = d := by simp [Cursor.head, hrest]
    have hstart := startsPlain_of_isOrdinary hd (s.cursor.look 1)
    simp only [isOrdinary, isIndicator, Bool.and_eq_true, Bool.not_eq_true', Bool.or_eq_false_iff,
      decide_eq_false_iff_not, decide_eq_true_eq] at hd
    simp [content, hhead, hd, hflow, hstart]
  · have hd : isWordEnd d = false := (hw.chars d (by simp)).1
    have hblank := (isWordEnd_eq_false.mp hd).1
    have hhead : s.cursor.head = '-' := by simp [Cursor.head, hrest]
    have hlook : s.cursor.look 1 = d := by simp [Cursor.look, hrest]
    have hstart : startsPlain false '-' d = true := by
      show (!isBlank d) = true
      rw [hblank, Bool.not_false]
    simp [content, hhead, hlook, hd, hflow, hstart, apostrophe]

theorem content_quoted (hrest : s.cursor.rest = '"' :: rest) :
    s.content fuel = s.quoted fuel false := by
  simp [content, Cursor.head, hrest, apostrophe]

theorem content_value (hrest : s.cursor.rest = ':' :: ' ' :: rest) :
    s.content fuel = s.value := by
  simp [content, Cursor.head, Cursor.look, hrest, isWordEnd, isBlank]

/-- A plain scalar at the start of a line, before a colon, may be a key. -/
theorem plain_key (hw : IsPlain w)
    (hmarker : Cursor.atMarker ⟨w ++ ':' :: ' ' :: rest, true, i, l, 0⟩ = false) :
    plain (fuel + 1) ⟨⟨w ++ ':' :: ' ' :: rest, true, i, l, 0⟩, columns, none, latest, [], true,
        n, ts⟩ =
      some ⟨⟨':' :: ' ' :: rest, true, i + w.length, l, w.length⟩, columns,
        some ⟨n, columns.head? = some 0, i, l, 0, true⟩, n, [], false, n + 1,
        ⟨l, .scalar true (Text.ofChars w)⟩ :: ts⟩ := by
  have hscan : ∀ limit, Cursor.plain false limit (fuel + 1)
      ⟨w ++ ':' :: ' ' :: rest, true, i, l, 0⟩ =
        some (w, false, ⟨':' :: ' ' :: rest, true, i + w.length, l, w.length⟩) := fun limit => by
    rw [Cursor.plain_append hw (endsPlain_colon rest) hmarker rfl rfl, Nat.zero_add]
  have hcomment : Cursor.lineComment ⟨':' :: ' ' :: rest, true, i + w.length, l, w.length⟩ =
      some ⟨':' :: ' ' :: rest, true, i + w.length, l, w.length⟩ :=
    Cursor.lineComment_append (w := []) (by simp) (by simp) rfl (by simp)
  simp [plain, setMark, dropMark, inFlow, hscan, emit, comment, hcomment]

/-! ## From line to line -/

/-- **A lexer between two lines**, after the tokens `found`, before the given line: the next token
is the first one of `rest`, which starts that line or is the end. -/
structure AtLine (s : Lexer) (found : List Token) (line : Nat) (rest : List Char) : Prop where
  outer : s.outer = []
  mark : s.mark = none
  complete : s.cursor.complete = true
  columns : s.columns = openColumns found
  count : s.count = found.length
  tokens : s.tokens = found.reverse
  next : ∃ k i l c,
    (∀ fuel, s.cursor.toToken false (fuel + 2) s.keyAllowed = some (k, ⟨rest, true, i, l, c⟩)) ∧
      (if c = 0 then l else l + 1) = line ∧ (rest ≠ [] → k = true ∧ c = 0)

variable {found : List Token} {line : Nat} {tail next : List Char}

theorem eq_zero_of_mem_openColumns {m : Nat} (h : m ∈ openColumns found) : m = 0 := by
  cases found with
  | nil => cases h
  | cons t found => exact List.mem_singleton.mp h

theorem head?_openColumns : decide ((openColumns found).head? = some 0) = !found.isEmpty := by
  cases found <;> rfl

/-- The lexer behind the key of an entry, which starts at index `i` after the tokens `found`. -/
def behindKey (found : List Token) (line i : Nat) (w rest : List Char) : Lexer where
  cursor := ⟨':' :: ' ' :: rest, true, i + w.length, line, w.length⟩
  columns := openColumns found
  mark := some ⟨found.length, !found.isEmpty, i, line, 0, true⟩
  latest := found.length
  outer := []
  keyAllowed := false
  count := found.length + 1
  tokens := ⟨line, .scalar true (Text.ofChars w)⟩ :: found.reverse

/-- The lexer behind the colon of an entry, after the tokens `found`. -/
def behindColon (found : List Token) (line i c latest : Nat) (rest : List Char) : Lexer where
  cursor := ⟨' ' :: rest, true, i, line, c⟩
  columns := [0]
  mark := none
  latest := latest
  outer := []
  keyAllowed := false
  count := found.length
  tokens := found.reverse

/-- The key of an entry is found as a scalar that may be a key. -/
theorem AtLine.fetch_key (hs : AtLine s found line (w ++ ':' :: ' ' :: rest)) (hw : IsKey w)
    (fuel : Nat) : ∃ i, s.fetch (fuel + 2) = some (behindKey found line i w rest) := by
  obtain ⟨k, i, l, c, htoken, hline, hplace⟩ := hs.next
  obtain ⟨rfl, rfl⟩ := hplace (by simp)
  obtain rfl : l = line := hline
  obtain ⟨d, w, rfl, -, hend, hdirective⟩ := hw.exists_cons
  have hmarker : Cursor.atMarker ⟨d :: w ++ ':' :: ' ' :: rest, true, i, l, 0⟩ = false :=
    Cursor.atMarker_of_head hw.not_marker.1 hw.not_marker.2
  have hcolumns : ∀ m ∈ s.columns, m ≤ 0 := fun m hm =>
    Nat.le_of_eq (eq_zero_of_mem_openColumns (hs.columns ▸ hm))
  refine ⟨i, ?_⟩
  rw [fetch_content hs.outer hs.complete (htoken fuel) rfl hcolumns hend hdirective hmarker]
  simp only [hs.outer, hs.mark, hs.columns, hs.count, hs.tokens]
  rw [content_plain rfl hw.toIsPlain rfl, plain_key hw.toIsPlain hmarker, head?_openColumns]
  rfl

/-- The colon behind a key is taken. -/
theorem fetch_colon (hw : w ≠ []) :
    fetch (fuel + 1) (behindKey found line i w rest) = value (behindKey found line i w rest) := by
  have hcolumns : ∀ m ∈ openColumns found, m ≤ w.length := fun m hm =>
    eq_zero_of_mem_openColumns hm ▸ Nat.zero_le _
  rw [fetch_content rfl rfl (Cursor.toToken_of_head rfl) rfl hcolumns
    (by simp [Cursor.head, endMark]) (by simp [Cursor.head])
    (Cursor.atMarker_of_column _ _ line (mt List.length_eq_zero_iff.mp hw))]
  exact content_value rfl

/-- The colon near the start of a key inserts a mark in front of the key, and one for the mapping
if the key is its first. -/
theorem value_behindKey (hreach : w.length ≤ KeyMark.reach)
    (hrest : isTokenStart (rest.headD endMark) = true) :
    value (behindKey found line i w rest) =
      some (behindColon (opened line found ++
          [⟨line, .key⟩, ⟨line, .scalar true (Text.ofChars w)⟩, ⟨line, .value⟩])
        line (i + w.length + 1) (w.length + 1) found.length rest) := by
  have hlive : ∀ m k, KeyMark.isExpired ⟨m, k, i, line, 0, true⟩
      ⟨':' :: ' ' :: rest, true, i + w.length, line, w.length⟩ = false := by
    simp [KeyMark.isExpired, Nat.not_lt.mpr hreach]
  have hcomment : Cursor.lineComment ⟨' ' :: rest, true, i + w.length + 1, line, w.length + 1⟩ =
      some _ :=
    Cursor.lineComment_append (w := [' ']) (by simp) (by simp) (isTokenStart_iff.mp hrest).1
      (isTokenStart_iff.mp hrest).2.2.1
  cases found with
  | nil =>
    simp [value, behindKey, behindColon, liveMark?, hlive, Lexer.insert, openBlock, openColumns,
      opened, inFlow, isDeeper, maxDepth, indicator, emit, comment, Cursor.skip, hcomment]
  | cons t found =>
    simp [value, behindKey, behindColon, liveMark?, hlive, Lexer.insert, openBlock, openColumns,
      opened, inFlow, isDeeper, indicator, emit, comment, Cursor.skip, hcomment]

/-- Far from the start of a key its colon is an error. -/
theorem value_behindKey_of_lt (hreach : KeyMark.reach < w.length) :
    value (behindKey found line i w rest) = none := by
  have hexpired : ∀ k, KeyMark.isExpired ⟨found.length, k, i, line, 0, true⟩
      ⟨':' :: ' ' :: rest, true, i + w.length, line, w.length⟩ = true := by
    simp [KeyMark.isExpired, hreach]
  cases hfound : found.isEmpty with
  | true =>
    have hmark : (behindKey found line i w rest).liveMark? = some none := by
      simp [liveMark?, behindKey, hexpired, hfound]
    rw [value, hmark]
    rfl
  | false =>
    have hmark : (behindKey found line i w rest).liveMark? = none := by
      simp [liveMark?, behindKey, hexpired, hfound]
    rw [value, hmark]
    rfl

/-- Behind a key a reader is at the last token before it, whether there must be a key or not. -/
theorem readerAt_behindKey : (behindKey found line i w rest).readerAt = found.length - 1 := by
  simp only [readerAt, behindKey, List.foldl_cons, List.foldl_nil]
  split
  · next k hk =>
    obtain ⟨hmark, -⟩ := Option.filter_eq_some_iff.mp hk
    obtain rfl := Option.some.inj hmark
    exact Nat.min_eq_left (Nat.sub_le _ 1)
  · rfl

/-- Behind the space after a colon stands the value. -/
theorem fetch_space {d : Char} (hstart : isTokenStart d = true) (hend : d ≠ endMark)
    (hdirective : d ≠ '%') :
    fetch (fuel + 1) ⟨⟨' ' :: d :: rest, true, i, l, c⟩, [0], mark, latest, [], false, n, ts⟩ =
      content (fuel + 1) ⟨⟨d :: rest, true, i + 1, l, c + 1⟩, [0], mark, latest, [], false, n,
        ts⟩ :=
  fetch_content rfl rfl (Cursor.toToken_space hstart) rfl (by simp) hend hdirective
    (Cursor.atMarker_of_column _ _ l (Nat.add_one_ne_zero c))

/-- Behind a value the next line starts, or the source ends. -/
theorem atLine_of_endsLine (hc : c ≠ 0) (htail : EndsLine tail next)
    (hnext : isTokenStart (next.headD endMark) = true) (found : List Token) :
    AtLine ⟨⟨tail, true, i, l, c⟩, [0], none, latest, [], false, found.length + 1,
      t :: found.reverse⟩ (found ++ [t]) (l + 1) next := by
  refine ⟨rfl, rfl, rfl, by simp [openColumns], by simp, by simp, ?_⟩
  rcases htail with rfl | ⟨rfl, rfl⟩
  · exact ⟨true, i + 1, l + 1, 0, fun fuel => Cursor.toToken_newline hnext, rfl,
      fun _ => ⟨rfl, rfl⟩⟩
  · exact ⟨false, i, l, c, fun fuel => Cursor.toToken_of_head hnext, if_neg hc, absurd rfl⟩

theorem comment_of_lineComment (h : s.cursor.lineComment = some s.cursor) :
    s.comment = some s := by
  simp [comment, h]

/-- A plain value leads to the next line. -/
theorem fetch_plain (hw : IsPlain w) (htail : EndsLine tail next)
    (hnext : isTokenStart (next.headD endMark) = true) :
    ∃ s', fetch (fuel + 3) (behindColon found line i c latest (w ++ tail)) = some s' ∧
      AtLine s' (found ++ [⟨line, .scalar true (Text.ofChars w)⟩]) (line + 1) next := by
  obtain ⟨d, w', rfl, hstart, hend, hdirective⟩ := hw.exists_cons
  have hmarker : Cursor.atMarker ⟨d :: w' ++ tail, true, i + 1, line, c + 1⟩ = false :=
    Cursor.atMarker_of_column _ _ line (Nat.add_one_ne_zero c)
  rw [List.cons_append, behindColon, fetch_space hstart hend hdirective, ← List.cons_append,
    content_plain rfl hw rfl]
  rcases htail with rfl | ⟨rfl, rfl⟩
  · -- The scan goes on to the next line and finds that it does not belong to the scalar.
    refine ⟨⟨⟨next, true, i + 1 + (d :: w').length + 1, line + 1, 0⟩, [0], none, latest, [], true,
      found.length + 1, ⟨line, .scalar true (Text.ofChars (d :: w'))⟩ :: found.reverse⟩, ?_, ?_⟩
    · show (Cursor.plain false 1 (fuel + 3) _).bind _ = _
      rw [Cursor.plain_newline hw hnext Nat.one_pos hmarker]
      rfl
    · exact ⟨rfl, rfl, rfl, by simp [openColumns], by simp, by simp, true, _, line + 1, 0,
        fun fuel => Cursor.toToken_of_head hnext, rfl, fun _ => ⟨rfl, rfl⟩⟩
  · refine ⟨⟨⟨[], true, i + 1 + (d :: w').length, line, c + 1 + (d :: w').length⟩, [0], none,
      latest, [], false, found.length + 1,
      ⟨line, .scalar true (Text.ofChars (d :: w'))⟩ :: found.reverse⟩, ?_,
      atLine_of_endsLine (Nat.add_one_ne_zero _) (Or.inr ⟨rfl, rfl⟩) hnext found⟩
    show (Cursor.plain false 1 (fuel + 3) _).bind _ = _
    rw [Cursor.plain_append hw endsPlain_nil hmarker rfl rfl]
    rfl

/-- A quoted value leads to the next line. -/
theorem fetch_quoted (hw : ∀ d ∈ w, isQuotable d = true ∨ d = ' ') (htail : EndsLine tail next)
    (hnext : isTokenStart (next.headD endMark) = true) (hfuel : w.length + 1 < fuel) :
    ∃ s', fetch fuel (behindColon found line i c latest ('"' :: (w ++ '"' :: tail))) = some s' ∧
      AtLine s' (found ++ [⟨line, .scalar false (Text.ofChars w)⟩]) (line + 1) next := by
  obtain ⟨fuel, rfl⟩ := Nat.exists_eq_add_one.mpr (Nat.zero_lt_of_lt hfuel)
  rw [behindColon, fetch_space rfl (by decide) (by decide), content_quoted rfl]
  refine ⟨⟨⟨tail, true, i + 1 + (w.length + 2), line, c + 1 + (w.length + 2)⟩, [0], none, latest,
    [], false, found.length + 1, ⟨line, .scalar false (Text.ofChars w)⟩ :: found.reverse⟩, ?_,
    atLine_of_endsLine (Nat.add_one_ne_zero _) htail hnext found⟩
  show (Cursor.quoted false (fuel + 1) _).bind _ = _
  rw [Cursor.quoted_append hw hfuel]
  exact comment_of_lineComment (htail.lineComment _ _ _)

variable {e : Entry}

/-- The value of an entry leads to the next line. -/
theorem fetch_value (he : e.IsSound) (htail : EndsLine tail next)
    (hnext : isTokenStart (next.headD endMark) = true) (hfuel : e.value.length + 3 ≤ fuel) :
    ∃ s', fetch fuel (behindColon found line i c latest (e.written.asciiChars ++ tail)) = some s' ∧
      AtLine s' (found ++ [⟨line, .scalar e.plain e.value⟩]) (line + 1) next := by
  rw [← he.ofChars_value]
  cases hplain : e.plain with
  | true =>
    obtain ⟨fuel, rfl⟩ := Nat.exists_eq_add_of_le' (Nat.le_trans (Nat.le_add_left 3 _) hfuel)
    rw [Entry.written, hplain]
    exact fetch_plain (he.plain hplain) htail hnext
  | false =>
    have hquotable : ∀ d ∈ e.value.asciiChars, isQuotable d = true ∨ d = ' ' := by
      intro d hd
      obtain ⟨b, hb, rfl⟩ := List.mem_map.mp hd
      obtain ⟨hquote, hescape⟩ := he.quoted hplain
      exact Entry.isQuotable_of_ne (he.asciiValue b hb)
        (fun h => hquote (h ▸ hb)) (fun h => hescape (h ▸ hb))
    have hchars : e.written.asciiChars ++ tail =
        '"' :: (e.value.asciiChars ++ '"' :: tail) := by
      simp [Entry.asciiChars_written, hplain]
    rw [hchars]
    exact fetch_quoted hquotable htail hnext (by rw [Text.length_asciiChars]; omega)

/-! ## Runs -/

theorem run_step {s' : Lexer} (h : s.fetch fuel = some s')
    (htokens : ∀ t ∈ s'.tokens.head?, t.symbol ≠ .streamEnd) : run (fuel + 1) s = run fuel s' := by
  rw [run, h]
  dsimp only
  split
  · next hend =>
    rw [hend] at htokens
    exact absurd rfl (htokens _ rfl)
  · rfl

/-- The first round of an entry finds its key. -/
theorem AtLine.fetch_entry (hs : AtLine s found line (e.line.asciiChars ++ tail)) (he : e.IsSound)
    (fuel : Nat) : ∃ i, s.fetch (fuel + 2) =
      some (behindKey found line i e.key.asciiChars (e.written.asciiChars ++ tail)) := by
  rw [Entry.asciiChars_line, List.append_assoc] at hs
  exact hs.fetch_key he.key fuel

/-- **An entry of a mapping** takes three rounds, and adds its tokens. -/
theorem AtLine.run_entry (hs : AtLine s found line (e.line.asciiChars ++ tail)) (he : e.IsSound)
    (hreach : e.key.length ≤ KeyMark.reach) (htail : EndsLine tail next)
    (hnext : isTokenStart (next.headD endMark) = true) (hfuel : e.value.length + 3 ≤ fuel) :
    ∃ s', run (fuel + 3) s = run fuel s' ∧
      AtLine s' (opened line found ++ e.tokens line) (line + 1) next := by
  obtain ⟨i, hkey⟩ := hs.fetch_entry he fuel
  let found' := opened line found ++ [⟨line, .key⟩, ⟨line, .scalar true e.key⟩, ⟨line, .value⟩]
  have hcolon : fetch (fuel + 1)
      (behindKey found line i e.key.asciiChars (e.written.asciiChars ++ tail)) =
        some (behindColon found' line (i + e.key.asciiChars.length + 1)
          (e.key.asciiChars.length + 1) found.length (e.written.asciiChars ++ tail)) := by
    rw [fetch_colon he.chars_key_ne_nil, value_behindKey
      (by rwa [Text.length_asciiChars]) (he.isTokenStart_written tail), he.ofChars_key]
  obtain ⟨s', hvalue, hs'⟩ : ∃ s', fetch fuel (behindColon found' line _ _ _ _) = some s' ∧ _ :=
    fetch_value he htail hnext hfuel
  refine ⟨s', ?_, by simpa [found', Entry.tokens] using hs'⟩
  rw [run_step hkey (by simp [behindKey]), run_step hcolon (by simp [behindColon, found']),
    run_step hvalue (by simp [hs'.tokens])]

/-- The tokens after entries that follow others. -/
def extend : (line : Nat) → (found : List Token) → List Entry → List Token
  | _, found, [] => found
  | line, found, e :: es => extend (line + 1) (opened line found ++ e.tokens line) es

variable {ended : Bool} {es more : List Entry}

/-- **The entries of a mapping** are taken one after the other. -/
theorem AtLine.run_entries (hs : AtLine s found line (sourceOf ended (es ++ more)))
    (hsound : ∀ e ∈ es ++ more, e.IsSound) (hreach : ∀ e ∈ es, e.key.length ≤ KeyMark.reach)
    (hfuel : (sourceOf ended (es ++ more)).length + 4 ≤ fuel) :
    ∃ fuel' s', run fuel s = run fuel' s' ∧ (sourceOf ended more).length + 4 ≤ fuel' ∧
      AtLine s' (extend line found es) (line + es.length) (sourceOf ended more) := by
  induction es generalizing s found line fuel with
  | nil => exact ⟨fuel, s, rfl, hfuel, hs⟩
  | cons e es ih =>
    obtain ⟨he, hes⟩ := List.forall_mem_cons.mp hsound
    obtain ⟨hkey, hkeys⟩ := List.forall_mem_cons.mp hreach
    obtain ⟨tail, hsource, htail⟩ := sourceOf_cons ended e (es ++ more)
    rw [List.cons_append, hsource] at hs hfuel
    have hwidth := he.length_line
    have hlength : (sourceOf ended (es ++ more)).length ≤ tail.length := by
      rcases htail with h | ⟨h, h'⟩
      · rw [h]; exact Nat.le_succ _
      · rw [h']; exact Nat.zero_le _
    rw [List.length_append] at hfuel
    obtain ⟨fuel, rfl⟩ := Nat.exists_eq_add_of_le' (by omega : 3 ≤ fuel)
    obtain ⟨s', hrun, hs'⟩ := hs.run_entry he hkey htail (isTokenStart_sourceOf hes)
      (show e.value.length + 3 ≤ fuel by omega)
    obtain ⟨fuel', s'', hrun', hfuel', hs''⟩ := ih hs' hes hkeys
      (show (sourceOf ended (es ++ more)).length + 4 ≤ fuel by omega)
    refine ⟨fuel', s'', hrun.trans hrun', hfuel', ?_⟩
    rwa [List.length_cons, ← Nat.add_assoc, Nat.add_right_comm]

/-- Behind the last entry the mapping ends. -/
theorem AtLine.run_end (hs : AtLine s found line []) :
    run (fuel + 3) s = found ++ (List.replicate (openColumns found).length ⟨line, .blockEnd⟩ ++
      [⟨line, .streamEnd⟩]) := by
  obtain ⟨k, i, l, c, htoken, hline, -⟩ := hs.next
  have hcolumns : ∀ m ∈ s.columns, m ≤ c := fun m hm =>
    eq_zero_of_mem_openColumns (hs.columns ▸ hm) ▸ Nat.zero_le c
  obtain ⟨s', hfetch, htokens⟩ := fetch_end hs.outer hs.mark hs.complete (htoken fuel) hcolumns
  rw [hline, hs.tokens, hs.columns] at htokens
  rw [run, hfetch]
  simp [htokens]

/-- Far behind the start of a key its colon is an error, which a reader notices before the last
token in front of the key. -/
theorem AtLine.run_far (hs : AtLine s found line (e.line.asciiChars ++ tail)) (he : e.IsSound)
    (hreach : KeyMark.reach < e.key.length) : run (fuel + 4) s = found.dropLast := by
  obtain ⟨i, hkey⟩ := hs.fetch_entry he (fuel + 1)
  have hcolon : fetch (fuel + 2)
      (behindKey found line i e.key.asciiChars (e.written.asciiChars ++ tail)) = none := by
    rw [fetch_colon he.chars_key_ne_nil]
    exact value_behindKey_of_lt (by rwa [Text.length_asciiChars])
  rw [run_step hkey (by simp [behindKey]), run, hcolon]
  show List.take _ (List.reverse _) = _
  rw [readerAt_behindKey, behindKey, List.reverse_cons, List.reverse_reverse,
    List.take_append_of_le_length (Nat.sub_le _ 1), List.dropLast_eq_take]

theorem atLine_ofSource (h : isTokenStart (rest.headD endMark) = true) :
    AtLine (.ofSource ⟨rest, true⟩) [] 0 rest :=
  ⟨rfl, rfl, rfl, rfl, rfl, rfl, true, 0, 0, 0, fun _ => Cursor.toToken_of_head h, rfl,
    fun _ => ⟨rfl, rfl⟩⟩

theorem extend_of_ne_nil (h : found ≠ []) (line : Nat) (es : List Entry) :
    extend line found es = found ++ entryTokens line es := by
  induction es generalizing line found with
  | nil => exact (List.append_nil found).symm
  | cons e es ih =>
    have hopened : opened line found = found := by simp [opened, h]
    rw [extend, hopened, ih (List.append_ne_nil_of_left_ne_nil h _), entryTokens, List.append_assoc]

/-- After some entries these are the tokens. -/
theorem extend_nil (es : List Entry) (h : es ≠ []) :
    extend 0 [] es = ⟨0, .blockMapping⟩ :: entryTokens 0 es := by
  cases es with
  | nil => exact absurd rfl h
  | cons e es =>
    have hfound : opened 0 [] ++ e.tokens 0 ≠ [] := by simp [opened]
    rw [extend, extend_of_ne_nil hfound]
    rfl

end Lexer

variable {ended : Bool} {es more : List Entry} {e : Entry}

/-- **The tokens of a mapping** with one entry on each line. -/
theorem tokens_sourceOf (hsound : ∀ e ∈ es, e.IsSound)
    (hreach : ∀ e ∈ es, e.key.length ≤ KeyMark.reach) (hne : es ≠ []) :
    tokens ⟨sourceOf ended es, true⟩ = ⟨0, .blockMapping⟩ ::
      (entryTokens 0 es ++ [⟨es.length, .blockEnd⟩, ⟨es.length, .streamEnd⟩]) := by
  have hes : es ++ [] = es := List.append_nil es
  have hnil : ∀ ended, sourceOf ended [] = [] := by decide
  obtain ⟨fuel, s, hrun, hfuel, hs⟩ :=
    (Lexer.atLine_ofSource (isTokenStart_sourceOf (hes.symm ▸ hsound))).run_entries
      (hes.symm ▸ hsound) hreach (Nat.le_refl _)
  obtain ⟨fuel, rfl⟩ := Nat.exists_eq_add_of_le' (Nat.le_trans (Nat.le_add_left 4 _) hfuel)
  rw [hnil, Lexer.extend_nil es hne, Nat.zero_add] at hs
  rw [hes] at hrun
  rw [tokens, hrun, hs.run_end]
  rfl

/-- **The tokens of a mapping with a key that is too long** end before the last one in front of
that key. -/
theorem tokens_far (hsound : ∀ entry ∈ es ++ e :: more, entry.IsSound)
    (hreach : ∀ e ∈ es, e.key.length ≤ KeyMark.reach) (hfar : KeyMark.reach < e.key.length) :
    tokens ⟨sourceOf ended (es ++ e :: more), true⟩ = (Lexer.extend 0 [] es).dropLast := by
  obtain ⟨fuel, s, hrun, hfuel, hs⟩ :=
    (Lexer.atLine_ofSource (isTokenStart_sourceOf hsound)).run_entries hsound hreach (Nat.le_refl _)
  obtain ⟨fuel, rfl⟩ := Nat.exists_eq_add_of_le' (Nat.le_trans (Nat.le_add_left 4 _) hfuel)
  obtain ⟨tail, hsource, -⟩ := sourceOf_cons ended e more
  rw [hsource] at hs
  rw [tokens, hrun]
  exact hs.run_far (hsound e (List.mem_append_right _ List.mem_cons_self)) hfar

end Yaml

end LineScript

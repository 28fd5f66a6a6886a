import LineScript.Text.Utf8
import LineScript.Yaml.Quoted
import Mathlib.Control.Basic
import Mathlib.Data.List.TakeDrop
import Mathlib.Data.Option.Basic

/-!
# Scanning scalars on one line

What is found at a place of a complete source whose text is known: the next token, a plain scalar
that ends on its line or with it, a double-quoted scalar without escapes. Each lemma leaves open
what follows, as far as it cannot be taken for a part of what is read.

## Main definitions

* `Yaml.isTokenStart`: the characters that nothing is skipped before
* `Yaml.IsPlain`: the words that are plain scalars
* `Yaml.EndsPlain`: what may follow a plain scalar
* `Yaml.isQuotable`: the characters that stand for themselves between quotes

## Main results

* `Yaml.ofText_ascii`: a printable ASCII text is read completely
* `Yaml.Cursor.toToken_append`: the next token behind spaces
* `Yaml.Cursor.plain_append`, `Yaml.Cursor.plain_newline`: plain scalars
* `Yaml.Cursor.quoted_append`: quoted scalars
-/

namespace LineScript

/-! ## ASCII texts -/

namespace Text

/-- The characters of an ASCII text, one for each byte. -/
def asciiChars (t : Text) : List Char := t.map fun b => Char.ofNat b.toNat

@[simp] theorem asciiChars_nil : asciiChars [] = [] := rfl

@[simp] theorem asciiChars_cons (b : UInt8) (t : Text) :
    asciiChars (b :: t) = Char.ofNat b.toNat :: asciiChars t := rfl

@[simp] theorem asciiChars_append (t u : Text) :
    asciiChars (t ++ u) = asciiChars t ++ asciiChars u := List.map_append

@[simp] theorem length_asciiChars (t : Text) : (asciiChars t).length = t.length :=
  List.length_map _

theorem encode_ascii {b : UInt8} (h : b.toNat < 0x80) :
    String.utf8EncodeChar (Char.ofNat b.toNat) = [b] := by
  have hchars : ∀ k < 0x80, String.utf8EncodeChar (Char.ofNat k) = [UInt8.ofNat k] := by decide
  rw [hchars b.toNat h, UInt8.ofNat_toNat]

theorem ofChars_asciiChars {t : Text} (h : ∀ b ∈ t, b.toNat < 0x80) :
    ofChars (asciiChars t) = t := by
  induction t with
  | nil => rfl
  | cons b t ih =>
    obtain ⟨hb, ht⟩ := List.forall_mem_cons.mp h
    rw [asciiChars_cons, ofChars, List.flatMap_cons, encode_ascii hb]
    exact congrArg (b :: ·) (ih ht)

end Text

namespace Yaml

/-! ## Sources -/

/-- The bytes of the documents here: printable ASCII, and the newline. -/
def isPlainByte (b : UInt8) : Bool := b = 10 || (0x20 ≤ b.toNat && b.toNat ≤ 0x7E)

section Source

variable {t : Text}

theorem lt_of_isPlainByte {b : UInt8} (h : isPlainByte b = true) : b.toNat < 0x80 := by
  simp only [isPlainByte, Bool.or_eq_true, decide_eq_true_eq, Bool.and_eq_true] at h
  rcases h with rfl | h
  · decide
  · omega

theorem isAllowed_of_isPlainByte {b : UInt8} (h : isPlainByte b = true) :
    isAllowed (Char.ofNat b.toNat) = true := by
  have hlt := lt_of_isPlainByte h
  have hchar : (Char.ofNat b.toNat).toNat = b.toNat := Text.toNat_charOfNat (Or.inl (by omega))
  simp only [isPlainByte, Bool.or_eq_true, decide_eq_true_eq, Bool.and_eq_true] at h
  simp only [isAllowed, hchar, Bool.or_eq_true, decide_eq_true_eq, Bool.and_eq_true]
  rcases h with rfl | h
  · decide
  · omega

theorem nextUtf8_of_lt {b : UInt8} (h : b.toNat < 0x80) (t : Text) :
    Encoding.nextUtf8 b t = .char (Char.ofNat b.toNat) 1 := by
  have hwidth : Encoding.width? b = some 1 := if_pos h
  have hdecode : Text.decode? (b :: t) = some (Char.ofNat b.toNat) := if_pos h
  simp [Encoding.nextUtf8, hwidth, hdecode]

theorem block_ascii (h : ∀ b ∈ t, isPlainByte b = true) :
    Source.block .utf8 0 t = some (t.asciiChars, []) := by
  induction t with
  | nil => rfl
  | cons b t ih =>
    obtain ⟨hb, ht⟩ := List.forall_mem_cons.mp h
    have hnext : Encoding.next .utf8 b t = .char (Char.ofNat b.toNat) 1 :=
      nextUtf8_of_lt (lt_of_isPlainByte hb) t
    rw [Source.block, hnext]
    simp [isAllowed_of_isPlainByte hb, ih ht]

theorem blocks_ascii {fuel size : Nat} (hfuel : t.length < fuel) (hsize : 0 < size)
    (h : ∀ b ∈ t, isPlainByte b = true) :
    Source.blocks .utf8 fuel size t = ⟨t.asciiChars, true⟩ := by
  induction fuel generalizing size t with
  | zero => exact absurd hfuel (Nat.not_lt_zero _)
  | succ fuel ih =>
    have htake : Source.block .utf8 0 (t.take size) = some (Text.asciiChars (t.take size), []) :=
      block_ascii fun b hb => h b (List.mem_of_mem_take hb)
    rw [Source.blocks, htake]
    cases hmore : t.drop size with
    | nil =>
      have hall : t.take size = t := List.take_of_length_le (List.drop_eq_nil_iff.mp hmore)
      simp [hall]
    | cons b more =>
      have hlength := congrArg List.length hmore
      rw [List.length_drop, List.length_cons] at hlength
      have hrest : ∀ b' ∈ b :: more, isPlainByte b' = true :=
        fun b' hb' => h b' (List.mem_of_mem_drop (hmore ▸ hb'))
      have hsource : Source.blocks .utf8 fuel Source.blockSize (b :: more) =
          ⟨Text.asciiChars (b :: more), true⟩ :=
        ih (by rw [List.length_cons]; omega) (by decide) hrest
      have hchars : t.asciiChars =
          Text.asciiChars (t.take size) ++ Text.asciiChars (b :: more) := by
        rw [← hmore, ← Text.asciiChars_append, List.take_append_drop]
      simp [hsource, hchars]

/-- **The source of an ASCII text** is complete, whatever its blocks are. -/
theorem ofText_ascii (h : ∀ b ∈ t, isPlainByte b = true) :
    Source.ofText t = ⟨t.asciiChars, true⟩ := by
  have hdetect : Encoding.detect t = (.utf8, 0) := by
    unfold Encoding.detect
    split
    · exact absurd (h _ List.mem_cons_self) (by decide)
    · exact absurd (h _ List.mem_cons_self) (by decide)
    · exact absurd (h _ List.mem_cons_self) (by decide)
    · rfl
  rw [Source.ofText, hdetect]
  exact blocks_ascii (Nat.lt_succ_self _) (by decide) h

end Source

/-! ## Places -/

namespace Cursor

variable {rest : List Char} {i l c : Nat}

/-- Every number of characters can be looked at in a complete source. -/
@[simp] theorem has_complete (rest : List Char) (i l c n : Nat) :
    has ⟨rest, true, i, l, c⟩ n = true := rfl

theorem skipWhile_append {w : List Char} {f : Char → Bool} (hw : ∀ d ∈ w, f d = true)
    (hrest : f (rest.headD endMark) = false) :
    skipWhile ⟨w ++ rest, true, i, l, c⟩ f = ⟨rest, true, i + w.length, l, c + w.length⟩ := by
  have hstop : rest.takeWhile f = [] ∧ rest.dropWhile f = rest := by
    cases rest with
    | nil => exact ⟨rfl, rfl⟩
    | cons d rest =>
      have hd : f d = false := hrest
      simp [hd]
  simp [skipWhile, run, List.span_eq_takeWhile_dropWhile, List.takeWhile_append_of_pos hw,
    List.dropWhile_append_of_pos hw, hstop]

/-- No line starts with a marker unless it starts with a dash or a dot. -/
theorem atMarker_of_column (rest : List Char) (i l : Nat) {c : Nat} (h : c ≠ 0) :
    atMarker ⟨rest, true, i, l, c⟩ = false := by
  simp [atMarker, h]

theorem atMarker_of_head {d : Char} (hdash : d ≠ '-') (hdot : d ≠ '.') :
    atMarker ⟨d :: rest, true, i, l, c⟩ = false := by
  simp [atMarker, List.isPrefixOf, hdash.symm, hdot.symm]

end Cursor

/-- Can a token start with this character, with no blanks, line ends or comments before it? -/
def isTokenStart (d : Char) : Bool := !isBlank d && !isBreak d && d ≠ '#' && d ≠ '\uFEFF'

theorem isTokenStart_iff {d : Char} :
    isTokenStart d = true ↔ isBlank d = false ∧ isBreak d = false ∧ d ≠ '#' ∧ d ≠ '\uFEFF' := by
  simp [isTokenStart, and_assoc]

theorem isWordEnd_eq_false {d : Char} :
    isWordEnd d = false ↔ isBlank d = false ∧ isBreak d = false ∧ d ≠ endMark := by
  simp [isWordEnd, isLineEnd]

namespace Cursor

variable {rest : List Char} {i l c fuel : Nat} {k : Bool}

/-- The next token comes behind some spaces, or behind the line end there. -/
theorem toToken_append {w : List Char} (hw : ∀ d ∈ w, d = ' ')
    (hblank : isBlank (rest.headD endMark) = false) (hcomment : rest.headD endMark ≠ '#')
    (hmark : rest.headD endMark ≠ '\uFEFF') :
    toToken false (fuel + 1) k ⟨w ++ rest, true, i, l, c⟩ =
      if isBreak (rest.headD endMark) then
        toToken false fuel true (skipLine ⟨rest, true, i + w.length, l, c + w.length⟩)
      else some (k, ⟨rest, true, i + w.length, l, c + w.length⟩) := by
  have hstart : head ⟨w ++ rest, true, i, l, c⟩ ≠ '\uFEFF' := by
    cases w with
    | nil => exact hmark
    | cons d w =>
      show d ≠ '\uFEFF'
      rw [hw d List.mem_cons_self]
      decide
  have hskip : skipWhile ⟨w ++ rest, true, i, l, c⟩
      (fun d => d = ' ' || ((false || !k) && d = '\t')) =
        ⟨rest, true, i + w.length, l, c + w.length⟩ := by
    apply skipWhile_append
    · intro d hd
      simp [hw d hd]
    · simp only [isBlank, Bool.or_eq_false_iff] at hblank
      simp [hblank, -List.headD_eq_head?_getD]
  have hhead : head ⟨rest, true, i + w.length, l, c + w.length⟩ = rest.headD endMark := rfl
  rw [toToken]
  simp only [has_complete, hstart, hskip, hhead, hcomment, Bool.and_false, decide_false,
    Bool.false_eq_true, if_false]
  cases hbreak : isBreak (rest.headD endMark) with
  | false => simp [hhead, hbreak, -List.headD_eq_head?_getD]
  | true => simp [hhead, hbreak, -List.headD_eq_head?_getD]

theorem toToken_of_head (h : isTokenStart (rest.headD endMark) = true) :
    toToken false (fuel + 1) k ⟨rest, true, i, l, c⟩ = some (k, ⟨rest, true, i, l, c⟩) := by
  obtain ⟨hblank, hbreak, hcomment, hmark⟩ := isTokenStart_iff.mp h
  have hfind : toToken false (fuel + 1) k ⟨[] ++ rest, true, i, l, c⟩ = _ :=
    toToken_append (by simp) hblank hcomment hmark
  simpa [hbreak, -List.headD_eq_head?_getD] using hfind

theorem toToken_space (h : isTokenStart (rest.headD endMark) = true) :
    toToken false (fuel + 1) k ⟨' ' :: rest, true, i, l, c⟩ =
      some (k, ⟨rest, true, i + 1, l, c + 1⟩) := by
  obtain ⟨hblank, hbreak, hcomment, hmark⟩ := isTokenStart_iff.mp h
  have hfind : toToken false (fuel + 1) k ⟨[' '] ++ rest, true, i, l, c⟩ = _ :=
    toToken_append (by simp) hblank hcomment hmark
  simpa [hbreak, -List.headD_eq_head?_getD] using hfind

theorem toToken_newline (h : isTokenStart (rest.headD endMark) = true) :
    toToken false (fuel + 2) k ⟨'\n' :: rest, true, i, l, c⟩ =
      some (true, ⟨rest, true, i + 1, l + 1, 0⟩) := by
  have hfind : toToken false (fuel + 2) k ⟨[] ++ '\n' :: rest, true, i, l, c⟩ = _ :=
    toToken_append (by simp) rfl (by simp) (by simp)
  exact hfind.trans (toToken_of_head h)

theorem countWhile_append {w : List Char} {f : Char → Bool} {limit : Nat}
    (hw : ∀ d ∈ w, f d = true) (hrest : f (rest.headD endMark) = false)
    (hlimit : w.length < limit) : countWhile f limit (w ++ rest) = w.length := by
  induction w generalizing limit with
  | nil =>
    obtain ⟨limit, rfl⟩ := Nat.exists_eq_add_one.mpr hlimit
    cases rest with
    | nil => rfl
    | cons d rest =>
      have hd : f d = false := hrest
      simp [countWhile, hd]
  | cons d w ih =>
    obtain ⟨limit, rfl⟩ := Nat.exists_eq_add_one.mpr (Nat.zero_lt_of_lt hlimit)
    obtain ⟨hd, hw⟩ := List.forall_mem_cons.mp hw
    simp [countWhile, hd, ih hw (Nat.lt_of_succ_lt_succ hlimit)]

/-- There is no comment behind a token that only few spaces separate from something else. -/
theorem lineComment_append {w : List Char} (hw : ∀ d ∈ w, d = ' ') (hlength : w.length ≤ 1)
    (hblank : isBlank (rest.headD endMark) = false) (hcomment : rest.headD endMark ≠ '#') :
    lineComment ⟨w ++ rest, true, i, l, c⟩ = some ⟨w ++ rest, true, i, l, c⟩ := by
  have hreach : w.length < commentReach := Nat.lt_of_le_of_lt hlength (by decide)
  have hcount : countWhile isBlank commentReach (w ++ rest) = w.length :=
    countWhile_append (fun d hd => by rw [hw d hd]; rfl) hblank hreach
  have hlook : look ⟨w ++ rest, true, i, l, c⟩ w.length = rest.headD endMark := by
    rw [look, List.getD_eq_getElem?_getD, List.getElem?_append_right (Nat.le_refl _),
      Nat.sub_self, List.headD_eq_head?_getD, List.head?_eq_getElem?]
  simp only [lineComment, hcount, has_complete, hlook, hcomment]
  simp

end Cursor

/-! ## Plain scalars -/

/-- A character that starts a plain scalar, whatever stands around it. -/
def isOrdinary (d : Char) : Bool :=
  !isWordEnd d && !isIndicator d && d ≠ '-' && d ≠ '?' && d ≠ ':' && d ≠ '\uFEFF'

/-- **A word that is read as a plain scalar** in block context. -/
structure IsPlain (w : List Char) : Prop where
  chars : ∀ d ∈ w, isWordEnd d = false ∧ d ≠ ':'
  opens : (∃ d w', w = d :: w' ∧ isOrdinary d = true) ∨ ∃ d w', w = '-' :: d :: w'

/-- No plain scalar of block context goes on here. -/
def EndsPlain (rest : List Char) : Prop := plainWord false rest = ([], rest)

section Plain

variable {w rest : List Char}

theorem endsPlain_nil : EndsPlain [] := rfl

theorem endsPlain_newline (rest : List Char) : EndsPlain ('\n' :: rest) := by
  simp [EndsPlain, plainWord, isWordEnd, isLineEnd, isBreak]

theorem endsPlain_colon (rest : List Char) : EndsPlain (':' :: ' ' :: rest) := by
  simp [EndsPlain, plainWord, isWordEnd, isBlank]

theorem plainWord_append (h : ∀ d ∈ w, isWordEnd d = false ∧ d ≠ ':') (hrest : EndsPlain rest) :
    plainWord false (w ++ rest) = (w, rest) := by
  induction w with
  | nil => exact hrest
  | cons d w ih =>
    obtain ⟨⟨hend, hcolon⟩, hw⟩ := List.forall_mem_cons.mp h
    simp [plainWord, hend, hcolon, ih hw]

/-- Where a plain scalar starts, nothing is skipped, and no directive starts. -/
theorem IsPlain.exists_cons (h : IsPlain w) :
    ∃ d w', w = d :: w' ∧ isTokenStart d = true ∧ d ≠ endMark ∧ d ≠ '%' := by
  rcases h.opens with ⟨d, w', rfl, hd⟩ | ⟨d, w', rfl⟩
  · refine ⟨d, w', rfl, ?_⟩
    simp only [isOrdinary, isIndicator, Bool.and_eq_true, Bool.not_eq_true', Bool.or_eq_false_iff,
      decide_eq_false_iff_not, decide_eq_true_eq] at hd
    simp [isTokenStart_iff, isWordEnd_eq_false.mp hd.1.1.1.1.1, hd]
  · exact ⟨'-', d :: w', rfl, rfl, by decide, by decide⟩

namespace Cursor

variable {i l c limit fuel : Nat}

/-- What is found of a plain scalar, up to what ends its first word. -/
theorem plainFrom_append (hw : IsPlain w) (hrest : EndsPlain rest)
    (hmarker : atMarker ⟨w ++ rest, true, i, l, c⟩ = false) :
    plain false limit (fuel + 1) ⟨w ++ rest, true, i, l, c⟩ =
      if isBlank (rest.headD endMark) || isBreak (rest.headD endMark) then do
        let (g, p) ← gap limit fuel .empty ⟨rest, true, i + w.length, l, c + w.length⟩
        if p.column < limit then some (w, g.folded, p)
        else plainFrom false limit fuel w.reverse g p
      else some (w, false, ⟨rest, true, i + w.length, l, c + w.length⟩) := by
  obtain ⟨d, w', rfl, hstart, -⟩ := hw.exists_cons
  have hcomment := (isTokenStart_iff.mp hstart).2.2.1
  have hword := plainWord_append hw.chars hrest
  have hhead : head ⟨d :: w' ++ rest, true, i, l, c⟩ = d := rfl
  rw [plain, plainFrom]
  simp only [has_complete, hmarker, hhead, hword, hcomment]
  simp [head, Gap.text, Gap.empty, List.reverseAux_eq]

/-- A plain scalar that ends on its line. -/
theorem plain_append (hw : IsPlain w) (hrest : EndsPlain rest)
    (hmarker : atMarker ⟨w ++ rest, true, i, l, c⟩ = false)
    (hblank : isBlank (rest.headD endMark) = false)
    (hbreak : isBreak (rest.headD endMark) = false) :
    plain false limit (fuel + 1) ⟨w ++ rest, true, i, l, c⟩ =
      some (w, false, ⟨rest, true, i + w.length, l, c + w.length⟩) := by
  rw [plainFrom_append hw hrest hmarker, hblank, hbreak]
  rfl

theorem gap_newline (h : isTokenStart (rest.headD endMark) = true) :
    gap limit (fuel + 2) .empty ⟨'\n' :: rest, true, i, l, c⟩ =
      some (⟨true, [], ['\n']⟩, ⟨rest, true, i + 1, l + 1, 0⟩) := by
  obtain ⟨hblank, hbreak, -, -⟩ := isTokenStart_iff.mp h
  have hfirst : isBlank '\n' = false ∧ isBreak '\n' = true := by decide
  simp [gap, head, skipLine, lineBreak, Gap.empty, hblank, hbreak, hfirst,
    -List.headD_eq_head?_getD]

/-- A plain scalar that ends with its line, before a line that is not indented. -/
theorem plain_newline (hw : IsPlain w) (h : isTokenStart (rest.headD endMark) = true)
    (hlimit : 0 < limit) (hmarker : atMarker ⟨w ++ '\n' :: rest, true, i, l, c⟩ = false) :
    plain false limit (fuel + 3) ⟨w ++ '\n' :: rest, true, i, l, c⟩ =
      some (w, true, ⟨rest, true, i + w.length + 1, l + 1, 0⟩) := by
  rw [plainFrom_append hw (endsPlain_newline rest) hmarker]
  simp [gap_newline h, isBreak, hlimit]

end Cursor

end Plain

/-! ## Quoted scalars -/

/-- A character that stands for itself between double quotes, and is no blank. -/
def isQuotable (d : Char) : Bool := !isWordEnd d && d ≠ '"' && d ≠ '\\'

namespace Cursor

variable {w b rest : List Char} {i l c fuel : Nat}

theorem quotedWord_append (h : ∀ d ∈ w, isQuotable d = true)
    (hrest : isWordEnd (rest.headD endMark) = true ∨ rest.headD endMark = '"')
    (hfuel : w.length < fuel) (done : List Char) :
    quotedWord false fuel done ⟨w ++ rest, true, i, l, c⟩ =
      some (w.reverse ++ done, false, ⟨rest, true, i + w.length, l, c + w.length⟩) := by
  induction w generalizing fuel i c done with
  | nil =>
    obtain ⟨fuel, rfl⟩ := Nat.exists_eq_add_one.mpr hfuel
    have hhead : head ⟨rest, true, i, l, c⟩ = rest.headD endMark := rfl
    rw [List.nil_append, quotedWord, hhead]
    rcases hrest with hend | hquote
    · simp only [hend]
      rfl
    · simp only [hquote]
      rfl
  | cons d w ih =>
    obtain ⟨fuel, rfl⟩ := Nat.exists_eq_add_one.mpr (Nat.zero_lt_of_lt hfuel)
    obtain ⟨hd, hw⟩ := List.forall_mem_cons.mp h
    simp only [isQuotable, Bool.and_eq_true, Bool.not_eq_true', decide_eq_true_eq] at hd
    have hhead : head ⟨d :: w ++ rest, true, i, l, c⟩ = d := rfl
    have hskip : skip ⟨d :: w ++ rest, true, i, l, c⟩ = ⟨w ++ rest, true, i + 1, l, c + 1⟩ := rfl
    rw [quotedWord, hhead, hskip]
    simp [hd, ih hw (Nat.lt_of_succ_lt_succ hfuel), Nat.add_assoc, Nat.add_comm 1]

theorem gap_blanks (h : ∀ d ∈ b, d = ' ') (hblank : isBlank (rest.headD endMark) = false)
    (hbreak : isBreak (rest.headD endMark) = false) (hfuel : b.length < fuel)
    (blanks : List Char) :
    gap 0 fuel ⟨false, blanks, []⟩ ⟨b ++ rest, true, i, l, c⟩ =
      some (⟨false, b.reverse ++ blanks, []⟩, ⟨rest, true, i + b.length, l, c + b.length⟩) := by
  induction b generalizing fuel i c blanks with
  | nil =>
    obtain ⟨fuel, rfl⟩ := Nat.exists_eq_add_one.mpr hfuel
    have hhead : head ⟨rest, true, i, l, c⟩ = rest.headD endMark := rfl
    rw [List.nil_append, gap, hhead, hblank, hbreak]
    rfl
  | cons d b ih =>
    obtain ⟨fuel, rfl⟩ := Nat.exists_eq_add_one.mpr (Nat.zero_lt_of_lt hfuel)
    obtain ⟨rfl, hb⟩ := List.forall_mem_cons.mp h
    have hhead : head ⟨' ' :: b ++ rest, true, i, l, c⟩ = ' ' := rfl
    have hskip : skip ⟨' ' :: b ++ rest, true, i, l, c⟩ = ⟨b ++ rest, true, i + 1, l, c + 1⟩ := rfl
    have hspace : isBlank ' ' = true := by decide
    rw [gap, hhead, hskip, hspace]
    simp [ih hb (Nat.lt_of_succ_lt_succ hfuel), Nat.add_assoc, Nat.add_comm 1]

/-- A text without line ends is a word, blanks, and a rest that starts with a word. -/
theorem exists_word_blanks (h : ∀ d ∈ w, isQuotable d = true ∨ d = ' ') :
    ∃ word blanks more, w = word ++ (blanks ++ more) ∧ (∀ d ∈ word, isQuotable d = true) ∧
      (∀ d ∈ blanks, d = ' ') ∧ (blanks = [] → more = []) ∧
      ∀ d ∈ more.head?, isQuotable d = true := by
  induction w with
  | nil => exact ⟨[], [], [], rfl, by simp⟩
  | cons d w ih =>
    obtain ⟨hd, hw⟩ := List.forall_mem_cons.mp h
    obtain ⟨word, blanks, more, rfl, hword, hblanks, hmore, hhead⟩ := ih hw
    rcases hd with hd | rfl
    · exact ⟨d :: word, blanks, more, rfl, List.forall_mem_cons.mpr ⟨hd, hword⟩, hblanks, hmore,
        hhead⟩
    · cases word with
      | nil =>
        exact ⟨[], ' ' :: blanks, more, rfl, by simp, List.forall_mem_cons.mpr ⟨rfl, hblanks⟩,
          by simp, hhead⟩
      | cons d word =>
        refine ⟨[], [' '], d :: word ++ (blanks ++ more), rfl, by simp, by simp, by simp, ?_⟩
        rintro _ ⟨⟩
        exact hword d List.mem_cons_self

theorem isQuotable_iff {d : Char} :
    isQuotable d = true ↔ isWordEnd d = false ∧ d ≠ '"' ∧ d ≠ '\\' := by
  simp [isQuotable, and_assoc]

/-- The rest of a double-quoted scalar without escapes on one line. The induction is on the fuel:
each round takes a word and the blanks behind it. -/
theorem quotedFrom_append (h : ∀ d ∈ w, isQuotable d = true ∨ d = ' ') (hcolumn : c ≠ 0)
    (hfuel : w.length + 1 < fuel) (done : List Char) :
    quotedFrom false fuel done ⟨w ++ '"' :: rest, true, i, l, c⟩ =
      some (done.reverse ++ w, ⟨rest, true, i + (w.length + 1), l, c + (w.length + 1)⟩) := by
  induction fuel generalizing w i c done with
  | zero => exact absurd hfuel (Nat.not_lt_zero _)
  | succ fuel ih =>
    have hend : atEnd ⟨w ++ '"' :: rest, true, i, l, c⟩ = false := by
      cases w with
      | nil => rfl
      | cons d w =>
        refine decide_eq_false ?_
        rintro rfl
        exact absurd (h endMark List.mem_cons_self) (by decide)
    have hmarker : atMarker ⟨w ++ '"' :: rest, true, i, l, c⟩ = false :=
      atMarker_of_column _ i l hcolumn
    rw [quotedFrom]
    simp only [has_complete, hend, hmarker]
    obtain ⟨word, blanks, more, rfl, hword, hblanks, hmore, hhead⟩ := exists_word_blanks h
    simp only [List.length_append] at hfuel
    cases blanks with
    | nil =>
      -- Without blanks the word reaches up to the closing quote.
      obtain rfl := hmore rfl
      have hscan : quotedWord false fuel done ⟨word ++ '"' :: rest, true, i, l, c⟩ = _ :=
        quotedWord_append hword (Or.inr rfl) (by omega) done
      simp [hscan, head, skip, Nat.add_assoc]
    | cons d blanks =>
      obtain rfl : d = ' ' := hblanks d List.mem_cons_self
      have hmem : ∀ d ∈ more, isQuotable d = true ∨ d = ' ' := fun d hd =>
        h d (List.mem_append_right _ (List.mem_append_right _ hd))
      have hnext : isWordEnd ((more ++ '"' :: rest).headD endMark) = false := by
        cases more with
        | nil => rfl
        | cons d more => exact (isQuotable_iff.mp (hhead d rfl)).1
      have hscan : quotedWord false fuel done
          ⟨word ++ (' ' :: blanks ++ (more ++ '"' :: rest)), true, i, l, c⟩ = _ :=
        quotedWord_append hword (Or.inl rfl) (by omega) done
      have hgap : gap 0 fuel .empty ⟨' ' :: blanks ++ (more ++ '"' :: rest), true,
          i + word.length, l, c + word.length⟩ = _ :=
        gap_blanks hblanks (isWordEnd_eq_false.mp hnext).1 (isWordEnd_eq_false.mp hnext).2.1
          (by omega) []
      simp only [List.length_cons] at hfuel
      simp only [List.append_assoc, hscan]
      show (gap 0 fuel .empty _).bind _ = _
      rw [hgap]
      show quotedFrom false fuel (((' ' :: blanks).reverse ++ []).reverse.reverseAux _) _ = _
      rw [ih hmem (by omega) (by omega)]
      simp [List.reverseAux_eq]
      omega

/-- **A double-quoted scalar** without escapes that starts within a line and ends on it. -/
theorem quoted_append (h : ∀ d ∈ w, isQuotable d = true ∨ d = ' ')
    (hfuel : w.length + 1 < fuel) :
    quoted false fuel ⟨'"' :: (w ++ '"' :: rest), true, i, l, c⟩ =
      some (w, ⟨rest, true, i + (w.length + 2), l, c + (w.length + 2)⟩) := by
  have hskip : skip ⟨'"' :: (w ++ '"' :: rest), true, i, l, c⟩ =
      ⟨w ++ '"' :: rest, true, i + 1, l, c + 1⟩ := rfl
  rw [quoted, hskip, quotedFrom_append h (Nat.add_one_ne_zero c) hfuel, Nat.add_assoc,
    Nat.add_assoc, Nat.add_comm 1]
  rfl

end Cursor

end Yaml

end LineScript

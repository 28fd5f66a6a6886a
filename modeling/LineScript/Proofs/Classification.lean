import LineScript.Line
import LineScript.Proofs.Words

/-!
# Which lines are indented, and which define functions

How control moves depends on the first bytes of a line only, and the bytes need not be well formed.
A line is indented when it starts with the encoding of a white-space code point. It defines a
function when it is the word `def`, alone or before such an encoding. The one is seen by reading a
single character, the other by splitting the whole line into words; they agree on what white space
is, since the first word of a line that is not indented is a piece of its front that ends at the
first white space.

Bytes that encode no character are never white space, whatever code point they resemble: those of
an encoding that breaks off, those of a code point spread over more bytes than it needs, and the
lone bytes `0x85` and `0xA0`, which are white-space code points but no encodings.

## Main definitions

* `whiteSpace`: the white-space code points of Unicode
* `Text.OpensWithSpace`: the text starts with the encoding of one of them
* `Text.IsMalformed`: the text starts with the encoding of no code point
* `Text.IsTruncated`, `Text.IsOverlong`: two ways to be malformed

## Main results

* `Text.exists_firstWord`: the first word of a text is its front up to the first white space
* `Text.isMalformed_of_isTruncated`, `Text.isMalformed_of_isOverlong`: no code point is encoded
  there
* `Line.classification_exact`: which lines are indented, and which define functions
-/

namespace LineScript

/-- The white-space code points of Unicode. -/
def whiteSpace : List Nat :=
  [0x09, 0x0A, 0x0B, 0x0C, 0x0D, 0x20, 0x85, 0xA0, 0x1680, 0x2000, 0x2001, 0x2002, 0x2003, 0x2004,
    0x2005, 0x2006, 0x2007, 0x2008, 0x2009, 0x200A, 0x2028, 0x2029, 0x202F, 0x205F, 0x3000]

theorem isBlankChar_iff {c : Char} : isBlankChar c = true ↔ c.toNat ∈ whiteSpace := by
  simp only [isBlankChar, whiteSpace, Bool.or_eq_true, Bool.and_eq_true, decide_eq_true_eq,
    beq_iff_eq, List.mem_cons, List.not_mem_nil, or_false]
  omega

namespace Text

variable {t u : Text}

/-! ## White space at the front -/

/-- The text starts with the encoding of a white-space code point. -/
def OpensWithSpace (t : Text) : Prop :=
  ∃ c : Char, c.toNat ∈ whiteSpace ∧ String.utf8EncodeChar c <+: t

theorem startsBlank_iff : t.startsBlank = true ↔ t.OpensWithSpace := by
  simp only [startsBlank, Option.any_eq_true, decode?_eq_some_iff]
  constructor
  · rintro ⟨c, ⟨r, rfl⟩, hc⟩
    exact ⟨c, isBlankChar_iff.mp hc, List.prefix_append _ r⟩
  · rintro ⟨c, hc, r, rfl⟩
    exact ⟨c, ⟨r, rfl⟩, isBlankChar_iff.mpr hc⟩

/-- A text has a front without white space, and what is behind it starts with white space. -/
theorem exists_front (t : Text) :
    ∃ w rest : Text, t = w ++ rest ∧ (∀ g ∈ w.glyphs, g.isBlank = false) ∧
      (rest = [] ∨ rest.OpensWithSpace) := by
  let front := t.glyphs.takeWhile fun g => !g.isBlank
  let back := t.glyphs.dropWhile fun g => !g.isBlank
  have hglyphs : t.glyphs = front ++ back := List.takeWhile_append_dropWhile.symm
  refine ⟨front.flatMap Glyph.bytes, back.flatMap Glyph.bytes, ?_, ?_, ?_⟩
  · rw [← List.flatMap_append, ← hglyphs, flatMap_bytes_glyphs]
  · -- read by itself, the front has the glyphs that it has in the text
    rw [glyphs_of_front hglyphs]
    intro g hg
    simpa using List.all_eq_true.mp List.all_takeWhile g hg
  · cases hback : back with
    | nil => exact Or.inl rfl
    | cons g gs =>
      have hg := List.head?_dropWhile_not (fun g : Glyph => !g.isBlank) t.glyphs
      rw [show t.glyphs.dropWhile _ = g :: gs from hback, List.head?_cons] at hg
      cases g with
      | stray b => cases hg
      | char c =>
        have hc : isBlankChar c = true := by simpa [Glyph.isBlank] using hg
        exact Or.inr ⟨c, isBlankChar_iff.mp hc, List.prefix_append _ _⟩

/-- **The first word of a text is its front up to the first white space**, if the text does not
start with white space. -/
theorem exists_firstWord (hne : t ≠ []) (h : ¬ t.OpensWithSpace) :
    ∃ w rest : Text, t = w ++ rest ∧ w.IsWord ∧ (rest = [] ∨ rest.OpensWithSpace) ∧
      t.words.head? = some w := by
  obtain ⟨w, rest, rfl, hglyphs, hrest⟩ := exists_front t
  have hw : w.IsWord := by
    refine ⟨?_, hglyphs⟩
    rintro rfl
    rcases hrest with rfl | hrest
    · exact hne rfl
    · exact h hrest
  refine ⟨w, rest, rfl, hw, hrest, ?_⟩
  rcases hrest with rfl | ⟨c, hc, r, rfl⟩
  · rw [List.append_nil, words_of_isWord hw]
    rfl
  · rw [words_append_blank hw (isBlankChar_iff.mpr hc)]
    rfl

/-! ## Bytes that encode nothing -/

/-- The text is not empty, and it starts with the encoding of no code point. -/
def IsMalformed (t : Text) : Prop :=
  t ≠ [] ∧ ∀ c : Char, ¬ String.utf8EncodeChar c <+: t

/-- The text starts with some bytes of an encoding, but not with all of them. -/
def IsTruncated (t : Text) : Prop :=
  ∃ (c : Char) (front rest : Text), t = front ++ rest ∧ front ≠ [] ∧
    front <+: String.utf8EncodeChar c ∧ front ≠ String.utf8EncodeChar c ∧
    ∀ b ∈ rest.head?, ¬ (0x80 ≤ b.toNat ∧ b.toNat < 0xC0)

/-- The bytes of a number in the form that encodings of the given length have. -/
def spread (n : Nat) : (length : Nat) → Text
  | 2 => [UInt8.ofNat (n / 64 + 192), UInt8.ofNat (n % 64 + 128)]
  | 3 => [UInt8.ofNat (n / 4096 + 224), UInt8.ofNat (n / 64 % 64 + 128), UInt8.ofNat (n % 64 + 128)]
  | 4 => [UInt8.ofNat (n / 262144 + 240), UInt8.ofNat (n / 4096 % 64 + 128),
      UInt8.ofNat (n / 64 % 64 + 128), UInt8.ofNat (n % 64 + 128)]
  | _ => [UInt8.ofNat n]

/-- The text starts with a code point that is spread over more bytes than it needs. -/
inductive IsOverlong : Text → Prop
  | two {n : Nat} (h : n < 0x80) (rest : Text) : IsOverlong (spread n 2 ++ rest)
  | three {n : Nat} (h : n < 0x800) (rest : Text) : IsOverlong (spread n 3 ++ rest)
  | four {n : Nat} (h : n < 0x10000) (rest : Text) : IsOverlong (spread n 4 ++ rest)

theorem isMalformed_iff : t.IsMalformed ↔ t ≠ [] ∧ decode? t = none := by
  unfold IsMalformed
  rw [Option.eq_none_iff_forall_ne_some]
  refine and_congr_right fun _ => forall_congr' fun c => not_congr ?_
  rw [decode?_eq_some_iff]
  exact exists_congr fun r => eq_comm

theorem IsMalformed.not_opensWithSpace (h : t.IsMalformed) : ¬ t.OpensWithSpace := by
  rintro ⟨c, -, hc⟩
  exact h.2 c hc

/-- A lone byte of those that continue an encoding starts none. -/
theorem isMalformed_cons {b : UInt8} (h : 0x80 ≤ b.toNat ∧ b.toNat < 0xC0) (t : Text) :
    IsMalformed (b :: t) :=
  isMalformed_iff.mpr ⟨List.cons_ne_nil b t, decode?_of_continuation? (if_pos h) t⟩

/-- No encoding starts with another one. -/
theorem eq_of_encode_prefix {c c' : Char}
    (h : String.utf8EncodeChar c' <+: String.utf8EncodeChar c) : c' = c := by
  obtain ⟨r, hr⟩ := h
  have hread := decode?_encode c []
  rw [List.append_nil, ← hr, decode?_encode] at hread
  exact Option.some.inj hread

/-- **An encoding that breaks off is none.** Another one that starts with the same bytes would have
to go on with a continuation byte. -/
theorem isMalformed_of_isTruncated (h : t.IsTruncated) : t.IsMalformed := by
  obtain ⟨c, front, rest, rfl, hne, hfront, hpart, hrest⟩ := h
  refine ⟨fun hnil => hne (List.append_eq_nil_iff.mp hnil).1, fun c' hc' => ?_⟩
  have hwithin : ¬ String.utf8EncodeChar c' <+: front := by
    intro hc
    obtain rfl := eq_of_encode_prefix (hc.trans hfront)
    exact hpart (hfront.eq_of_length_le hc.length_le)
  rcases List.prefix_or_prefix_of_prefix hc' (List.prefix_append front rest) with hc | ⟨v, hv⟩
  · exact hwithin hc
  · rcases v with _ | ⟨b, v⟩
    · rw [List.append_nil] at hv
      exact hwithin (hv ▸ List.prefix_rfl)
    · have hb : b ∈ (String.utf8EncodeChar c').tail := by
        rw [← hv, List.tail_append_of_ne_nil hne]
        simp
      have hhead : b ∈ rest.head? := by
        rw [← hv, List.prefix_append_right_inj] at hc'
        obtain ⟨r, rfl⟩ := hc'
        rfl
      obtain ⟨x, hx⟩ := continuation?_of_mem_tail hb
      refine hrest b hhead (Decidable.of_not_not fun hrange => ?_)
      rw [continuation?, if_neg hrange] at hx
      cases hx

theorem scalar?_of_lt {least value : Nat} (h : value < least) : scalar? least value = none :=
  if_neg fun hle => Nat.not_le.mpr h hle.1

/-- **A code point that is spread over too many bytes is not encoded.** -/
theorem isMalformed_of_isOverlong (h : t.IsOverlong) : t.IsMalformed := by
  rw [isMalformed_iff]
  have hlow : ∀ n : Nat, continuation? (UInt8.ofNat (n % 64 + 128)) = some (n % 64) :=
    fun n => continuation?_ofNat (Nat.mod_lt n (by decide))
  cases h with
  | @two n h rest =>
    have ha : (UInt8.ofNat (n / 64 + 192)).toNat = n / 64 + 192 := by
      rw [UInt8.toNat_ofNat']
      omega
    refine ⟨List.cons_ne_nil _ _, ?_⟩
    simp only [spread, List.cons_append, decode?, ha, hlow]
    rw [if_neg (by omega), if_neg (by omega), if_pos (by omega)]
    exact scalar?_of_lt (by omega)
  | @three n h rest =>
    have ha : (UInt8.ofNat (n / 4096 + 224)).toNat = n / 4096 + 224 := by
      rw [UInt8.toNat_ofNat']
      omega
    refine ⟨List.cons_ne_nil _ _, ?_⟩
    simp only [spread, List.cons_append, decode?, ha, hlow]
    rw [if_neg (by omega), if_neg (by omega), if_neg (by omega), if_pos (by omega)]
    exact scalar?_of_lt (by omega)
  | @four n h rest =>
    have ha : (UInt8.ofNat (n / 262144 + 240)).toNat = n / 262144 + 240 := by
      rw [UInt8.toNat_ofNat']
      omega
    refine ⟨List.cons_ne_nil _ _, ?_⟩
    simp only [spread, List.cons_append, decode?, ha, hlow]
    rw [if_neg (by omega), if_neg (by omega), if_neg (by omega), if_neg (by omega),
      if_pos (by omega)]
    exact scalar?_of_lt (by omega)

end Text

namespace Line

/-! ## Lines -/

theorem isIndented_iff {line : Text} : isIndented line = true ↔ line.OpensWithSpace :=
  Text.startsBlank_iff

theorem isIndented_eq_false_iff {line : Text} :
    isIndented line = false ↔ ¬ line.OpensWithSpace := by
  rw [← isIndented_iff, Bool.not_eq_true]

/-- A definition is the word that opens it, alone or before white space. -/
theorem isDefinition_iff {line : Text} :
    isDefinition line = true ↔
      line = utf8 "def" ∨ ∃ rest, line = utf8 "def" ++ rest ∧ rest.OpensWithSpace := by
  have hword : (utf8 "def").IsWord := by decide
  have hstart : ∀ rest, ¬ Text.OpensWithSpace (utf8 "def" ++ rest) := by
    intro rest
    rw [← Text.startsBlank_iff, Text.startsBlank]
    simp [show Text.decode? (utf8 "def" ++ rest) = some 'd' from rfl, isBlankChar]
  rw [isDefinition, Bool.and_eq_true, Bool.not_eq_true', isIndented_eq_false_iff,
    decide_eq_true_iff, definitionWord]
  constructor
  · rintro ⟨hspace, hhead⟩
    have hne : line ≠ [] := by
      rintro rfl
      cases hhead
    obtain ⟨w, rest, rfl, -, hrest, hw⟩ := Text.exists_firstWord hne hspace
    obtain rfl : w = utf8 "def" := Option.some.inj (hw.symm.trans hhead)
    rcases hrest with rfl | hrest
    · exact Or.inl (List.append_nil _)
    · exact Or.inr ⟨rest, rfl, hrest⟩
  · rintro (rfl | ⟨_, rfl, c, hc, rest, rfl⟩)
    · refine ⟨hstart [], ?_⟩
      rw [Text.words_of_isWord hword]
      rfl
    · refine ⟨hstart _, ?_⟩
      rw [Text.words_append_blank hword (isBlankChar_iff.mpr hc)]
      rfl

/-- Bytes that encode nothing do not end the word `def`. -/
theorem not_isDefinition_of_isMalformed {t : Text} (h : t.IsMalformed) :
    isDefinition (utf8 "def" ++ t) = false := by
  refine Bool.eq_false_iff.mpr fun hdef => ?_
  rcases isDefinition_iff.mp hdef with hword | ⟨rest, htext, hrest⟩
  · exact h.1 (List.append_right_eq_self.mp hword)
  · rw [← List.append_cancel_left htext] at hrest
    exact h.not_opensWithSpace hrest

/-- **Lines are classified exactly**, byte by byte. A line is indented if and only if it starts with
the encoding of a white-space code point, and it defines a function if and only if it is the word
`def`, alone or before such an encoding. The first word of any other line that is not empty and not
indented is a piece of its front as well. Bytes that encode no code point are never white space, at
the front of a line or behind `def`; among them are the lone bytes `0x85` and `0xA0`, encodings that
break off, and overlong ones. -/
theorem classification_exact (line : Text) :
    (isDefinition line = true ↔
      line = utf8 "def" ∨ ∃ rest, line = utf8 "def" ++ rest ∧ rest.OpensWithSpace) ∧
    (isIndented line = true ↔ line.OpensWithSpace) ∧
    (line ≠ [] → isIndented line = false →
      ∃ w, line.words.head? = some w ∧ w ≠ [] ∧ w <+: line) ∧
    (line.IsMalformed → isIndented line = false ∧ isDefinition (utf8 "def" ++ line) = false) ∧
    (line.head? = some 0x85 ∨ line.head? = some 0xA0 ∨ line.IsTruncated ∨ line.IsOverlong →
      line.IsMalformed) := by
  refine ⟨isDefinition_iff, isIndented_iff, fun hne hline => ?_, fun hline => ?_, ?_⟩
  · obtain ⟨w, rest, rfl, hw, -, hhead⟩ :=
      Text.exists_firstWord hne (isIndented_eq_false_iff.mp hline)
    exact ⟨w, hhead, hw.1, List.prefix_append w rest⟩
  · exact ⟨isIndented_eq_false_iff.mpr hline.not_opensWithSpace,
      not_isDefinition_of_isMalformed hline⟩
  · rintro (hhead | hhead | htruncated | hoverlong)
    · obtain ⟨rest, rfl⟩ := List.head?_eq_some_iff.mp hhead
      exact Text.isMalformed_cons (by decide) rest
    · obtain ⟨rest, rfl⟩ := List.head?_eq_some_iff.mp hhead
      exact Text.isMalformed_cons (by decide) rest
    · exact Text.isMalformed_of_isTruncated htruncated
    · exact Text.isMalformed_of_isOverlong hoverlong

/-- An ideographic space ends the word `def`; two of its three bytes do not, and neither does a tab
that is spread over two bytes. A lone byte `0x85` starts a word. -/
theorem classification_of_lookalikes :
    isDefinition (utf8 "def\u3000f") = true ∧
      (isIndented [0xE3, 0x80] = false ∧ isDefinition (utf8 "def" ++ [0xE3, 0x80]) = false) ∧
      (isIndented [0xC0, 0x89] = false ∧ isDefinition (utf8 "def" ++ [0xC0, 0x89]) = false) ∧
      isIndented [0x85, 0x20] = false ∧
      ∃ w, (Text.words [0x85, 0x20]).head? = some w ∧ w ≠ [] ∧ w <+: [0x85, 0x20] := by
  obtain ⟨hdefinition, -⟩ := classification_exact (utf8 "def\u3000f")
  obtain ⟨-, -, -, htruncated, hcut⟩ := classification_exact [0xE3, 0x80]
  obtain ⟨-, -, -, hoverlong, hspread⟩ := classification_exact [0xC0, 0x89]
  obtain ⟨-, -, hfirst, hlone, hbyte⟩ := classification_exact [0x85, 0x20]
  have hpart : Text.IsTruncated [0xE3, 0x80] :=
    ⟨'\u3000', [0xE3, 0x80], [], rfl, by decide, ⟨[0x80], by decide⟩, by decide, by simp⟩
  have hindented := (hlone (hbyte (Or.inl rfl))).1
  exact ⟨hdefinition.mpr (Or.inr ⟨utf8 "\u3000f", rfl, '\u3000', by decide, utf8 "f", rfl⟩),
    htruncated (hcut (Or.inr (Or.inr (Or.inl hpart)))),
    hoverlong (hspread (Or.inr (Or.inr (Or.inr (.two (by decide : 9 < 0x80) []))))),
    hindented, hfirst (by decide) hindented⟩

end Line

end LineScript

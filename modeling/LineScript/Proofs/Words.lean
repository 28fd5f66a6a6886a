import LineScript.Text.Blank
import LineScript.Text.Utf8

/-!
# Words and blank texts

Splitting a text takes it apart at its white space. What is left between are words, and a word is
split no further: read by itself it has the glyphs that it has inside the text, although the bytes
around it are gone. So a keyword, a space and a word make a text of two words again.

## Main definitions

* `Text.IsWord`: a text that is one word
* `Text.IsBlank`: a text of white space only

## Main results

* `Text.glyphs_of_middle`: consecutive glyphs of a text are read again without the rest
* `Text.glyphs_append`: a text may be cut where a character starts
* `Text.isWord_of_mem_words`: the words of a text are words
* `Text.words_of_isWord`, `Text.words_of_isBlank`: words are split no further, and white space has
  none
* `Text.words_append_blank`: white space ends a word
* `Text.words_utf8_append`: the words behind a keyword
-/

namespace LineScript

namespace Text

/-! ## Reading glyph by glyph -/

section Infix

variable {t : Text} {xs ys zs : List Glyph}

/-- The last glyphs of a text are read again without those before them. -/
theorem glyphs_of_suffix (h : t.glyphs = xs ++ ys) : glyphs (ys.flatMap Glyph.bytes) = ys := by
  induction t using glyphs_induction generalizing xs with
  | nil =>
    obtain ⟨-, rfl⟩ := List.append_eq_nil_iff.mp h.symm
    rfl
  | char c t ih =>
    rcases xs with _ | ⟨x, xs⟩
    · rw [List.nil_append] at h
      rw [← h, flatMap_bytes_glyphs]
    · rw [glyphs_encode_append, List.cons_append] at h
      exact ih (List.cons.inj h).2
  | stray b t hb ih =>
    rcases xs with _ | ⟨x, xs⟩
    · rw [List.nil_append] at h
      rw [← h, flatMap_bytes_glyphs]
    · rw [glyphs_cons_of_decode?_eq_none hb, List.cons_append] at h
      exact ih (List.cons.inj h).2

/-- The first glyphs of a text are read again without those behind them. -/
theorem glyphs_of_front (h : t.glyphs = xs ++ ys) : glyphs (xs.flatMap Glyph.bytes) = xs := by
  induction t using glyphs_induction generalizing xs with
  | nil =>
    obtain ⟨rfl, -⟩ := List.append_eq_nil_iff.mp h.symm
    rfl
  | char c t ih =>
    rcases xs with _ | ⟨x, xs⟩
    · rfl
    · rw [glyphs_encode_append, List.cons_append] at h
      obtain ⟨rfl, htail⟩ := List.cons.inj h
      rw [List.flatMap_cons, Glyph.bytes, glyphs_encode_append, ih htail]
  | stray b t hb ih =>
    rcases xs with _ | ⟨x, xs⟩
    · rfl
    · rw [glyphs_cons_of_decode?_eq_none hb, List.cons_append] at h
      obtain ⟨rfl, htail⟩ := List.cons.inj h
      -- a character that the byte started here would start with it in the whole text
      have hnone : decode? (b :: xs.flatMap Glyph.bytes) = none := by
        refine Option.eq_none_iff_forall_ne_some.mpr fun c hc => ?_
        obtain ⟨r, hr⟩ := eq_encode_of_decode? hc
        have htext : b :: t = String.utf8EncodeChar c ++ (r ++ ys.flatMap Glyph.bytes) := by
          rw [← List.append_assoc, ← hr, List.cons_append, ← List.flatMap_append, ← htail,
            flatMap_bytes_glyphs]
        rw [htext, decode?_encode] at hb
        cases hb
      rw [List.flatMap_cons, Glyph.bytes, List.singleton_append,
        glyphs_cons_of_decode?_eq_none hnone, ih htail]

/-- **Consecutive glyphs of a text are read again without the rest.** -/
theorem glyphs_of_middle (h : t.glyphs = xs ++ (ys ++ zs)) :
    glyphs (ys.flatMap Glyph.bytes) = ys :=
  glyphs_of_front (glyphs_of_suffix h)

end Infix

/-- Behind its first byte, the encoding of a character consists of continuation bytes. -/
theorem continuation?_of_mem_tail {c : Char} {b : UInt8}
    (h : b ∈ (String.utf8EncodeChar c).tail) : ∃ x, continuation? b = some x := by
  have hlow : ∀ n : Nat, ∃ x, continuation? (UInt8.ofNat (n % 64 + 128)) = some x :=
    fun n => ⟨n % 64, continuation?_ofNat (Nat.mod_lt n (by decide))⟩
  unfold String.utf8EncodeChar at h
  dsimp only at h
  split at h
  · cases h
  · split at h
    · simp only [List.tail_cons, List.mem_singleton] at h
      rw [h]
      exact hlow _
    · split at h
      · simp only [List.tail_cons, List.mem_cons, List.not_mem_nil, or_false] at h
        rcases h with rfl | rfl
        · exact hlow _
        · exact hlow _
      · simp only [List.tail_cons, List.mem_cons, List.not_mem_nil, or_false] at h
        rcases h with rfl | rfl | rfl
        · exact hlow _
        · exact hlow _
        · exact hlow _

/-- No character starts with a continuation byte. -/
theorem decode?_of_continuation? {b : UInt8} {x : Nat} (h : continuation? b = some x) (t : Text) :
    decode? (b :: t) = none := by
  unfold continuation? at h
  split at h
  · next hb => simp only [decode?, if_neg (Nat.not_lt.mpr hb.1), if_pos hb.2]
  · cases h

/-- Where a character starts, the bytes before it are read as if it was not there. -/
theorem decode?_append {t u : Text} (hu : decode? u ≠ none) (hne : t ≠ [])
    (ht : decode? t = none) : decode? (t ++ u) = none := by
  refine Option.eq_none_iff_forall_ne_some.mpr fun c hc => ?_
  obtain ⟨r, hr⟩ := eq_encode_of_decode? hc
  rcases List.append_eq_append_iff.mp hr with ⟨v, hv, hu'⟩ | ⟨v, hv, -⟩
  · rcases v with _ | ⟨b, v⟩
    · -- the character ends where `u` starts
      rw [List.append_nil] at hv
      rw [← hv, ← List.append_nil (String.utf8EncodeChar c), decode?_encode] at ht
      cases ht
    · -- the character would go on in `u`
      have hb : b ∈ (String.utf8EncodeChar c).tail := by
        rw [hv, List.tail_append_of_ne_nil hne]
        simp
      obtain ⟨x, hx⟩ := continuation?_of_mem_tail hb
      rw [hu', List.cons_append, decode?_of_continuation? hx] at hu
      exact hu rfl
  · rw [hv, decode?_encode] at ht
    cases ht

/-- **A text may be cut where a character starts.** -/
theorem glyphs_append {u : Text} (hu : decode? u ≠ none) (t : Text) :
    glyphs (t ++ u) = glyphs t ++ glyphs u := by
  induction t using glyphs_induction with
  | nil => rfl
  | char c t ih => rw [List.append_assoc, glyphs_encode_append, glyphs_encode_append, ih,
      List.cons_append]
  | stray b t hb ih =>
    have hb' : decode? (b :: (t ++ u)) = none := decode?_append hu (List.cons_ne_nil b t) hb
    rw [List.cons_append, glyphs_cons_of_decode?_eq_none hb', glyphs_cons_of_decode?_eq_none hb, ih,
      List.cons_append]

theorem glyphs_utf8_append (s : String) (t : Text) :
    glyphs (utf8 s ++ t) = s.toList.map .char ++ glyphs t := by
  unfold utf8
  induction s.toList with
  | nil => rfl
  | cons c cs ih =>
    rw [List.flatMap_cons, List.append_assoc, glyphs_encode_append, ih, List.map_cons,
      List.cons_append]

/-! ## Words -/

/-- The text is one word: it is not empty and holds no white space. -/
def IsWord (t : Text) : Prop := t ≠ [] ∧ ∀ g ∈ t.glyphs, g.isBlank = false

/-- The text is white space only, or empty. -/
def IsBlank (t : Text) : Prop := ∀ g ∈ t.glyphs, g.isBlank = true

instance (t : Text) : Decidable t.IsWord := inferInstanceAs (Decidable (_ ∧ _))

instance (t : Text) : Decidable t.IsBlank := inferInstanceAs (Decidable (∀ g ∈ t.glyphs, _))

/-- Glyphs that are not blank continue the word behind them. -/
theorem foldr_prependGlyph {gs : List Glyph} (h : ∀ g ∈ gs, g.isBlank = false) (word : Text)
    (words : List Text) :
    gs.foldr prependGlyph (word, words) = (gs.flatMap Glyph.bytes ++ word, words) := by
  induction gs with
  | nil => rfl
  | cons g gs ih =>
    obtain ⟨hg, hgs⟩ := List.forall_mem_cons.mp h
    rw [List.foldr_cons, ih hgs, prependGlyph, hg, List.flatMap_cons, List.append_assoc]
    rfl

/-- **A word is split no further.** -/
theorem words_of_isWord {t : Text} (h : t.IsWord) : t.words = [t] := by
  obtain ⟨hne, hglyphs⟩ := h
  rw [words, foldr_prependGlyph hglyphs, flatMap_bytes_glyphs, List.append_nil]
  simp [closeWord, hne]

theorem words_of_isBlank {t : Text} (h : t.IsBlank) : t.words = [] := by
  have hfold : ∀ gs : List Glyph, (∀ g ∈ gs, g.isBlank = true) →
      gs.foldr prependGlyph ([], []) = ([], []) := by
    intro gs
    induction gs with
    | nil => exact fun _ => rfl
    | cons g gs ih =>
      intro hgs
      obtain ⟨hg, hrest⟩ := List.forall_mem_cons.mp hgs
      rw [List.foldr_cons, ih hrest, prependGlyph, hg]
      rfl
  rw [words, hfold t.glyphs h]
  rfl

theorem startsBlank_of_isBlank {t : Text} (h : t.IsBlank) (hne : t ≠ []) :
    t.startsBlank = true := by
  unfold IsBlank at h
  rcases glyphs_cases t with rfl | ⟨c, t, rfl⟩ | ⟨b, t, rfl, hb⟩
  · exact absurd rfl hne
  · rw [glyphs_encode_append] at h
    rw [startsBlank, decode?_encode]
    exact h _ List.mem_cons_self
  · rw [glyphs_cons_of_decode?_eq_none hb] at h
    cases h _ List.mem_cons_self

/-- A word that is closed is one, if its glyphs are read again. -/
theorem isWord_of_mem_closeWord {xs : List Glyph} {words : List Text} {w : Text}
    (hread : glyphs (xs.flatMap Glyph.bytes) = xs) (hxs : ∀ g ∈ xs, g.isBlank = false)
    (hwords : ∀ w ∈ words, w.IsWord) (h : w ∈ closeWord (xs.flatMap Glyph.bytes) words) :
    w.IsWord := by
  unfold closeWord at h
  split at h
  · exact hwords w h
  · next hne =>
    rcases List.mem_cons.mp h with rfl | h
    · refine ⟨by simpa using hne, ?_⟩
      rwa [hread]
    · exact hwords w h

/-- What is split off the end of a text: words, and the glyphs of a word that is still open. -/
theorem foldr_prependGlyph_spec {t : Text} {before gs : List Glyph} (h : t.glyphs = before ++ gs) :
    (∃ xs ys, gs = xs ++ ys ∧ (gs.foldr prependGlyph ([], [])).1 = xs.flatMap Glyph.bytes ∧
        ∀ g ∈ xs, g.isBlank = false) ∧
      ∀ w ∈ (gs.foldr prependGlyph ([], [])).2, w.IsWord := by
  induction gs generalizing before with
  | nil => exact ⟨⟨[], [], rfl, rfl, by simp⟩, by simp⟩
  | cons g gs ih =>
    rw [List.append_cons] at h
    obtain ⟨⟨xs, ys, hgs, hword, hxs⟩, hwords⟩ := ih h
    rw [List.foldr_cons]
    generalize gs.foldr prependGlyph ([], []) = split at hword hwords
    obtain ⟨word, words⟩ := split
    obtain rfl : word = xs.flatMap Glyph.bytes := hword
    cases hg : g.isBlank with
    | false =>
      rw [prependGlyph, hg]
      exact ⟨⟨g :: xs, ys, congrArg (g :: ·) hgs, rfl, List.forall_mem_cons.mpr ⟨hg, hxs⟩⟩, hwords⟩
    | true =>
      -- white space closes the open word, which is read by itself as it was in the text
      rw [hgs] at h
      rw [prependGlyph, hg]
      exact ⟨⟨[], g :: gs, rfl, rfl, by simp⟩,
        fun w hw => isWord_of_mem_closeWord (glyphs_of_middle h) hxs hwords hw⟩

/-- **The words of a text are words.** -/
theorem isWord_of_mem_words {t w : Text} (h : w ∈ t.words) : w.IsWord := by
  have hglyphs : t.glyphs = [] ++ t.glyphs := rfl
  obtain ⟨⟨xs, ys, hgs, hword, hxs⟩, hwords⟩ := foldr_prependGlyph_spec hglyphs
  unfold words at h
  generalize t.glyphs.foldr prependGlyph ([], []) = split at h hword hwords
  obtain ⟨word, words⟩ := split
  obtain rfl : word = xs.flatMap Glyph.bytes := hword
  exact isWord_of_mem_closeWord (glyphs_of_front hgs) hxs hwords h

/-- **White space ends a word.** -/
theorem words_append_blank {w : Text} (hw : w.IsWord) {c : Char} (hc : isBlankChar c = true)
    (t : Text) : words (w ++ (String.utf8EncodeChar c ++ t)) = w :: t.words := by
  have hchar : decode? (String.utf8EncodeChar c ++ t) ≠ none := by
    rw [decode?_encode]
    exact Option.some_ne_none c
  have hfold : (Glyph.char c :: t.glyphs).foldr prependGlyph ([], []) = ([], t.words) := by
    rw [List.foldr_cons, prependGlyph, Glyph.isBlank, if_pos hc]
    rfl
  rw [words, glyphs_append hchar, glyphs_encode_append, List.foldr_append, hfold,
    foldr_prependGlyph hw.2, flatMap_bytes_glyphs, List.append_nil]
  simp [closeWord, hw.1]

/-- White space behind a word is no part of it. -/
theorem words_append_isBlank {w t : Text} (hw : w.IsWord) (ht : t.IsBlank) :
    words (w ++ t) = [w] := by
  unfold IsBlank at ht
  rcases glyphs_cases t with rfl | ⟨c, t, rfl⟩ | ⟨b, t, rfl, hb⟩
  · rw [List.append_nil, words_of_isWord hw]
  · rw [glyphs_encode_append] at ht
    obtain ⟨hc, ht⟩ := List.forall_mem_cons.mp ht
    rw [words_append_blank hw hc, words_of_isBlank ht]
  · rw [glyphs_cons_of_decode?_eq_none hb] at ht
    cases ht _ List.mem_cons_self

theorem isWord_utf8 {s : String} (hs : utf8 s ≠ []) (hblank : s.toList.any isBlankChar = false) :
    (utf8 s).IsWord := by
  refine ⟨hs, fun g hg => ?_⟩
  have hglyphs := glyphs_utf8_append s []
  rw [List.append_nil, glyphs_nil, List.append_nil] at hglyphs
  rw [hglyphs] at hg
  obtain ⟨c, hc, rfl⟩ := List.mem_map.mp hg
  exact Bool.eq_false_iff.mpr (List.any_eq_false.mp hblank c hc)

/-- **The words behind a keyword** and a space. -/
theorem words_utf8_append {s : String} (hs : utf8 s ≠ [])
    (hblank : s.toList.any isBlankChar = false) (t : Text) :
    words (utf8 s ++ (utf8 " " ++ t)) = utf8 s :: t.words := by
  have hspace : isBlankChar ' ' = true := rfl
  exact words_append_blank (isWord_utf8 hs hblank) hspace t

end Text

end LineScript

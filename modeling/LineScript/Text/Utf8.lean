import LineScript.Text.Glyph

/-!
# Reading and writing UTF-8

`Text.decode?` and `Text.glyphs` read what `String.utf8EncodeChar` writes, and nothing else: a
text starts with a character exactly when it starts with that character's encoding, and cutting
a text into glyphs loses no byte.

## Main results

* `Text.decode?_eq_some_iff`: the character at the start of a text is the one whose encoding
  starts it
* `Text.flatMap_bytes_glyphs`: the glyphs of a text stand for its bytes
* `Text.glyphs_induction`: texts are read glyph by glyph
-/

namespace LineScript

namespace Text

section Character

/-- Every six bits are contributed by a continuation byte. -/
theorem continuation?_ofNat {x : Nat} (h : x < 64) :
    continuation? (UInt8.ofNat (x + 128)) = some x := by
  have hx : (UInt8.ofNat (x + 128)).toNat = x + 128 := by
    rw [UInt8.toNat_ofNat']
    omega
  simp only [continuation?, hx]
  rw [if_pos (by omega), Nat.add_sub_cancel]

/-- The code point of a character is a scalar value. -/
theorem isValidChar_toNat (c : Char) : c.toNat.isValidChar := c.valid

/-- A scalar value is the code point of the character made from it. -/
theorem toNat_charOfNat {n : Nat} (h : n.isValidChar) : (Char.ofNat n).toNat = n := by
  rw [show Char.ofNat n = Char.ofNatAux n h from dif_pos h]
  exact UInt32.toNat_ofNatLT

theorem scalar?_toNat {least : Nat} {c : Char} (h : least ≤ c.toNat) :
    scalar? least c.toNat = some c := by
  simp [scalar?, h, isValidChar_toNat, Char.ofNat_toNat]

/-- A continuation byte is determined by the six bits it contributes. -/
theorem continuation?_eq_some {b : UInt8} {x : Nat} (h : continuation? b = some x) :
    x < 64 ∧ b = UInt8.ofNat (x + 128) := by
  unfold continuation? at h
  split at h
  · next hb =>
    obtain rfl := Option.some.inj h
    refine ⟨by omega, ?_⟩
    rw [← UInt8.toNat_inj, UInt8.toNat_ofNat']
    omega
  · cases h

theorem scalar?_eq_some {least value : Nat} {c : Char} (h : scalar? least value = some c) :
    least ≤ value ∧ c.toNat = value := by
  unfold scalar? at h
  split at h
  · next hv =>
    obtain rfl := Option.some.inj h
    exact ⟨hv.1, toNat_charOfNat hv.2⟩
  · cases h

/-- **Reading back**: the encoding of a character starts with that character. -/
theorem decode?_encode (c : Char) (t : Text) :
    decode? (String.utf8EncodeChar c ++ t) = some c := by
  have hc : c.toNat < 0x110000 := by
    have h := isValidChar_toNat c
    simp only [Nat.isValidChar] at h
    omega
  have hval : c.val.toNat = c.toNat := rfl
  simp only [String.utf8EncodeChar, hval]
  split
  · next h =>
    have ha : (UInt8.ofNat c.toNat).toNat = c.toNat := by
      rw [UInt8.toNat_ofNat']; omega
    simp only [List.cons_append, decode?, ha]
    rw [if_pos (by omega), Char.ofNat_toNat]
  · split
    · next h1 h2 =>
      have ha : (UInt8.ofNat (c.toNat / 64 % 32 + 192)).toNat = c.toNat / 64 + 192 := by
        rw [UInt8.toNat_ofNat']; omega
      simp only [List.cons_append, List.nil_append, decode?, ha,
        continuation?_ofNat (show c.toNat % 64 < 64 by omega)]
      rw [if_neg (by omega), if_neg (by omega), if_pos (by omega)]
      show scalar? 0x80 _ = _
      rw [show (c.toNat / 64 + 192 - 0xC0) * 64 + c.toNat % 64 = c.toNat by omega]
      exact scalar?_toNat (by omega)
    · split
      · next h1 h2 h3 =>
        have ha : (UInt8.ofNat (c.toNat / 4096 % 16 + 224)).toNat = c.toNat / 4096 + 224 := by
          rw [UInt8.toNat_ofNat']; omega
        simp only [List.cons_append, List.nil_append, decode?, ha,
          continuation?_ofNat (show c.toNat % 64 < 64 by omega),
          continuation?_ofNat (show c.toNat / 64 % 64 < 64 by omega)]
        rw [if_neg (by omega), if_neg (by omega), if_neg (by omega), if_pos (by omega)]
        show scalar? 0x800 _ = _
        rw [show ((c.toNat / 4096 + 224 - 0xE0) * 64 + c.toNat / 64 % 64) * 64 + c.toNat % 64
          = c.toNat by omega]
        exact scalar?_toNat (by omega)
      · next h1 h2 h3 =>
        have ha : (UInt8.ofNat (c.toNat / 262144 % 8 + 240)).toNat = c.toNat / 262144 + 240 := by
          rw [UInt8.toNat_ofNat']; omega
        simp only [List.cons_append, List.nil_append, decode?, ha,
          continuation?_ofNat (show c.toNat % 64 < 64 by omega),
          continuation?_ofNat (show c.toNat / 64 % 64 < 64 by omega),
          continuation?_ofNat (show c.toNat / 4096 % 64 < 64 by omega)]
        rw [if_neg (by omega), if_neg (by omega), if_neg (by omega), if_neg (by omega),
          if_pos (by omega)]
        show scalar? 0x10000 _ = _
        rw [show (((c.toNat / 262144 + 240 - 0xF0) * 64 + c.toNat / 4096 % 64) * 64
          + c.toNat / 64 % 64) * 64 + c.toNat % 64 = c.toNat by omega]
        exact scalar?_toNat (by omega)

theorem ofNat_eq_of_toNat {b : UInt8} {n : Nat} (h : n = b.toNat) : UInt8.ofNat n = b := by
  rw [h, UInt8.ofNat_toNat]

/-- **Nothing else is read**: a text that starts with a character starts with its encoding. -/
theorem eq_encode_of_decode? {t : Text} {c : Char} (h : decode? t = some c) :
    ∃ r, t = String.utf8EncodeChar c ++ r := by
  have hval : c.val.toNat = c.toNat := rfl
  simp only [String.utf8EncodeChar, hval]
  cases t with
  | nil => cases h
  | cons a t =>
    have ha := a.toNat_lt
    simp only [decode?] at h
    split at h
    · next h1 =>
      obtain rfl := Option.some.inj h
      rw [toNat_charOfNat (Or.inl (by omega)), if_pos (by omega)]
      exact ⟨t, by simp⟩
    · split at h
      · cases h
      · split at h
        · split at h
          · next b r =>
            obtain ⟨x, hx, hs⟩ := Option.bind_eq_some_iff.1 h
            obtain ⟨hxlt, hxeq⟩ := continuation?_eq_some hx
            obtain ⟨hl, hc⟩ := scalar?_eq_some hs
            rw [if_neg (by omega), if_pos (by omega), hc, hxeq]
            refine ⟨r, ?_⟩
            simp only [List.cons_append, List.nil_append, List.cons.injEq, and_true]
            exact ⟨(ofNat_eq_of_toNat (by omega)).symm, congrArg UInt8.ofNat (by omega)⟩
          · cases h
        · split at h
          · split at h
            · next b d r =>
              obtain ⟨x, hx, hs⟩ := Option.bind_eq_some_iff.1 h
              obtain ⟨y, hy, hs⟩ := Option.bind_eq_some_iff.1 hs
              obtain ⟨hxlt, hxeq⟩ := continuation?_eq_some hx
              obtain ⟨hylt, hyeq⟩ := continuation?_eq_some hy
              obtain ⟨hl, hc⟩ := scalar?_eq_some hs
              rw [if_neg (by omega), if_neg (by omega), if_pos (by omega), hc, hxeq, hyeq]
              refine ⟨r, ?_⟩
              simp only [List.cons_append, List.nil_append, List.cons.injEq, and_true]
              exact ⟨(ofNat_eq_of_toNat (by omega)).symm, congrArg UInt8.ofNat (by omega),
                congrArg UInt8.ofNat (by omega)⟩
            · cases h
          · split at h
            · split at h
              · next b d e r =>
                obtain ⟨x, hx, hs⟩ := Option.bind_eq_some_iff.1 h
                obtain ⟨y, hy, hs⟩ := Option.bind_eq_some_iff.1 hs
                obtain ⟨z, hz, hs⟩ := Option.bind_eq_some_iff.1 hs
                obtain ⟨hxlt, hxeq⟩ := continuation?_eq_some hx
                obtain ⟨hylt, hyeq⟩ := continuation?_eq_some hy
                obtain ⟨hzlt, hzeq⟩ := continuation?_eq_some hz
                obtain ⟨hl, hc⟩ := scalar?_eq_some hs
                rw [if_neg (by omega), if_neg (by omega), if_neg (by omega), hc, hxeq, hyeq, hzeq]
                refine ⟨r, ?_⟩
                simp only [List.cons_append, List.nil_append, List.cons.injEq, and_true]
                exact ⟨(ofNat_eq_of_toNat (by omega)).symm, congrArg UInt8.ofNat (by omega),
                  congrArg UInt8.ofNat (by omega), congrArg UInt8.ofNat (by omega)⟩
              · cases h
            · cases h

/-- A text starts with a character exactly when it starts with its UTF-8 encoding. -/
theorem decode?_eq_some_iff {t : Text} {c : Char} :
    decode? t = some c ↔ ∃ r, t = String.utf8EncodeChar c ++ r :=
  ⟨eq_encode_of_decode?, fun ⟨r, h⟩ => h ▸ decode?_encode c r⟩

end Character

section Glyphs

/-- Skipping bytes and then reading is reading what is left after them. -/
theorem glyphsFrom_eq_drop (skip : Nat) (t : Text) :
    glyphsFrom skip t = glyphs (t.drop skip) := by
  induction skip generalizing t with
  | zero => rfl
  | succ skip ih =>
    cases t with
    | nil => rfl
    | cons b t => exact ih t

/-- The glyphs of a text that starts with a character are that character and those after it. -/
theorem glyphs_encode_append (c : Char) (t : Text) :
    glyphs (String.utf8EncodeChar c ++ t) = .char c :: glyphs t := by
  have hlen := String.length_utf8EncodeChar c
  have hpos := Char.utf8Size_pos c
  have hdec := decode?_encode c t
  cases he : String.utf8EncodeChar c with
  | nil => simp [he] at hlen; omega
  | cons b r =>
    rw [he] at hlen hdec
    have hr : r.length = c.utf8Size - 1 := by
      simp only [List.length_cons] at hlen
      omega
    simp only [List.cons_append] at hdec ⊢
    simp only [glyphs, glyphsFrom, hdec]
    rw [glyphsFrom_eq_drop, ← hr, List.drop_left]
    rfl

/-- A byte that starts no character is a glyph of its own. -/
theorem glyphs_cons_of_decode?_eq_none {b : UInt8} {t : Text} (h : decode? (b :: t) = none) :
    glyphs (b :: t) = .stray b :: glyphs t := by
  simp only [glyphs, glyphsFrom, h]

/-- A text is empty, or starts with a character, or with a byte that starts none. -/
theorem glyphs_cases (t : Text) :
    t = [] ∨ (∃ c r, t = String.utf8EncodeChar c ++ r) ∨ ∃ b r, t = b :: r ∧ decode? t = none := by
  cases t with
  | nil => exact Or.inl rfl
  | cons b r =>
    cases h : decode? (b :: r) with
    | none => exact Or.inr (Or.inr ⟨b, r, rfl, rfl⟩)
    | some c => exact Or.inr (Or.inl ⟨c, eq_encode_of_decode? h⟩)

/-- **Texts are read glyph by glyph.** -/
theorem glyphs_induction {motive : Text → Prop} (nil : motive [])
    (char : ∀ c t, motive t → motive (String.utf8EncodeChar c ++ t))
    (stray : ∀ b t, decode? (b :: t) = none → motive t → motive (b :: t)) (t : Text) :
    motive t := by
  induction hn : t.length using Nat.strongRecOn generalizing t with
  | ind n ih =>
    subst hn
    rcases glyphs_cases t with rfl | ⟨c, r, rfl⟩ | ⟨b, r, rfl, h⟩
    · exact nil
    · refine char c r (ih r.length ?_ r rfl)
      have hpos := Char.utf8Size_pos c
      rw [List.length_append, String.length_utf8EncodeChar]
      omega
    · exact stray b r h (ih r.length (by simp) r rfl)

/-- **Nothing is lost**: the glyphs of a text stand for its bytes. -/
theorem flatMap_bytes_glyphs (t : Text) : t.glyphs.flatMap Glyph.bytes = t := by
  induction t using glyphs_induction with
  | nil => rfl
  | char c t ih =>
    rw [glyphs_encode_append, List.flatMap_cons, ih]
    rfl
  | stray b t h ih =>
    rw [glyphs_cons_of_decode?_eq_none h, List.flatMap_cons, ih]
    rfl

end Glyphs

end Text

end LineScript

import LineScript.Proofs.Decimals
import LineScript.Proofs.Yaml.Entries

/-!
# Words and decimals as plain scalars

A plain scalar stands for what its spelling suggests. The canonical decimal of a number suggests
that number: it is no date, and it has no leading zero that would make it octal. A word of
lower-case letters and underscores is a string, unless it spells a truth value or null.

## Main definitions

* `Yaml.IsKeyWord`: words of lower-case letters and underscores
* `Yaml.IsScalarWord`: such words, and numbers

## Main results

* `Numeral.nat_of_isCanonical`: a canonical decimal is a numeral of its value
* `Yaml.Scalar.ofPlain_of_isCanonical`: it is the integer of its value
* `Yaml.IsScalarWord.isPlain`, `Yaml.IsKeyWord.isKey`: words and numbers are plain scalars
* `Yaml.IsKeyWord.tag_ofPlain`: what words stand for
-/

namespace LineScript

namespace Numeral

variable {t : Text} {n : Nat}

theorem digit?_of_isDigit {b : UInt8} (h : 48 ≤ b.toNat ∧ b.toNat ≤ 57) :
    digit? b = some (b.toNat - 48) := by
  have hlower : lower b = b := if_neg (by omega)
  simp [digit?, hlower, h]

/-- Decimal digits are read without a fault as long as 64 bits hold the number. -/
theorem digitsFrom_ten (hdigits : ∀ b ∈ t, 48 ≤ b.toNat ∧ b.toNat ≤ 57)
    (hfits : n * 10 ^ t.length + Decimal.value t < 0x10000000000000000) :
    digitsFrom 10 n t = .ok (n * 10 ^ t.length + Decimal.value t) := by
  induction t generalizing n with
  | nil => simp [digitsFrom, Decimal.value]
  | cons b t ih =>
    obtain ⟨hb, ht⟩ := List.forall_mem_cons.mp hdigits
    have hsum : (n * 10 + (b.toNat - 48)) * 10 ^ t.length + Decimal.value t =
        n * 10 ^ (b :: t).length + Decimal.value (b :: t) := by
      rw [Decimal.value, List.length_cons, Nat.pow_succ]
      ring
    have hseparator : b ≠ separator := by
      rintro rfl
      exact absurd hb (by decide)
    have hstep : n * 10 + (b.toNat - 48) < 0x10000000000000000 := by
      have hpow : 0 < 10 ^ t.length := Nat.pow_pos (by decide)
      have hle := Nat.le_mul_of_pos_right (n * 10 + (b.toNat - 48)) hpow
      omega
    rw [digitsFrom, if_neg hseparator, digit?_of_isDigit hb]
    simp only [Nat.not_le.mpr hstep, if_false]
    rw [if_neg (by omega), ih ht (hsum ▸ hfits), hsum]

theorem radix_of_head? (h : t.head? ≠ some 48) : radix t = (10, t) := by
  unfold radix
  split
  · exact absurd rfl h
  · exact absurd rfl h
  · rfl

/-- **A canonical decimal is a numeral of its value**: a leading zero, which would mean octal, it
has only if it is zero. -/
theorem nat_of_isCanonical (h : Decimal.IsCanonical n t) (hfits : n < 0x10000000000000000) :
    nat t = .ok n := by
  obtain ⟨⟨hne, hdigits⟩, hvalue, hleading⟩ := h
  by_cases hzero : t.head? = some 48
  · obtain rfl := hleading hzero
    obtain rfl := hvalue
    rfl
  · have hread : digitsFrom 10 0 t = .ok n := by
      have hten := digitsFrom_ten (n := 0) hdigits (by omega)
      rwa [Nat.zero_mul, Nat.zero_add, hvalue] at hten
    have hseparator : separator ∉ t := fun hmem => absurd (hdigits _ hmem) (by decide)
    simp [nat, hne, radix_of_head? hzero, hread, hseparator]

theorem int_of_isCanonical (h : Decimal.IsCanonical n t) (hfits : n < 0x8000000000000000) :
    int t = .ok (n : Int) := by
  have hsign : sign t = (false, t) := by
    unfold sign
    split
    · exact absurd (h.numeral.2 _ List.mem_cons_self) (by decide)
    · exact absurd (h.numeral.2 _ List.mem_cons_self) (by decide)
    · rfl
  simp [int, hsign, nat_of_isCanonical h (by omega), hfits]

end Numeral

namespace Yaml

variable {t : Text} {n : Nat}

/-! ## Spellings -/

/-- Digits alone are no date: a dash is missing. -/
theorem isTimestamp_of_digits (h : ∀ b ∈ t, 48 ≤ b.toNat ∧ b.toNat ≤ 57) :
    isTimestamp t = false := by
  have hdash : Timestamp.expect? 45 (t.drop 4) = none := by
    cases hrest : t.drop 4 with
    | nil => rfl
    | cons b rest =>
      have hb := h b (List.mem_of_mem_drop (hrest ▸ List.mem_cons_self))
      refine if_neg ?_
      rintro rfl
      exact absurd hb (by decide)
  have hdate : Timestamp.date? t = none := by
    simp [Timestamp.date?, hdash]
  rw [isTimestamp, hdate]

theorem Scalar.ofSpelling?_of_digit {b : UInt8} (h : 48 ≤ b.toNat ∧ b.toNat ≤ 57) (t : Text) :
    Scalar.ofSpelling? (b :: t) = none := by
  have hnone : ∀ p ∈ Scalar.spellings, ∀ b ∈ (utf8 p.1).head?,
      ¬ (48 ≤ b.toNat ∧ b.toNat ≤ 57) := by
    decide +kernel
  rw [Scalar.ofSpelling?, Option.map_eq_none_iff, List.find?_eq_none]
  intro p hp hspelling
  refine hnone p hp b ?_ h
  rw [of_decide_eq_true hspelling]
  rfl

/-- **A canonical decimal** is the integer of its value. -/
theorem Scalar.ofPlain_of_isCanonical (h : Decimal.IsCanonical n t)
    (hfits : n < 0x8000000000000000) : Scalar.ofPlain t = .int n := by
  obtain ⟨b, rest, rfl⟩ := List.exists_cons_of_ne_nil h.numeral.1
  have hb := h.numeral.2 b List.mem_cons_self
  have hpoint : b ≠ 46 := by
    rintro rfl
    exact absurd hb (by decide)
  have hfilter : (b :: rest).filter (· ≠ Numeral.separator) = b :: rest := by
    rw [List.filter_eq_self]
    intro a ha
    refine decide_eq_true ?_
    rintro rfl
    exact absurd (h.numeral.2 _ ha) (by decide)
  have hinteger : Scalar.integer? (b :: rest) = some (n : Int) := by
    rw [Scalar.integer?, Numeral.int_of_isCanonical h hfits]
  have hnumber : Scalar.ofNumber (b :: rest) = .int n := by
    rw [Scalar.ofNumber, isTimestamp_of_digits h.numeral.2]
    simp only [hfilter, hinteger]
    rfl
  rw [Scalar.ofPlain, Scalar.ofSpelling?_of_digit hb]
  simp [hpoint, Decimal.digit?_of_isDigit hb, hnumber]

/-! ## Words -/

/-- The bytes of key words: lower-case letters and underscores. -/
def isKeyByte (b : UInt8) : Bool := (97 ≤ b.toNat && b.toNat ≤ 122) || b = 95

/-- A word of lower-case letters and underscores. -/
def IsKeyWord (t : Text) : Prop := t ≠ [] ∧ ∀ b ∈ t, isKeyByte b = true

theorem le_of_isKeyByte {b : UInt8} (h : isKeyByte b = true) : 95 ≤ b.toNat := by
  simp only [isKeyByte, Bool.or_eq_true, Bool.and_eq_true, decide_eq_true_eq] at h
  rcases h with h | rfl
  · omega
  · decide

/-- The bytes of key words and of decimal numbers, with signs and points. -/
def isScalarByte (b : UInt8) : Bool :=
  isKeyByte b || (48 ≤ b.toNat && b.toNat ≤ 57) || b = 43 || b = 45 || b = 46

theorem isOrdinary_of_isScalarByte {b : UInt8} (h : isScalarByte b = true) :
    (0x20 ≤ b.toNat ∧ b.toNat ≤ 0x7E) ∧ isWordEnd (Char.ofNat b.toNat) = false ∧
      Char.ofNat b.toNat ≠ ':' ∧ (b ≠ 45 → isOrdinary (Char.ofNat b.toNat) = true) := by
  have hall : ∀ n < 0x7F, isScalarByte (UInt8.ofNat n) = true →
      0x20 ≤ n ∧ isWordEnd (Char.ofNat n) = false ∧ Char.ofNat n ≠ ':' ∧
        (UInt8.ofNat n ≠ 45 → isOrdinary (Char.ofNat n) = true) := by
    decide
  have hlt : b.toNat < 0x7F := by
    simp only [isScalarByte, isKeyByte, Bool.or_eq_true, Bool.and_eq_true, decide_eq_true_eq] at h
    rcases h with ((((h | rfl) | h) | rfl) | rfl) | rfl
    · omega
    · decide
    · omega
    · decide
    · decide
    · decide
  obtain ⟨hle, hrest⟩ := hall b.toNat hlt (by rwa [UInt8.ofNat_toNat])
  rw [UInt8.ofNat_toNat] at hrest
  exact ⟨⟨hle, Nat.le_of_lt_succ hlt⟩, hrest⟩

theorem isScalarByte_of_isKeyByte {b : UInt8} (h : isKeyByte b = true) :
    isScalarByte b = true := by
  simp [isScalarByte, h]

/-- A word or a number: letters, digits, signs and points, but no dash alone. -/
def IsScalarWord (t : Text) : Prop := t ≠ [] ∧ t ≠ [45] ∧ ∀ b ∈ t, isScalarByte b = true

theorem IsKeyWord.isScalarWord (h : IsKeyWord t) : IsScalarWord t := by
  refine ⟨h.1, ?_, fun b hb => isScalarByte_of_isKeyByte (h.2 b hb)⟩
  rintro rfl
  exact absurd (h.2 45 List.mem_cons_self) (by decide)

theorem IsScalarWord.ascii (h : IsScalarWord t) : ∀ b ∈ t, 0x20 ≤ b.toNat ∧ b.toNat ≤ 0x7E :=
  fun b hb => (isOrdinary_of_isScalarByte (h.2.2 b hb)).1

/-- Words and numbers are plain scalars. -/
theorem IsScalarWord.isPlain (h : IsScalarWord t) : IsPlain t.asciiChars := by
  obtain ⟨hne, hdash, hbytes⟩ := h
  constructor
  · intro d hd
    obtain ⟨b, hb, rfl⟩ := List.mem_map.mp hd
    obtain ⟨-, hend, hcolon, -⟩ := isOrdinary_of_isScalarByte (hbytes b hb)
    exact ⟨hend, hcolon⟩
  · obtain ⟨b, rest, rfl⟩ := List.exists_cons_of_ne_nil hne
    by_cases hb : b = 45
    · -- A dash starts a plain scalar if something follows it.
      have hrest : rest ≠ [] := fun hnil => hdash (by rw [hb, hnil])
      obtain ⟨a, rest, rfl⟩ := List.exists_cons_of_ne_nil hrest
      subst hb
      exact Or.inr ⟨_, _, rfl⟩
    · have hordinary := (isOrdinary_of_isScalarByte (hbytes b List.mem_cons_self)).2.2.2 hb
      exact Or.inl ⟨_, _, rfl, hordinary⟩

/-- A key word starts no marker. -/
theorem IsKeyWord.isKey (h : IsKeyWord t) : IsKey t.asciiChars := by
  refine ⟨h.isScalarWord.isPlain, ?_⟩
  have hascii := h.isScalarWord.ascii
  obtain ⟨hne, hbytes⟩ := h
  obtain ⟨b, rest, rfl⟩ := List.exists_cons_of_ne_nil hne
  have hall : ∀ n < 0x7F, 95 ≤ n → Char.ofNat n ≠ '-' ∧ Char.ofNat n ≠ '.' := by decide
  exact hall b.toNat (Nat.lt_succ_of_le (hascii b List.mem_cons_self).2)
    (le_of_isKeyByte (hbytes b List.mem_cons_self))

/-- **What a key word stands for as a plain scalar**: itself, or a truth value. -/
theorem IsKeyWord.tag_ofPlain (h : IsKeyWord t) (hnull : t ≠ utf8 "null") :
    (Scalar.ofPlain t).tag = .str ∨ (Scalar.ofPlain t).tag = .bool := by
  have hspellings : ∀ p ∈ Scalar.spellings, (∀ b ∈ utf8 p.1, isKeyByte b = true) → utf8 p.1 ≠ [] →
      utf8 p.1 ≠ utf8 "null" → p.2.tag = .bool := by
    decide +kernel
  obtain ⟨hne, hbytes⟩ := h
  obtain ⟨b, rest, rfl⟩ := List.exists_cons_of_ne_nil hne
  rw [Scalar.ofPlain]
  cases hspelling : Scalar.ofSpelling? (b :: rest) with
  | some value =>
    obtain ⟨p, hp, rfl⟩ := Option.map_eq_some_iff.mp hspelling
    have hword : utf8 p.1 = b :: rest := by simpa using List.find?_some hp
    have hmem := List.mem_of_find?_eq_some hp
    exact Or.inr (hspellings p hmem (hword ▸ hbytes) (hword ▸ hne) (hword ▸ hnull))
  | none =>
    -- Neither a point, a sign nor a digit starts the word.
    have hb := le_of_isKeyByte (hbytes b List.mem_cons_self)
    have hdigit : Decimal.digit? b = none := if_neg (by omega)
    have hmark : ∀ a : UInt8, a.toNat < 95 → b ≠ a := by
      rintro _ ha rfl
      omega
    left
    simp [hdigit, hmark, Scalar.tag]

end Yaml

end LineScript

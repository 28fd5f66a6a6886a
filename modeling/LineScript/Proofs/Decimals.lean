import LineScript.Proofs.Journal
import LineScript.Proofs.Lockstep
import LineScript.Proofs.Words
import Mathlib.Data.List.Induction
import Mathlib.Tactic.Ring

/-!
# Decimals that are set and printed

A word gives a variable its value if it spells a positive number that 64 bits hold. It may have a
plus sign and leading zeros. Printed, the number has neither: there is one canonical decimal for
every number, and it spells the number again.

## Main definitions

* `Decimal.IsNumeral`, `Decimal.value`: one or more digits, and the number that they spell
* `Decimal.Spells`: a numeral with an optional plus sign spells a number
* `Decimal.IsCanonical`: a numeral that does not begin with a zero
* `Decimal.SpellsPositive`: the numbers that `set` accepts
* `setLine`, `printLine`: the statements that set and print a variable
* `Machine.GivesBack`: what is printed can be set again

## Main results

* `Decimal.nat?_eq_some_iff`: the numbers that are read are those that digits spell
* `Decimal.isCanonical_iff`: the canonical decimal is the one that is written
* `Decimal.spells_of_int?`: the positive numbers that are read are spelled without a minus sign
* `Machine.givesBack_of_has`: what is printed can be set again
* `Machine.set_accepts_positive_decimals`: what `set` accepts, and what `print` makes of it
-/

namespace LineScript

namespace Decimal

variable {t u : Text} {b : UInt8} {n : Nat}

/-! ## Digits and what they spell -/

/-- One or more ASCII digits. -/
def IsNumeral (t : Text) : Prop := t ≠ [] ∧ ∀ b ∈ t, 48 ≤ b.toNat ∧ b.toNat ≤ 57

/-- The number that digits spell: each of them counts as many powers of ten as digits follow. -/
def value : Text → Nat
  | [] => 0
  | b :: t => (b.toNat - 48) * 10 ^ t.length + value t

/-- Digits spell a number, with a plus sign before them or without. -/
def Spells (t : Text) (n : Nat) : Prop :=
  ∃ digits, (t = digits ∨ t = utf8 "+" ++ digits) ∧ IsNumeral digits ∧ value digits = n

/-- The canonical decimal of a number: it begins with a zero only if it is one. -/
structure IsCanonical (n : Nat) (t : Text) : Prop where
  numeral : IsNumeral t
  value_eq : value t = n
  leading : t.head? = some 48 → t = [48]

theorem value_append (t u : Text) : value (t ++ u) = value t * 10 ^ u.length + value u := by
  induction t with
  | nil => simp [value]
  | cons b t ih =>
    rw [List.cons_append, value, value, ih, List.length_append, Nat.pow_add]
    ring

theorem digit?_of_isDigit (h : 48 ≤ b.toNat ∧ b.toNat ≤ 57) : digit? b = some (b.toNat - 48) :=
  if_pos h

theorem digitsFrom?_eq_some_iff {start : Nat} :
    digitsFrom? start t = some n ↔
      (∀ b ∈ t, 48 ≤ b.toNat ∧ b.toNat ≤ 57) ∧ start * 10 ^ t.length + value t = n := by
  induction t generalizing start with
  | nil => simp [digitsFrom?, value]
  | cons b t ih =>
    rw [digitsFrom?, List.forall_mem_cons]
    by_cases hb : 48 ≤ b.toNat ∧ b.toNat ≤ 57
    · have hsum : (10 * start + (b.toNat - 48)) * 10 ^ t.length + value t =
          start * 10 ^ (b :: t).length + value (b :: t) := by
        rw [value, List.length_cons, Nat.pow_succ]
        ring
      simp only [digit?_of_isDigit hb, Option.bind_eq_bind, Option.bind_some, ih, hsum, hb,
        true_and]
    · have hnone : digit? b = none := if_neg hb
      simp [hnone, hb]

/-- **The numbers that are read are those that digits spell.** -/
theorem nat?_eq_some_iff : nat? t = some n ↔ IsNumeral t ∧ value t = n := by
  unfold nat? IsNumeral
  by_cases ht : t = []
  · simp [ht]
  · rw [if_neg (by simpa using ht), digitsFrom?_eq_some_iff, Nat.zero_mul, Nat.zero_add]
    simp [ht]

/-! ## Canonical decimals -/

theorem head?_append_of_ne_nil (h : t ≠ []) (u : Text) : (t ++ u).head? = t.head? := by
  rw [List.head?_append, Option.or_of_isSome (List.isSome_head?.mpr h)]

/-- The last digit comes off the end. -/
theorem ofNat_eq (n : Nat) :
    ofNat n = (if n < 10 then [] else ofNat (n / 10)) ++ [UInt8.ofNat (48 + n % 10)] := by
  unfold ofNat
  rw [Nat.toDigits_eq_if (by decide)]
  split
  · next h => simp [Nat.toNat_digitChar_of_lt_ten h, Nat.mod_eq_of_lt h]
  · simp [Nat.toNat_digitChar_of_lt_ten (Nat.mod_lt n (by decide : 0 < 10))]

theorem toNat_lastDigit (n : Nat) : (UInt8.ofNat (48 + n % 10)).toNat = 48 + n % 10 := by
  rw [UInt8.toNat_ofNat']
  omega

theorem isCanonical_ofNat (n : Nat) : IsCanonical n (ofNat n) := by
  induction n using Nat.strongRecOn with
  | ind n ih =>
    have hdigit := toNat_lastDigit n
    have hlast : 48 ≤ (UInt8.ofNat (48 + n % 10)).toNat ∧
        (UInt8.ofNat (48 + n % 10)).toNat ≤ 57 := by
      omega
    rw [ofNat_eq]
    by_cases hn : n < 10
    · rw [if_pos hn, List.nil_append]
      refine ⟨⟨List.cons_ne_nil _ _, by simpa using hlast⟩, ?_, fun hhead => ?_⟩
      · simp only [value, hdigit, List.length_nil]
        omega
      · rw [Option.some.inj hhead]
    · rw [if_neg hn]
      obtain ⟨⟨hne, hdigits⟩, hvalue, hleading⟩ := ih (n / 10) (by omega)
      refine ⟨⟨by simp, ?_⟩, ?_, fun hhead => ?_⟩
      · rw [List.forall_mem_append]
        exact ⟨hdigits, by simpa using hlast⟩
      · simp only [value_append, hvalue, value, hdigit, List.length_singleton, List.length_nil]
        omega
      · -- the digits before the last one do not begin with a zero, since they spell no zero
        rw [head?_append_of_ne_nil hne] at hhead
        rw [hleading hhead] at hvalue
        simp [value] at hvalue
        omega

theorem eq_ofNat_of_isCanonical (h : IsCanonical n t) : t = ofNat n := by
  induction t using List.reverseRecOn generalizing n with
  | nil => exact absurd rfl h.numeral.1
  | append_singleton u b ih =>
    obtain ⟨⟨-, hdigits⟩, hvalue, hleading⟩ := h
    obtain ⟨hu, hb⟩ := List.forall_mem_append.mp hdigits
    have hb := hb b List.mem_cons_self
    simp only [value_append, value, List.length_singleton, List.length_nil] at hvalue
    have hlast : UInt8.ofNat (48 + n % 10) = b := by
      apply UInt8.toNat_inj.mp
      rw [toNat_lastDigit]
      omega
    rw [ofNat_eq, hlast]
    congr 1
    by_cases hnil : u = []
    · have hn : n < 10 := by
        rw [hnil, value] at hvalue
        omega
      rw [if_pos hn, hnil]
    · -- without its last digit the decimal is canonical, and it is not zero
      have hzero : u.head? ≠ some 48 := by
        intro hhead
        have hsingle := hleading (by rwa [head?_append_of_ne_nil hnil])
        have hlength := congrArg List.length hsingle
        have hpos := List.length_pos_iff.mpr hnil
        rw [List.length_append, List.length_singleton, List.length_singleton] at hlength
        omega
      have hrest : u = ofNat (value u) := ih ⟨⟨hnil, hu⟩, rfl, fun hhead => absurd hhead hzero⟩
      have hpos : value u ≠ 0 := by
        intro hvalue
        rw [hvalue] at hrest
        apply hzero
        rw [hrest]
        rfl
      have hten : n / 10 = value u := by omega
      rw [if_neg (by omega), hten]
      exact hrest

/-- **The canonical decimal is the one that is written.** -/
theorem isCanonical_iff : IsCanonical n t ↔ t = ofNat n := by
  constructor
  · exact eq_ofNat_of_isCanonical
  · rintro rfl
    exact isCanonical_ofNat n

/-! ## Signs -/

theorem int?_of_spells (h : Spells t n) : int? t = some (n : Int) := by
  obtain ⟨digits, hsign, hnumeral, hvalue⟩ := h
  have hread : nat? digits = some n := nat?_eq_some_iff.mpr ⟨hnumeral, hvalue⟩
  rcases hsign with rfl | rfl
  · -- the first digit is no sign
    obtain ⟨b, rest, rfl⟩ := List.exists_cons_of_ne_nil hnumeral.1
    have hb := hnumeral.2 b List.mem_cons_self
    have hplus : b ≠ 43 := by
      rintro rfl
      exact absurd hb (by decide)
    have hminus : b ≠ 45 := by
      rintro rfl
      exact absurd hb (by decide)
    rw [int?, if_neg hplus, if_neg hminus, hread]
    rfl
  · change (nat? digits).map Int.ofNat = _
    rw [hread]
    rfl

theorem Spells.unique {k : Nat} (h : Spells t k) (h' : Spells t n) : k = n :=
  Int.ofNat.inj (Option.some.inj ((int?_of_spells h).symm.trans (int?_of_spells h')))

/-- **The positive numbers that are read are spelled without a minus sign.** -/
theorem spells_of_int? {z : Int} (h : int? t = some z) (hpos : 0 < z) :
    ∃ n : Nat, Spells t n ∧ z = n := by
  unfold int? at h
  split at h
  · cases h
  · next b rest =>
    split at h
    · next hplus =>
      obtain ⟨n, hn, rfl⟩ := Option.map_eq_some_iff.mp h
      obtain ⟨hnumeral, hvalue⟩ := nat?_eq_some_iff.mp hn
      rw [hplus]
      exact ⟨n, ⟨rest, Or.inr rfl, hnumeral, hvalue⟩, rfl⟩
    · split at h
      · -- behind a minus sign stands a natural number
        obtain ⟨i, hi, rfl⟩ := Option.map_eq_some_iff.mp h
        obtain ⟨n, -, hn⟩ := Option.bind_eq_some_iff.mp hi
        cases hn
        omega
      · obtain ⟨n, hn, rfl⟩ := Option.map_eq_some_iff.mp h
        obtain ⟨hnumeral, hvalue⟩ := nat?_eq_some_iff.mp hn
        exact ⟨n, ⟨b :: rest, Or.inl rfl, hnumeral, hvalue⟩, rfl⟩

/-- A number that is spelled is read if 64 bits hold it. -/
theorem int64?_of_spells (h : Spells t n) (hmax : n ≤ 0x7FFFFFFFFFFFFFFF) :
    int64? t = some (Int64.ofInt n) ∧ (Int64.ofInt n).toInt = n := by
  have hfits : fits (n : Int) = true := by
    simp only [fits, Bool.and_eq_true, decide_eq_true_eq]
    omega
  constructor
  · rw [int64?, int?_of_spells h, Option.filter_some, if_pos hfits]
    rfl
  · rw [Int64.toInt_ofInt_of_le] <;> omega

/-- The numbers that `set` accepts: they are spelled, positive, and held by 64 bits. -/
def SpellsPositive (t : Text) (n : Nat) : Prop := Spells t n ∧ 1 ≤ n ∧ n ≤ 0x7FFFFFFFFFFFFFFF

theorem spellsPositive_of_int64? {v : Int64} (h : int64? t = some v) (hpos : 0 < v.toInt) :
    ∃ n, SpellsPositive t n := by
  obtain ⟨n, hn, hv⟩ := spells_of_int? (int?_of_int64? h) hpos
  have hlt := v.toInt_lt
  exact ⟨n, hn, by omega, by omega⟩

/-! ## Numerals are words -/

theorem encode_digit (h : 48 ≤ b.toNat ∧ b.toNat ≤ 57) :
    String.utf8EncodeChar (Char.ofNat b.toNat) = [b] ∧
      isBlankChar (Char.ofNat b.toNat) = false := by
  have hdigits : ∀ k < 58, 48 ≤ k → String.utf8EncodeChar (Char.ofNat k) = [UInt8.ofNat k] ∧
      isBlankChar (Char.ofNat k) = false := by
    decide
  have hdigit := hdigits b.toNat (by omega) h.1
  rwa [UInt8.ofNat_toNat] at hdigit

/-- A numeral holds no white space. -/
theorem IsNumeral.isWord (h : IsNumeral t) : t.IsWord := by
  refine ⟨h.1, ?_⟩
  have hdigits := h.2
  clear h
  induction t with
  | nil => simp
  | cons b t ih =>
    obtain ⟨hb, ht⟩ := List.forall_mem_cons.mp hdigits
    obtain ⟨hencode, hblank⟩ := encode_digit hb
    have htext : b :: t = String.utf8EncodeChar (Char.ofNat b.toNat) ++ t := by
      rw [hencode]
      rfl
    rw [htext, Text.glyphs_encode_append, List.forall_mem_cons]
    exact ⟨hblank, ih ht⟩

end Decimal

/-! ## Statements that set and print -/

/-- The statement that gives a variable a value. -/
def setLine (name value : Text) : Text :=
  utf8 "set" ++ (utf8 " " ++ (name ++ (utf8 " " ++ value)))

/-- The statement that prints a variable. -/
def printLine (name : Text) : Text := utf8 "print" ++ (utf8 " " ++ name)

section Lines

variable {name value word : Text}

theorem words_setLine (hname : name.IsWord) :
    (setLine name value).words = utf8 "set" :: name :: value.words := by
  have hspace : isBlankChar ' ' = true := rfl
  have hrest : (name ++ (utf8 " " ++ value)).words = name :: value.words :=
    Text.words_append_blank hname hspace value
  rw [setLine, Text.words_utf8_append (by decide) rfl, hrest]

theorem words_printLine (hname : name.IsWord) :
    (printLine name).words = [utf8 "print", name] := by
  rw [printLine, Text.words_utf8_append (by decide) rfl, Text.words_of_isWord hname]

/-- A text is no mode command if its words are not those of one. -/
theorem ModeCommand.ofText?_of_words {text : Text}
    (h : ∀ c : ModeCommand, text.words ≠ c.wording.words) :
    ModeCommand.ofText? text = none := by
  refine Option.eq_none_iff_forall_ne_some.mpr fun c hc => h c ?_
  rw [← ModeCommand.eq_wording_of_ofText? hc]

/-- Three words that begin with `set` are no mode command. -/
theorem ofText?_setLine (hname : name.IsWord) (hvalue : value.words = [word]) :
    ModeCommand.ofText? (setLine name value) = none := by
  apply ModeCommand.ofText?_of_words
  intro c
  rw [words_setLine hname, hvalue]
  cases c with
  | openCode =>
    intro h
    have hlength : 3 = ModeCommand.openCode.wording.words.length := congrArg List.length h
    exact absurd hlength (by decide)
  | closeCode => exact fun h => absurd (List.cons.inj h).1 (by decide)
  | run => exact fun h => absurd (List.cons.inj h).1 (by decide)

theorem ofText?_printLine (hname : name.IsWord) : ModeCommand.ofText? (printLine name) = none := by
  apply ModeCommand.ofText?_of_words
  intro c
  rw [words_printLine hname]
  cases c <;> exact fun h => absurd (List.cons.inj h).1 (by decide)

end Lines

namespace Machine

variable {opts : Options} {m : Machine} {name value word : Text} {n : Nat}

theorem actionOf_setLine (hname : name.IsWord) (hvalue : value.words = [word]) :
    m.actionOf opts (setLine name value) =
      (Statement.set name word).action opts m.program.functions m.store := by
  rw [actionOf, Statement.ofLine, words_setLine hname, hvalue]
  rfl

theorem actionOf_printLine (hname : name.IsWord) :
    m.actionOf opts (printLine name) =
      (Statement.print name).action opts m.program.functions m.store := by
  rw [actionOf, Statement.ofLine, words_printLine hname]
  rfl

/-- A number that is accepted is stored, and nothing else happens. White space around its word makes
no difference. -/
theorem submit_setLine (hl : m.loading = false) (hname : name.IsWord)
    (hvalue : value.words = [word]) (hn : Decimal.SpellsPositive word n) :
    ∃ events, Event.outputOf events = [] ∧ ∀ fuel, m.submit opts fuel (setLine name value) =
      some ⟨{ m with store := m.store.insert name (Int64.ofInt n) }, events, .ok ()⟩ := by
  obtain ⟨hspells, hpos, hmax⟩ := hn
  obtain ⟨hread, htoInt⟩ := Decimal.int64?_of_spells hspells hmax
  have hpositive : ¬ (Int64.ofInt n).toInt ≤ 0 := by
    rw [htoInt]
    omega
  refine submit_of_update (by simp [setLine, utf8]) (ofText?_setLine hname hvalue) hl ?_
  rw [actionOf_setLine hname hvalue, Statement.action, hread]
  exact if_neg hpositive

/-- Any other word is refused, as a value that is invalid. -/
theorem submit_setLine_refused (hl : m.loading = false) (hname : name.IsWord)
    (hvalue : value.words = [word]) (hn : ¬ ∃ n, Decimal.SpellsPositive word n) :
    ∃ fault : Fault, fault.kind = .invalidValue ∧
      ∀ fuel, m.submit opts fuel (setLine name value) = some (.fail m (.fault fault)) := by
  have hrefused : ∃ fault : Fault, fault.kind = .invalidValue ∧
      m.actionOf opts (setLine name value) = .refuse fault := by
    rw [actionOf_setLine hname hvalue, Statement.action]
    cases hread : Decimal.int64? word with
    | none => exact ⟨_, rfl, rfl⟩
    | some v =>
      have hneg : v.toInt ≤ 0 :=
        Int.not_lt.mp fun hpos => hn (Decimal.spellsPositive_of_int64? hread hpos)
      exact ⟨.notPositive v, rfl, if_pos hneg⟩
  obtain ⟨fault, hkind, haction⟩ := hrefused
  exact ⟨fault, hkind,
    submit_of_refuse (by simp [setLine, utf8]) (ofText?_setLine hname hvalue) hl haction⟩

/-- A variable is printed as the canonical decimal of its value. -/
theorem submit_printLine (hl : m.loading = false) (hname : name.IsWord)
    (hvalue : m.store.Has name n) :
    ∃ events, Event.outputOf events = Decimal.ofNat n ++ [Text.newline] ∧
      ∀ fuel, m.submit opts fuel (printLine name) = some ⟨m, events, .ok ()⟩ := by
  obtain ⟨v, hv, htoInt⟩ := hvalue
  have hdecimal : Decimal.ofInt v.toInt = Decimal.ofNat n := by
    rw [htoInt, Decimal.ofInt, if_neg (by omega), Int.natAbs_natCast]
  refine submit_of_update (by simp [printLine, utf8]) (ofText?_printLine hname) hl ?_
  rw [actionOf_printLine hname, Statement.action, hv, ← hdecimal]

/-- **What is printed can be set again.** The machine prints the variable as the canonical decimal
of the number; and when any variable of any machine is set from that, with white space behind it or
without, it has the number as its value. -/
def GivesBack (opts : Options) (m : Machine) (name : Text) (n : Nat) : Prop :=
  ∃ decimal, (∀ t, Decimal.IsCanonical n t ↔ t = decimal) ∧
    (∃ events, Event.outputOf events = decimal ++ [Text.newline] ∧
      ∀ fuel, m.submit opts fuel (printLine name) = some ⟨m, events, .ok ()⟩) ∧
    ∀ (m' : Machine) (name' ending : Text), m'.loading = false → name'.IsWord → ending.IsBlank →
      ∃ events, Event.outputOf events = [] ∧
        ∀ fuel, m'.submit opts fuel (setLine name' (decimal ++ ending)) =
          some ⟨{ m' with store := m'.store.insert name' (Int64.ofInt n) }, events, .ok ()⟩

theorem givesBack_of_has (hl : m.loading = false) (hname : name.IsWord) (hpos : 1 ≤ n)
    (hmax : n ≤ 0x7FFFFFFFFFFFFFFF) (h : m.store.Has name n) : m.GivesBack opts name n := by
  obtain ⟨hnumeral, hvalue, -⟩ := Decimal.isCanonical_ofNat n
  have hspells : Decimal.SpellsPositive (Decimal.ofNat n) n :=
    ⟨⟨Decimal.ofNat n, Or.inl rfl, hnumeral, hvalue⟩, hpos, hmax⟩
  refine ⟨Decimal.ofNat n, fun t => Decimal.isCanonical_iff, submit_printLine hl hname h, ?_⟩
  intro m' name' ending hl' hname' hending
  exact submit_setLine hl' hname' (Text.words_append_isBlank hnumeral.isWord hending) hspells

/-- **`set` accepts exactly the positive decimals of 64 bits, and `print` gives them back.** Outside
a block, the line `set name word` is answered at once. It succeeds exactly if the word is an
optional plus sign and digits that spell a number from 1 to 2^63 - 1. Then the variable has this
number as its value, nothing else changes, and the number is printed and can be set from what was
printed. In every other case the value is invalid, and the machine is as it was. -/
theorem set_accepts_positive_decimals (opts : Options) (m : Machine) (hl : m.loading = false)
    (hname : name.IsWord) (hword : word.IsWord) :
    ∃ r : Reply Machine Unit, (∀ fuel, m.submit opts fuel (setLine name word) = some r) ∧
      (r.result = .ok () ↔ ∃ n, Decimal.SpellsPositive word n) ∧
      (∀ n, Decimal.SpellsPositive word n →
        (Int64.ofInt n).toInt = n ∧ Event.outputOf r.events = [] ∧
        r.state = { m with store := m.store.insert name (Int64.ofInt n) } ∧
        r.state.GivesBack opts name n) ∧
      ((¬ ∃ n, Decimal.SpellsPositive word n) →
        ∃ fault : Fault, fault.kind = .invalidValue ∧ r = .fail m (.fault fault)) := by
  have hvalue : word.words = [word] := Text.words_of_isWord hword
  by_cases hn : ∃ n, Decimal.SpellsPositive word n
  · obtain ⟨n, hn⟩ := hn
    obtain ⟨events, hout, hsubmit⟩ := submit_setLine hl hname hvalue hn
    refine ⟨_, hsubmit, iff_of_true rfl ⟨n, hn⟩, fun k hk => ?_, fun hnone => absurd ⟨n, hn⟩ hnone⟩
    -- the word spells one number only
    obtain rfl : k = n := hk.1.unique hn.1
    obtain ⟨hspells, hpos, hmax⟩ := hn
    have htoInt := (Decimal.int64?_of_spells hspells hmax).2
    refine ⟨htoInt, hout, rfl, givesBack_of_has hl hname hpos hmax ?_⟩
    exact Store.has_insert.mpr (Or.inl ⟨rfl, htoInt⟩)
  · obtain ⟨fault, hkind, hsubmit⟩ := submit_setLine_refused hl hname hvalue hn
    exact ⟨_, hsubmit, iff_of_false nofun hn, fun n h => absurd ⟨n, h⟩ hn,
      fun _ => ⟨fault, hkind, rfl⟩⟩

/-- A name that is no well-formed text: the first bytes of the encoding of a white-space
character. -/
def strayName : Text := [0xE2, 0x80]

/-- The largest number that 64 bits hold, with a sign and leading zeros. -/
def paddedLargest : Text := utf8 "+0009223372036854775807"

/-- The largest number is set and given back. -/
theorem paddedLargest_given_back :
    Machine.initial.loading = false ∧ strayName.IsWord ∧ paddedLargest.IsWord ∧
      Decimal.SpellsPositive paddedLargest 9223372036854775807 ∧
      ∃ r, Machine.initial.submit {} 0 (setLine strayName paddedLargest) = some r ∧
        r.result = .ok () ∧ r.state.GivesBack {} strayName 9223372036854775807 := by
  have hname : strayName.IsWord := by decide
  have hword : paddedLargest.IsWord := by decide
  have hspells : Decimal.SpellsPositive paddedLargest 9223372036854775807 :=
    ⟨⟨utf8 "0009223372036854775807", Or.inr rfl, ⟨by decide, by decide +kernel⟩, rfl⟩,
      by decide, by decide⟩
  obtain ⟨r, hr, hok, haccepted, -⟩ :=
    set_accepts_positive_decimals {} Machine.initial rfl hname hword
  obtain ⟨-, -, -, hback⟩ := haccepted _ hspells
  exact ⟨rfl, hname, hword, hspells, r, hr 0, hok.mpr ⟨_, hspells⟩, hback⟩

end Machine

end LineScript

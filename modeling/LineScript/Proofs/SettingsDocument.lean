import LineScript.Proofs.Yaml.Mappings
import LineScript.Proofs.Yaml.Spelling
import LineScript.Settings.Decode

/-!
# Settings documents

A document can show settings with a line for each of them: truth values as words, the step limit in
decimal, and the text for missing variables between quotes. Any choice of settings in any order is
read as these settings over the default ones, whatever marks the text holds. With a line for a key
that no setting has the document is refused, wherever the line stands, and blank settings come of
it.

What a decoder is trusted with is said in a few properties of documents of this form, and the
settings of a document follow from them for every decoder that has them. The decoder of YAML
documents does.

## Main definitions

* `Settings.line`: the line of a setting
* `Settings.IsPlain`: the settings that a document can show
* `Settings.overlay`: some settings over others
* `Settings.IsUnknownKey`, `Decimal.IsNumber`: what stands on a line that is refused
* `Settings.refusal`: the problem with such a line
* `Settings.Decoder.Conforms`: what is taken for granted of a decoder

## Main results

* `Settings.Decoder.Conforms.parse_shown`: a document gives settings back
* `Settings.Decoder.Conforms.parse_refused`: with an unknown key it is refused
* `Settings.enterAll_entries`: settings are entered one after the other
* `Settings.conforms_yaml`: the decoder of YAML documents conforms
* `Settings.document_round_trip`: all of this together
-/

namespace LineScript

/-- A decimal number: digits after an optional sign, with an optional point among them. -/
def Decimal.IsNumber (t : Text) : Prop :=
  ∃ sign whole point digits : Text, t = sign ++ (whole ++ (point ++ digits)) ∧
    (sign = [] ∨ sign = utf8 "+" ∨ sign = utf8 "-") ∧ (point = [] ∨ point = utf8 ".") ∧
    Decimal.IsNumeral (whole ++ digits)

namespace Settings

open Yaml (Node entryNodes)

/-! ## Documents -/

/-- How a document shows a truth value. -/
def shownBool (b : Bool) : Text := if b then utf8 "true" else utf8 "false"

/-- How a document shows the value of a setting: the text for missing variables stands between
quotes. -/
def shown (s : Settings) : Field → Text
  | .verbose => shownBool s.verbose
  | .noColor => shownBool s.noColor
  | .maxSteps => Decimal.ofInt s.maxSteps
  | .notFound => utf8 "\"" ++ s.notFound ++ utf8 "\""
  | .redefine => shownBool s.redefine

/-- The line of a document with a key and a value. -/
def keyLine (key value : Text) : Text := key ++ utf8 ": " ++ value

/-- The line of a setting. -/
def line (s : Settings) (field : Field) : Text := keyLine field.key (s.shown field)

/-- The settings `s` in some fields, and others elsewhere. -/
def overlay (s base : Settings) (fields : List Field) : Settings where
  verbose := if .verbose ∈ fields then s.verbose else base.verbose
  noColor := if .noColor ∈ fields then s.noColor else base.noColor
  maxSteps := if .maxSteps ∈ fields then s.maxSteps else base.maxSteps
  notFound := if .notFound ∈ fields then s.notFound else base.notFound
  redefine := if .redefine ∈ fields then s.redefine else base.redefine

/-- Settings with the default text for missing variables in place of an empty one. -/
def filled (s : Settings) : Settings :=
  if s.notFound = [] then { s with notFound := default.notFound } else s

/-- **Settings that a document can show**: the step limit is a number that 64 bits hold, and the
text for missing variables is printable ASCII that needs no escapes. -/
structure IsPlain (s : Settings) : Prop where
  limit : 0 ≤ s.maxSteps ∧ s.maxSteps ≤ 0x7FFFFFFFFFFFFFFF
  message : ∀ b ∈ s.notFound, 0x20 ≤ b.toNat ∧ b.toNat ≤ 0x7E ∧ b ≠ 34 ∧ b ≠ 92

/-- The entry of a setting. -/
def entry (s : Settings) : Field → Yaml.Entry
  | .verbose => ⟨Field.verbose.key, true, shownBool s.verbose⟩
  | .noColor => ⟨Field.noColor.key, true, shownBool s.noColor⟩
  | .maxSteps => ⟨Field.maxSteps.key, true, Decimal.ofInt s.maxSteps⟩
  | .notFound => ⟨Field.notFound.key, false, s.notFound⟩
  | .redefine => ⟨Field.redefine.key, true, shownBool s.redefine⟩

variable {s base : Settings} {field : Field} {fields : List Field}

theorem line_entry (s : Settings) (field : Field) : (s.entry field).line = s.line field := by
  cases field <;> rfl

theorem key_entry (s : Settings) (field : Field) : (s.entry field).key = field.key := by
  cases field <;> rfl

theorem overlay_nil (s base : Settings) : overlay s base [] = base := by
  simp [overlay]

theorem overlay_cons (s base : Settings) (field : Field) (fields : List Field) :
    overlay s base (field :: fields) = overlay s (overlay s base [field]) fields := by
  cases field <;> simp [overlay]

theorem overlay_append (s base : Settings) (before after : List Field) :
    overlay s base (before ++ after) = overlay s (overlay s base before) after := by
  induction before generalizing base with
  | nil => rw [overlay_nil, List.nil_append]
  | cons field before ih => rw [List.cons_append, overlay_cons, ih, ← overlay_cons]

/-- **A key that no setting has**: a word of lower-case letters and underscores, and not null. -/
structure IsUnknownKey (key : Text) : Prop where
  word : key ≠ [] ∧ ∀ b ∈ key, Yaml.isKeyByte b = true
  unknown : ∀ field : Field, key ≠ field.key
  ne_null : key ≠ utf8 "null"

/-- Why a document is refused in which an unknown key stands on the given line. A key that is too
long for its colon is not even YAML. -/
def refusal (key : Text) (line : Nat) : Problem :=
  if key.length ≤ Yaml.KeyMark.reach then .entries [.unknownKey key line] else .malformed

/-! ## What a decoder is trusted with -/

/-- **What is taken for granted of a decoder**, of documents with one setting on each line. -/
structure Decoder.Conforms (decoder : Decoder) : Prop where
  /-- The empty text has no content, and changes nothing. -/
  empty : ∀ base : Settings, decoder [] base = ⟨base, some .noDocument⟩
  /-- Lines for different settings give them their values, and leave the other settings. -/
  assigns : ∀ (s base : Settings) (fields : List Field) (ended : Bool), s.IsPlain →
    fields.Nodup → fields ≠ [] →
    decoder (Text.ofLines ended (fields.map s.line)) base = ⟨overlay s base fields, none⟩
  /-- A line with an unknown key among them is reported. Nothing is said of the settings. -/
  reports : ∀ (s base : Settings) (before after : List Field) (key n : Text) (ended : Bool),
    s.IsPlain → (before ++ after).Nodup → IsUnknownKey key → Decimal.IsNumber n →
    (decoder (Text.ofLines ended (before.map s.line ++ keyLine key n :: after.map s.line))
      base).problem = some (refusal key (before.length + 1))

theorem settle_overlay (hs : s.IsPlain) (fields : List Field) :
    (overlay s default fields).settle = ⟨overlay s.filled default fields, none⟩ := by
  have hlimit : ¬ (overlay s default fields).maxSteps < 0 := by
    have hdefault : (0 : Int) ≤ default.maxSteps := by decide
    have hchosen := hs.limit.1
    rw [overlay]
    dsimp only
    split <;> omega
  have hdefault : default.notFound ≠ [] := by decide
  rw [settle, if_neg hlimit]
  by_cases hmem : Field.notFound ∈ fields
  · by_cases hempty : s.notFound = []
    · simp [overlay, filled, hmem, hempty]
      rfl
    · simp [overlay, filled, hmem, hempty]
  · by_cases hempty : s.notFound = []
    · simp [overlay, filled, hmem, hempty, hdefault]
    · simp [overlay, filled, hmem, hempty, hdefault]

theorem refusal_ne_noDocument (key : Text) (line : Nat) : refusal key line ≠ .noDocument := by
  rw [refusal]
  split <;> intro h <;> cases h

/-- A document for which the decoder reports a problem is refused, whatever has been laid over the
default settings. -/
theorem parse_of_problem {decoder : Decoder} {text : Text} {problem : Problem}
    (h : (decoder text default).problem = some problem) (hne : problem ≠ .noDocument) :
    parse decoder text = .refused problem := by
  rw [parse, h]
  cases problem with
  | noDocument => exact absurd rfl hne
  | _ => rfl

/-- **A document of settings** gives them back. -/
theorem Decoder.Conforms.parse_shown {decoder : Decoder} (h : decoder.Conforms) (hs : s.IsPlain)
    (hnodup : fields.Nodup) (ended : Bool) :
    parse decoder (Text.ofLines ended (fields.map s.line)) =
      ⟨overlay s.filled default fields, none⟩ := by
  rw [← settle_overlay hs, parse]
  by_cases hnil : fields = []
  · have hempty : Text.ofLines ended (fields.map s.line) = [] := by
      rw [hnil]
      cases ended <;> rfl
    rw [hempty, h.empty, hnil, overlay_nil]
  · rw [h.assigns s default fields ended hs hnodup hnil]

/-- **A document with an unknown key** is refused, and blank settings come of it. -/
theorem Decoder.Conforms.parse_refused {decoder : Decoder} {before after : List Field}
    {key n : Text} (h : decoder.Conforms) (hs : s.IsPlain) (hnodup : (before ++ after).Nodup)
    (hkey : IsUnknownKey key) (hn : Decimal.IsNumber n) (ended : Bool) :
    parse decoder (Text.ofLines ended (before.map s.line ++ keyLine key n :: after.map s.line)) =
      ⟨blank, some (refusal key (before.length + 1))⟩ :=
  parse_of_problem (h.reports s default before after key n ended hs hnodup hkey hn)
    (refusal_ne_noDocument key _)

theorem isKeyWord_key (field : Field) : Yaml.IsKeyWord field.key := by
  cases field <;> constructor <;> decide +kernel

/-! ## Entries that can be read back -/

theorem isScalarWord_shownBool (b : Bool) : Yaml.IsScalarWord (shownBool b) := by
  cases b <;> refine ⟨by decide, by decide, ?_⟩ <;> decide +kernel

theorem ofInt_eq_ofNat (h : 0 ≤ s.maxSteps) :
    Decimal.ofInt s.maxSteps = Decimal.ofNat s.maxSteps.natAbs :=
  if_neg (Int.not_lt.mpr h)

theorem IsPlain.isScalarWord_maxSteps (hs : s.IsPlain) :
    Yaml.IsScalarWord (Decimal.ofInt s.maxSteps) := by
  rw [ofInt_eq_ofNat hs.limit.1]
  obtain ⟨hne, hdigits⟩ := (Decimal.isCanonical_ofNat s.maxSteps.natAbs).numeral
  refine ⟨hne, ?_, ?_⟩
  · intro hdash
    exact absurd (hdigits 45 (hdash ▸ List.mem_cons_self)) (by decide)
  · intro b hb
    simp [Yaml.isScalarByte, hdigits b hb]

/-- An entry with a word as its key and a plain value. -/
theorem isSound_plain {key value : Text} (hkey : Yaml.IsKeyWord key)
    (hvalue : Yaml.IsScalarWord value) : Yaml.Entry.IsSound ⟨key, true, value⟩ where
  key := hkey.isKey
  asciiKey := hkey.isScalarWord.ascii
  asciiValue := hvalue.ascii
  plain := fun _ => hvalue.isPlain
  quoted := nofun

theorem IsPlain.isSound_entry (hs : s.IsPlain) (field : Field) : (s.entry field).IsSound := by
  cases field with
  | verbose => exact isSound_plain (isKeyWord_key .verbose) (isScalarWord_shownBool s.verbose)
  | noColor => exact isSound_plain (isKeyWord_key .noColor) (isScalarWord_shownBool s.noColor)
  | maxSteps => exact isSound_plain (isKeyWord_key .maxSteps) hs.isScalarWord_maxSteps
  | notFound =>
    have hkey := isKeyWord_key .notFound
    refine ⟨hkey.isKey, hkey.isScalarWord.ascii,
      fun b hb => ⟨(hs.message b hb).1, (hs.message b hb).2.1⟩, nofun, fun _ => ⟨?_, ?_⟩⟩
    · exact fun hmem => (hs.message 34 hmem).2.2.1 rfl
    · exact fun hmem => (hs.message 92 hmem).2.2.2 rfl
  | redefine => exact isSound_plain (isKeyWord_key .redefine) (isScalarWord_shownBool s.redefine)

/-! ## Entering settings -/

/-- A word of lower-case letters and underscores merges nothing. -/
theorem ne_merge_of_isKeyWord {key : Text} (hkey : Yaml.IsKeyWord key) : key ≠ utf8 "<<" := by
  rintro rfl
  exact absurd (hkey.2 60 (by decide)) (by decide)

/-- A key word is the text of its node, even where it could be a truth value. -/
theorem decodeText_key {key : Text} (hkey : Yaml.IsKeyWord key) (hnull : key ≠ utf8 "null")
    (line : Nat) :
    decodeText (.scalar line (Node.plainTag key) key) = .value key := by
  rw [Node.plainTag, if_neg (ne_merge_of_isKeyWord hkey)]
  rcases hkey.tag_ofPlain hnull with htag | htag
  · rw [htag]
    rfl
  · obtain ⟨b, hb⟩ : ∃ b, Yaml.Scalar.ofPlain key = .bool b := by
      cases hplain : Yaml.Scalar.ofPlain key with
      | bool b => exact ⟨b, rfl⟩
      | _ => rw [hplain] at htag; cases htag
    have hvalue : Node.valueOf? .bool key = some (.scalar (.bool b)) := by
      simp [Node.valueOf?, Node.valueOf?.ofSpelling, hb, Yaml.Scalar.tag]
    rw [htag, decodeText, decode, hvalue]

theorem decodeBool_shownBool (b : Bool) (line : Nat) :
    decodeBool (.scalar line (Node.plainTag (shownBool b)) (shownBool b)) = .value b := by
  cases b <;> rfl

theorem decodeInt_ofInt (h : 0 ≤ s.maxSteps ∧ s.maxSteps ≤ 0x7FFFFFFFFFFFFFFF) (line : Nat) :
    decodeInt (.scalar line (Node.plainTag (Decimal.ofInt s.maxSteps)) (Decimal.ofInt s.maxSteps)) =
      .value s.maxSteps := by
  have hcanonical := Decimal.isCanonical_ofNat s.maxSteps.natAbs
  have hplain : Yaml.Scalar.ofPlain (Decimal.ofNat s.maxSteps.natAbs) = .int s.maxSteps := by
    rw [Yaml.Scalar.ofPlain_of_isCanonical hcanonical (by omega), Int.natAbs_of_nonneg h.1]
  have hmerge : Decimal.ofNat s.maxSteps.natAbs ≠ utf8 "<<" := by
    intro heq
    exact absurd (hcanonical.numeral.2 60 (by rw [heq]; decide)) (by decide)
  have hvalue : Node.valueOf? .int (Decimal.ofNat s.maxSteps.natAbs) =
      some (.scalar (.int s.maxSteps)) := by
    simp [Node.valueOf?, Node.valueOf?.ofSpelling, hplain, Yaml.Scalar.tag]
  have hfits : Decimal.fits s.maxSteps = true := by
    simp only [Decimal.fits, Bool.and_eq_true, decide_eq_true_eq]
    omega
  rw [ofInt_eq_ofNat h.1, Node.plainTag, if_neg hmerge, hplain, Yaml.Scalar.tag, decodeInt, decode,
    hvalue]
  simp [hfits]

theorem assign_entry (hs : s.IsPlain) (base : Settings) (field : Field) (line : Nat) :
    assign base ((s.entry field).nodes line).2 field = some (overlay s base [field], []) := by
  cases field with
  | verbose =>
    exact congrArg (change base fun b => { base with verbose := b })
      (decodeBool_shownBool s.verbose (line + 1))
  | noColor =>
    exact congrArg (change base fun b => { base with noColor := b })
      (decodeBool_shownBool s.noColor (line + 1))
  | maxSteps =>
    exact congrArg (change base fun n => { base with maxSteps := n })
      (decodeInt_ofInt hs.limit (line + 1))
  | notFound => rfl
  | redefine =>
    exact congrArg (change base fun b => { base with redefine := b })
      (decodeBool_shownBool s.redefine (line + 1))

variable {done : List Field} {rest : List (Node × Node)} {key : Text}

theorem isMerge_key (hkey : Yaml.IsKeyWord key) (line : Nat) (tag : Yaml.Tag) :
    Node.isMerge (.scalar line tag key) = false := by
  simp [Node.isMerge, ne_merge_of_isKeyWord hkey]

/-- A setting is entered if no other entry has been entered for it. -/
theorem enterAll_entry (hs : s.IsPlain) (base : Settings) (hfield : field ∉ done) (line : Nat) :
    enterAll none done base ((s.entry field).nodes line :: rest) =
      enterAll none (field :: done) (overlay s base [field]) rest := by
  have hkey := isKeyWord_key field
  have hnull : field.key ≠ utf8 "null" := by cases field <;> decide
  have hnodes : (s.entry field).nodes line =
      (.scalar (line + 1) (Node.plainTag field.key) field.key, ((s.entry field).nodes line).2) := by
    rw [← key_entry s field]
    rfl
  have hsame : Outcome.after [] = id := rfl
  rw [hnodes, enterAll, isMerge_key hkey, decodeText_key hkey hnull]
  simp [hfield, assign_entry hs, hsame]

/-- A key that no setting has is reported. -/
theorem enterAll_unknown (hkey : Yaml.IsKeyWord key) (hnull : key ≠ utf8 "null")
    (hfield : ∀ field : Field, key ≠ field.key) (base : Settings) (value : Node) (line : Nat) :
    enterAll none done base ((.scalar line (Node.plainTag key) key, value) :: rest) =
      (enterAll none done base rest).map (.after [.unknownKey key line]) := by
  have hnone : Field.ofKey? key = none := by
    rw [Field.ofKey?, List.find?_eq_none]
    intro field _ heq
    exact hfield field (of_decide_eq_true heq).symm
  rw [enterAll, isMerge_key hkey, decodeText_key hkey hnull]
  simp [hnone, Node.line]

/-- **Settings are entered one after the other.** -/
theorem enterAll_entries (hs : s.IsPlain) (base : Settings) (hnodup : fields.Nodup)
    (hdone : ∀ field ∈ fields, field ∉ done) (line : Nat) :
    enterAll none done base (entryNodes line (fields.map s.entry) ++ rest) =
      enterAll none (fields.reverse ++ done) (overlay s base fields) rest := by
  induction fields generalizing base done line with
  | nil =>
    rw [overlay_nil]
    rfl
  | cons field fields ih =>
    obtain ⟨hfield, hfields⟩ := List.nodup_cons.mp hnodup
    obtain ⟨hfirst, hothers⟩ := List.forall_mem_cons.mp hdone
    have hnext : ∀ other ∈ fields, other ∉ field :: done := by
      intro other hother hmem
      rcases List.mem_cons.mp hmem with rfl | hmem
      · exact hfield hother
      · exact hothers other hother hmem
    rw [List.map_cons, entryNodes, List.cons_append, enterAll_entry hs base hfirst,
      ih _ hfields hnext, ← overlay_cons, List.reverse_cons, List.append_assoc]
    rfl

/-! ## Whole documents -/

variable {es : List Yaml.Entry} {ended : Bool}

theorem duplicates_entryNodes (h : (es.map Yaml.Entry.key).Nodup) (line : Nat) :
    duplicates (entryNodes line es) = [] := by
  induction es generalizing line with
  | nil => rfl
  | cons e es ih =>
    rw [List.map_cons, List.nodup_cons] at h
    have hfirst : (entryNodes (line + 1) es).filter
        (fun entry => (e.nodes line).1.sameKey entry.1) = [] := by
      rw [List.filter_eq_nil_iff]
      intro entry hentry hsame
      obtain ⟨e', he', l, rfl⟩ := Yaml.exists_of_mem_entryNodes hentry
      have hkeys : e.key = e'.key := of_decide_eq_true hsame
      exact h.1 (hkeys ▸ List.mem_map_of_mem he')
    rw [entryNodes, ← Prod.eta (e.nodes line), duplicates, hfirst, ih h.2]
    rfl

/-- A mapping without equal keys and without a key that merges is entered entry by entry. -/
theorem enterMapping_entryNodes (hnodup : (es.map Yaml.Entry.key).Nodup)
    (hkeys : ∀ e ∈ es, Yaml.IsKeyWord e.key) (fuel : Nat) (base : Settings) :
    enterMapping (fuel + 1) none base (entryNodes 0 es) =
      enterAll none [] base (entryNodes 0 es) := by
  have hfind : (entryNodes 0 es).find? (fun entry => entry.1.isMerge) = none := by
    rw [List.find?_eq_none]
    intro entry hentry hmerge
    obtain ⟨e, he, l, rfl⟩ := Yaml.exists_of_mem_entryNodes hentry
    rw [Yaml.Entry.nodes, isMerge_key (hkeys e he)] at hmerge
    cases hmerge
  rw [enterMapping, duplicates_entryNodes hnodup]
  simp [hfind]

/-- A mapping of words to values is laid over settings, with complaints about it. -/
theorem yaml_entries {o : Outcome} (hsound : ∀ e ∈ es, e.IsSound)
    (hreach : ∀ e ∈ es, e.key.length ≤ Yaml.KeyMark.reach)
    (hkeys : ∀ e ∈ es, Yaml.IsKeyWord e.key)
    (hnodup : (es.map Yaml.Entry.key).Nodup) (hne : es ≠ []) (base : Settings)
    (henter : enterAll none [] base (entryNodes 0 es) = some o) :
    Decoder.yaml (Text.ofLines ended (es.map Yaml.Entry.line)) base =
      ⟨o.settings, if o.complaints = [] then none else some (.entries o.complaints)⟩ := by
  rw [Decoder.yaml, Yaml.read_ofLines hsound hreach hne]
  show layNode _ _ _ = _
  rw [layNode, enterMapping_entryNodes hnodup hkeys, henter]
  obtain ⟨s, complaints, taken⟩ := o
  cases complaints <;> rfl

theorem map_entry_line (s : Settings) (fields : List Field) :
    (fields.map s.entry).map Yaml.Entry.line = fields.map s.line := by
  rw [List.map_map]
  exact List.map_congr_left fun field _ => line_entry s field

theorem map_entry_key (s : Settings) (fields : List Field) :
    (fields.map s.entry).map Yaml.Entry.key = fields.map Field.key := by
  rw [List.map_map]
  exact List.map_congr_left fun field _ => key_entry s field

theorem Field.key_injective {f g : Field} (h : f.key = g.key) : f = g := by
  have hsome := Field.ofKey?_key f
  rw [h, Field.ofKey?_key] at hsome
  exact (Option.some.inj hsome).symm

theorem nodup_keys (h : fields.Nodup) : (fields.map Field.key).Nodup :=
  List.Pairwise.map Field.key (fun _ _ hne heq => hne (Field.key_injective heq)) h

theorem IsPlain.isSound_entries (hs : s.IsPlain) (fields : List Field) :
    ∀ e ∈ fields.map s.entry, e.IsSound := by
  intro e he
  obtain ⟨field, -, rfl⟩ := List.mem_map.mp he
  exact hs.isSound_entry field

theorem length_key_le (s : Settings) (fields : List Field) :
    ∀ e ∈ fields.map s.entry, e.key.length ≤ Yaml.KeyMark.reach := by
  intro e he
  obtain ⟨field, -, rfl⟩ := List.mem_map.mp he
  rw [key_entry]
  cases field <;> decide

theorem isKeyWord_entries (s : Settings) (fields : List Field) :
    ∀ e ∈ fields.map s.entry, Yaml.IsKeyWord e.key := by
  intro e he
  obtain ⟨field, -, rfl⟩ := List.mem_map.mp he
  rw [key_entry]
  exact isKeyWord_key field

/-- The lines of settings are laid over others. -/
theorem yaml_assigns (hs : s.IsPlain) (base : Settings) (hnodup : fields.Nodup) (hne : fields ≠ [])
    (ended : Bool) :
    Decoder.yaml (Text.ofLines ended (fields.map s.line)) base = ⟨overlay s base fields, none⟩ := by
  have henter : enterAll none [] base (entryNodes 0 (fields.map s.entry)) =
      some ⟨overlay s base fields, [], none⟩ := by
    rw [← List.append_nil (entryNodes 0 (fields.map s.entry)),
      enterAll_entries hs base hnodup (by simp)]
    rfl
  rw [← map_entry_line]
  exact yaml_entries (hs.isSound_entries fields) (length_key_le s fields)
    (isKeyWord_entries s fields) (by rw [map_entry_key]; exact nodup_keys hnodup)
    (by simpa using hne) base henter

variable {before after : List Field} {n : Text}

theorem isScalarWord_of_isNumber (h : Decimal.IsNumber n) : Yaml.IsScalarWord n := by
  obtain ⟨sign, whole, point, digits, rfl, hsign, hpoint, hne, hdigits⟩ := h
  obtain ⟨hwhole, hfraction⟩ := List.forall_mem_append.mp hdigits
  -- Some digit is a part of the number.
  obtain ⟨d, hd⟩ := List.exists_mem_of_ne_nil _ hne
  have hmem : d ∈ sign ++ (whole ++ (point ++ digits)) := by
    rcases List.mem_append.mp hd with hd | hd
    · exact List.mem_append_right _ (List.mem_append_left _ hd)
    · exact List.mem_append_right _ (List.mem_append_right _ (List.mem_append_right _ hd))
  have hdigit : ∀ b : UInt8, 48 ≤ b.toNat ∧ b.toNat ≤ 57 → Yaml.isScalarByte b = true :=
    fun b hb => by simp [Yaml.isScalarByte, hb]
  have hmarks : ∀ b ∈ utf8 "+" ++ (utf8 "-" ++ utf8 "."), Yaml.isScalarByte b = true := by
    decide +kernel
  refine ⟨List.ne_nil_of_mem hmem, ?_, ?_⟩
  · intro hdash
    rw [hdash, List.mem_singleton] at hmem
    exact absurd (hmem ▸ hdigits d hd) (by decide)
  · simp only [List.forall_mem_append] at hmarks ⊢
    refine ⟨?_, fun b hb => hdigit b (hwhole b hb), ?_, fun b hb => hdigit b (hfraction b hb)⟩
    · rcases hsign with rfl | rfl | rfl
      · exact List.forall_mem_nil _
      · exact hmarks.1
      · exact hmarks.2.1
    · rcases hpoint with rfl | rfl
      · exact List.forall_mem_nil _
      · exact hmarks.2.2

/-- What is entered of a document with an unknown key. -/
theorem enterAll_refused (hs : s.IsPlain) (base : Settings) (hnodup : (before ++ after).Nodup)
    (hkey : IsUnknownKey key) (value : Text) :
    enterAll none [] base
        (entryNodes 0 (before.map s.entry ++ ⟨key, true, value⟩ :: after.map s.entry)) =
      some ⟨overlay s base (before ++ after), [.unknownKey key (before.length + 1)], none⟩ := by
  obtain ⟨hbefore, hafter, hdisjoint⟩ := List.nodup_append.mp hnodup
  have hdone : ∀ field ∈ after, field ∉ before.reverse ++ [] := by
    intro field hfield hmem
    exact hdisjoint field (by simpa using hmem) field hfield rfl
  have hrest : enterAll none (before.reverse ++ []) (overlay s base before)
      (entryNodes (0 + before.length + 1) (after.map s.entry)) =
        some ⟨overlay s base (before ++ after), [], none⟩ := by
    rw [← List.append_nil (entryNodes _ (after.map s.entry)),
      enterAll_entries hs _ hafter hdone, ← overlay_append]
    rfl
  rw [Yaml.entryNodes_append, enterAll_entries hs base hbefore (by simp), List.length_map,
    entryNodes, Yaml.Entry.nodes, enterAll_unknown hkey.word hkey.ne_null hkey.unknown, hrest,
    Nat.zero_add]
  rfl

/-- A line with an unknown key among those of settings is reported. -/
theorem yaml_reports (hs : s.IsPlain) (base : Settings) (hnodup : (before ++ after).Nodup)
    (hkey : IsUnknownKey key) (hn : Decimal.IsNumber n) (ended : Bool) :
    (Decoder.yaml (Text.ofLines ended (before.map s.line ++ keyLine key n :: after.map s.line))
      base).problem = some (refusal key (before.length + 1)) := by
  let e : Yaml.Entry := ⟨key, true, n⟩
  have hlines : before.map s.line ++ keyLine key n :: after.map s.line =
      (before.map s.entry ++ e :: after.map s.entry).map Yaml.Entry.line := by
    rw [List.map_append, List.map_cons, map_entry_line, map_entry_line]
    rfl
  have hsound : ∀ entry ∈ before.map s.entry ++ e :: after.map s.entry, entry.IsSound :=
    List.forall_mem_append.mpr ⟨hs.isSound_entries before, List.forall_mem_cons.mpr
      ⟨isSound_plain hkey.word (isScalarWord_of_isNumber hn), hs.isSound_entries after⟩⟩
  rw [hlines, refusal]
  by_cases hreach : key.length ≤ Yaml.KeyMark.reach
  · have hkeys : (before.map s.entry ++ e :: after.map s.entry).map Yaml.Entry.key =
        before.map Field.key ++ key :: after.map Field.key := by
      rw [List.map_append, List.map_cons, map_entry_key, map_entry_key]
    have hdistinct : (before.map Field.key ++ key :: after.map Field.key).Nodup := by
      rw [List.perm_middle.nodup_iff, List.nodup_cons, ← List.map_append]
      refine ⟨fun hmem => ?_, nodup_keys hnodup⟩
      obtain ⟨field, -, hfield⟩ := List.mem_map.mp hmem
      exact hkey.unknown field hfield.symm
    rw [if_pos hreach, yaml_entries hsound
      (List.forall_mem_append.mpr ⟨length_key_le s before, List.forall_mem_cons.mpr
        ⟨hreach, length_key_le s after⟩⟩)
      (List.forall_mem_append.mpr ⟨isKeyWord_entries s before, List.forall_mem_cons.mpr
        ⟨hkey.word, isKeyWord_entries s after⟩⟩)
      (hkeys ▸ hdistinct) (by simp) base (enterAll_refused hs base hnodup hkey n)]
    rfl
  · rw [if_neg hreach, Decoder.yaml,
      Yaml.read_far hsound (length_key_le s before) (Nat.lt_of_not_le hreach)]

/-- **The decoder of YAML documents conforms.** -/
theorem conforms_yaml : Decoder.yaml.Conforms where
  empty _ := rfl
  assigns _ base _ ended hs hnodup hne := yaml_assigns hs base hnodup hne ended
  reports _ base _ _ _ _ ended hs hnodup hkey hn := yaml_reports hs base hnodup hkey hn ended

/-- **Documents give settings back.** With any decoder that conforms, as the one of YAML documents
does, a document that shows some settings, one on each line and in any order, is read as these
settings over the default ones. With a further line for an unknown key between any two of its lines,
before the first or behind the last, it is refused: blank settings come of it, beside the
problem. -/
theorem document_round_trip :
    Decoder.yaml.Conforms ∧
      ∀ decoder : Decoder, decoder.Conforms →
        ∀ (s : Settings) (fields : List Field) (ended : Bool), s.IsPlain → fields.Nodup →
          parse decoder (Text.ofLines ended (fields.map s.line)) =
              ⟨overlay s.filled default fields, none⟩ ∧
            ∀ (before after : List Field) (key n : Text), fields = before ++ after →
              IsUnknownKey key → Decimal.IsNumber n →
              parse decoder
                  (Text.ofLines ended (before.map s.line ++ keyLine key n :: after.map s.line)) =
                ⟨blank, some (refusal key (before.length + 1))⟩ := by
  refine ⟨conforms_yaml, fun decoder h s fields ended hs hnodup =>
    ⟨h.parse_shown hs hnodup ended, ?_⟩⟩
  rintro before after key n rfl hkey hn
  exact h.parse_refused hs hnodup hkey hn ended

/-- Settings with the greatest step limit, and a text of marks that mean something elsewhere. -/
def marked : Settings where
  verbose := true
  noColor := false
  maxSteps := 0x7FFFFFFFFFFFFFFF
  notFound := utf8 "# no: \x7bsuch\x7d  - word"
  redefine := true

/-- The two lines of a document that shows them. -/
def markedLines : List Text :=
  [utf8 "not_found_message: \"# no: \x7bsuch\x7d  - word\"", utf8 "max_steps: 9223372036854775807"]

theorem marked_round_trip :
    marked.IsPlain ∧ [Field.notFound, .maxSteps].Nodup ∧ IsUnknownKey (utf8 "true") ∧
      Decimal.IsNumber (utf8 "-0.5") ∧
      parse .yaml (Text.ofLines true markedLines) =
        ⟨{ default with notFound := marked.notFound, maxSteps := marked.maxSteps }, none⟩ ∧
      parse .yaml
          (Text.ofLines true (markedLines.take 1 ++ utf8 "true: -0.5" :: markedLines.drop 1)) =
        ⟨⟨false, false, 0, [], false⟩, some (.entries [.unknownKey (utf8 "true") 2])⟩ := by
  have hplain : marked.IsPlain := ⟨by decide, by decide +kernel⟩
  have hnodup : [Field.notFound, .maxSteps].Nodup := by decide
  have hkey : IsUnknownKey (utf8 "true") :=
    ⟨by decide +kernel, fun field => by cases field <;> decide, by decide⟩
  have hnumber : Decimal.IsNumber (utf8 "-0.5") :=
    ⟨utf8 "-", utf8 "0", utf8 ".", utf8 "5", by decide, by decide, by decide, by decide,
      by decide +kernel⟩
  have hlines : [Field.notFound, .maxSteps].map marked.line = markedLines := by decide +kernel
  obtain ⟨hyaml, hparse⟩ := document_round_trip
  obtain ⟨hshown, hrefused⟩ := hparse .yaml hyaml marked _ true hplain hnodup
  have hrefusal : refusal (utf8 "true") 2 = .entries [.unknownKey (utf8 "true") 2] :=
    if_pos (by decide)
  have hinserted : [Field.notFound].map marked.line ++
      keyLine (utf8 "true") (utf8 "-0.5") :: [Field.maxSteps].map marked.line =
        markedLines.take 1 ++ utf8 "true: -0.5" :: markedLines.drop 1 := by decide +kernel
  have hparsed := hrefused [.notFound] [.maxSteps] _ _ rfl hkey hnumber
  rw [hinserted, List.length_singleton, hrefusal] at hparsed
  rw [hlines] at hshown
  exact ⟨hplain, hnodup, hkey, hnumber, hshown, hparsed⟩

end Settings

end LineScript

import LineScript.Settings.Basic
import LineScript.Shell.Script
import LineScript.Yaml.Document

/-!
# Settings documents

A settings document is a YAML mapping from keys to values. It is laid over the default
settings: a key that is missing, or whose value is null, leaves the default. Other mappings can
be merged into it; they give values only to keys that it does not have itself. Every entry that
does not fit is reported; where keys stand twice in a mapping, only they are. What a document is
and how it is laid over settings is up to a decoder; a document that a decoder finds something
wrong with is refused, and blank settings come of it.

## Main definitions

* `Settings.duplicates`: the keys that stand twice in a mapping
* `Settings.assign`: decodes the value of one setting
* `Settings.enterAll`: takes the entries of a mapping
* `Settings.Decoder`, `Settings.Decoder.yaml`: decoders, and the one for YAML documents
* `Settings.parse`: the settings of a document
* `Settings.load`: the settings of a file
-/

namespace LineScript.Settings

open Yaml (Node Value)

/-! ## Values -/

/-- What comes of decoding a node. -/
inductive Decoded (α : Type) where
  | value (a : α)
  | null
  | misfit (complaints : List Complaint)
  /-- The node contradicts itself. -/
  | malformed

/-- A complaint for each pair of equal keys, ordered by the first of the pair. -/
def duplicates : List (Node × Node) → List Complaint
  | [] => []
  | (key, _) :: rest =>
    (rest.filter fun entry => key.sameKey entry.1).map
        (fun entry => .duplicateKey entry.1.text entry.1.line key.line)
      ++ duplicates rest

/-- The complaints about a node that does not fit its type. In a mapping, keys that stand twice
come first. -/
def misfits (target : Target) : Node → List Complaint
  | .scalar line tag text => [.wrongType line tag text target]
  | .seq line tag _ => [.wrongType line tag [] target]
  | .map line tag entries =>
    match duplicates entries with
    | [] => [.wrongType line tag [] target]
    | complaints => complaints
  | .reference _ _ _ node => misfits target node

/-- Decodes a node by what a scalar holds. What `f` does not take does not fit. -/
def decode {α : Type} (target : Target) (f : Text → Value → Option α) : Node → Decoded α
  | .scalar line tag text =>
    match Node.valueOf? tag text with
    | none => .malformed
    | some (.scalar .null) => .null
    | some value =>
      match f text value with
      | some a => .value a
      | none => .misfit (misfits target (.scalar line tag text))
  | .reference _ _ _ node => decode target f node
  | node => .misfit (misfits target node)

/-- The words that mean yes. -/
def yesWords : List String := ["y", "Y", "yes", "Yes", "YES", "on", "On", "ON"]

/-- The words that mean no. -/
def noWords : List String := ["n", "N", "no", "No", "NO", "off", "Off", "OFF"]

/-- The truth value that a word stands for. -/
def boolWord? (t : Text) : Option Bool :=
  if yesWords.any fun w => utf8 w = t then some true
  else if noWords.any fun w => utf8 w = t then some false
  else none

/-- A truth value. -/
def decodeBool : Node → Decoded Bool :=
  decode .bool fun _ value =>
    match value with
    | .scalar (.bool b) => some b
    | .text t => boolWord? t
    | _ => none

/-- An integer that 64 bits hold. A floating-point number is cut to its integer part. -/
def decodeInt : Node → Decoded Int :=
  decode .int fun _ value =>
    match value with
    | .scalar (.int n) => if Decimal.fits n then some n else none
    | .scalar (.float f) => f.toInt64?
    | _ => none

/-- A text: that of any scalar. -/
def decodeText : Node → Decoded Text :=
  decode .string fun text value =>
    match value with
    | .text t => some t
    | _ => some text

/-! ## Entries -/

/-- Changes settings by a decoded value, if there is one. -/
def change {α : Type} (s : Settings) (set : α → Settings) :
    Decoded α → Option (Settings × List Complaint)
  | .value a => some (set a, [])
  | .null => some (s, [])
  | .misfit complaints => some (s, complaints)
  | .malformed => none

/-- Gives a setting the value of a node. -/
def assign (s : Settings) (node : Node) : Field → Option (Settings × List Complaint)
  | .verbose => change s (fun b => { s with verbose := b }) (decodeBool node)
  | .noColor => change s (fun b => { s with noColor := b }) (decodeBool node)
  | .maxSteps => change s (fun n => { s with maxSteps := n }) (decodeInt node)
  | .notFound => change s (fun t => { s with notFound := t }) (decodeText node)
  | .redefine => change s (fun b => { s with redefine := b }) (decodeBool node)

/-- What the entries of a mapping come to: the settings, the complaints, and, when the mapping is
merged into another one, the keys that are taken. -/
structure Outcome where
  settings : Settings
  complaints : List Complaint
  taken : Option (List Text)

/-- The outcome with further complaints in front. -/
def Outcome.after (complaints : List Complaint) (o : Outcome) : Outcome :=
  { o with complaints := complaints ++ o.complaints }

/-- Takes the entries of a mapping in order, after entries for the settings `done`. Keys that are
taken have no effect, nor have null keys and keys that merge. -/
def enterAll : (taken : Option (List Text)) → (done : List Field) → Settings →
    List (Node × Node) → Option Outcome
  | taken, _, s, [] => some ⟨s, [], taken⟩
  | taken, done, s, (key, value) :: rest =>
    if key.isMerge then enterAll taken done s rest
    else
      match decodeText key with
      | .malformed => none
      | .null => enterAll taken done s rest
      | .misfit complaints => (enterAll taken done s rest).map (.after complaints)
      | .value name =>
        if (taken.getD []).contains name then enterAll taken done s rest
        else
          let taken := taken.map (name :: ·)
          match Field.ofKey? name with
          | none => (enterAll taken done s rest).map (.after [.unknownKey name key.line])
          | some field =>
            if done.contains field then
              (enterAll taken done s rest).map (.after [.repeatedKey name key.line])
            else do
              let (s, complaints) ← s.assign value field
              (enterAll taken (field :: done) s rest).map (.after complaints)

/-! ## Merging -/

/-- The names among the keys of a mapping. Collections cannot be keys here. -/
def keyNames : List (Node × Node) → Option (List Text)
  | [] => some []
  | (key, _) :: rest =>
    match decode .string (fun _ value => some value) key with
    | .value (.text t) => (keyNames rest).map (t :: ·)
    | .value (.scalar _) => keyNames rest
    | .null => keyNames rest
    | .misfit _ => none
    | .malformed => none

/-- The entries of a mapping, or of a mapping that is referred to from outside of it. -/
def entriesOf? : Node → Option (List (Node × Node))
  | .map _ _ entries => some entries
  | .reference _ _ false (.map _ _ entries) => some entries
  | _ => none

/-- The mappings that a node merges: one, or a sequence of them. -/
def layers? : Node → Option (List (List (Node × Node)))
  | .seq _ _ items => items.mapM entriesOf?
  | node => (entriesOf? node).map fun entries => [entries]

mutual

/-- Takes the entries of a mapping, and then those of the mappings that are merged into it. The
fuel bounds how deep mappings are merged. -/
def enterMapping : (fuel : Nat) → (taken : Option (List Text)) → Settings →
    List (Node × Node) → Option Outcome
  | 0, _, _, _ => none
  | fuel + 1, taken, s, entries =>
    match duplicates entries with
    | [] => do
      let o ← enterAll taken [] s entries
      match entries.find? fun entry => entry.1.isMerge with
      | none => some o
      | some (_, merged) => do
        let layers ← layers? merged
        let names ← match o.taken with
          | some names => some names
          | none => keyNames entries
        let inner ← enterLayers fuel names o.settings layers
        let inner := inner.after o.complaints
        some (if taken.isSome then inner else { inner with taken := none })
    | complaints => some ⟨s, complaints, taken⟩

/-- Takes mappings that are merged, one after the other. -/
def enterLayers : (fuel : Nat) → (taken : List Text) → Settings →
    List (List (Node × Node)) → Option Outcome
  | 0, _, _, _ => none
  | _, taken, s, [] => some ⟨s, [], some taken⟩
  | fuel + 1, taken, s, layer :: layers => do
    let o ← enterMapping fuel (some taken) s layer
    let more ← enterLayers fuel (o.taken.getD taken) o.settings layers
    some (more.after o.complaints)

end

/-! ## Documents -/

/-- A decoder lays a document over settings. Where something is wrong with the document, some of
its entries may have been laid over them nevertheless. -/
abbrev Decoder : Type := Text → Settings → Reading Problem

/-- Lays a document's node over settings. -/
def layNode (fuel : Nat) (node : Node) (base : Settings) : Reading Problem :=
  match node with
  | .map _ _ entries =>
    match enterMapping fuel none base entries with
    | none => ⟨base, some .malformed⟩
    | some ⟨s, [], _⟩ => ⟨s, none⟩
    | some ⟨s, complaints, _⟩ => ⟨s, some (.entries complaints)⟩
  | node =>
    match decode .settings (fun _ _ => (none : Option Unit)) node with
    | .misfit complaints => ⟨base, some (.entries complaints)⟩
    | .malformed => ⟨base, some .malformed⟩
    | _ => ⟨base, none⟩

/-- The decoder of YAML documents. -/
def Decoder.yaml : Decoder := fun text base =>
  match Yaml.read text with
  | none => ⟨base, some .malformed⟩
  | some none => ⟨base, some .noDocument⟩
  | some (some node) => layNode (text.length + 2) node base

/-- The last check: the step limit must not be negative, and an empty text for missing variables
means the default one. -/
def settle (s : Settings) : Reading Problem :=
  if s.maxSteps < 0 then .refused (.negativeLimit s.maxSteps)
  else ⟨if s.notFound.isEmpty then { s with notFound := defaultNotFound } else s, none⟩

/-- The settings of a document, which is laid over the default ones. A document without content
leaves these. -/
def parse (decoder : Decoder) (text : Text) : Reading Problem :=
  let r := decoder text default
  match r.problem with
  | none => r.settings.settle
  | some .noDocument => r.settings.settle
  | some problem => .refused problem

/-- The settings of a file. A missing file gives the defaults if it is optional. -/
def load (decoder : Decoder) (path : Text) (optional : Bool) : Resource → Reading Failure
  | .missing =>
    if optional then ⟨default, none⟩
    else .refused (.context (utf8 "reading config " ++ path) (.missingFile path))
  | .directory => .refused (.context (utf8 "reading config " ++ path) (.directory path))
  | .content text =>
    let r := parse decoder text
    match r.problem with
    | none => ⟨r.settings, none⟩
    | some problem => .refused (.context (utf8 "config " ++ path) (.settings problem))

end LineScript.Settings

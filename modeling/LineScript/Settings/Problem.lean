import LineScript.Text.Decimal
import LineScript.Text.Quoted
import LineScript.Yaml.Tag

/-!
# What can be wrong with settings

A settings document can fail to be YAML, can have entries that do not fit, or can ask for a
negative number of steps. Entries that do not fit are reported all together.

## Main definitions

* `Settings.Target`: the types that values are decoded into
* `Settings.Complaint`: one entry that does not fit
* `Settings.Problem`: what can be wrong with a document
-/

namespace LineScript.Settings

/-- The types that values of a document are decoded into. -/
inductive Target where
  | bool
  | int
  | string
  | settings
  deriving DecidableEq, Repr

/-- How messages call a type. -/
def Target.name : Target → Text
  | bool => utf8 "bool"
  | int => utf8 "int"
  | string => utf8 "string"
  | settings => utf8 "config.Config"

/-- An entry of a document that does not fit. Lines are counted from one. -/
inductive Complaint where
  /-- A key that stands twice in one mapping. -/
  | duplicateKey (key : Text) (line first : Nat)
  /-- A key that no setting has. -/
  | unknownKey (key : Text) (line : Nat)
  /-- A key that names a setting which another key of the mapping names too. -/
  | repeatedKey (key : Text) (line : Nat)
  /-- A value of another type than its setting; a collection has no text. -/
  | wrongType (line : Nat) (tag : Yaml.Tag) (text : Text) (target : Target)
  deriving DecidableEq, Repr

/-- A text as messages show it: in full up to ten bytes, else the first seven and dots. -/
def excerpt (text : Text) : Text :=
  if text.length > 10 then text.take 7 ++ utf8 "..." else text

namespace Complaint

/-- The wording of a complaint. -/
def message : Complaint → Text
  | duplicateKey key line first =>
    utf8 "line " ++ Decimal.ofNat line ++ utf8 ": mapping key " ++ key.quoted
      ++ utf8 " already defined at line " ++ Decimal.ofNat first
  | unknownKey key line =>
    utf8 "line " ++ Decimal.ofNat line ++ utf8 ": field " ++ key
      ++ utf8 " not found in type " ++ Target.settings.name
  | repeatedKey key line =>
    utf8 "line " ++ Decimal.ofNat line ++ utf8 ": field " ++ key
      ++ utf8 " already set in type " ++ Target.settings.name
  | wrongType line tag text target =>
    let shown :=
      if tag = .seq ∨ tag = .map then text else utf8 " `" ++ excerpt text ++ utf8 "`"
    utf8 "line " ++ Decimal.ofNat line ++ utf8 ": cannot unmarshal " ++ tag.name ++ shown
      ++ utf8 " into " ++ target.name

end Complaint

/-- What can be wrong with a settings document. -/
inductive Problem where
  /-- The text is not a YAML document. -/
  | malformed
  /-- The text has no content, which is nothing to refuse it for. -/
  | noDocument
  /-- Some entries do not fit. -/
  | entries (complaints : List Complaint)
  /-- The step limit is below zero. -/
  | negativeLimit (limit : Int)
  deriving DecidableEq, Repr

/-- The wording of a problem. -/
def Problem.message : Problem → Text
  | malformed => utf8 "yaml: malformed document"
  | noDocument => utf8 "EOF"
  | entries complaints =>
    utf8 "yaml: unmarshal errors:" ++ complaints.flatMap fun c => utf8 "\n  " ++ c.message
  | negativeLimit limit =>
    utf8 "max_steps must not be negative, got " ++ Decimal.ofInt limit

end LineScript.Settings

import LineScript.Text.Basic

/-!
# Tokens

The tokens of a document are its indicators and scalars, together with marks where block
collections and keys begin and end, which indentation and colons imply.

## Main definitions

* `Yaml.Symbol`: the kinds of tokens
* `Yaml.Token`: a token and its line
-/

namespace LineScript.Yaml

/-- The kinds of tokens. -/
inductive Symbol where
  /-- A directive that tells the version of the format. -/
  | version (major minor : Nat)
  /-- A directive that tells what a tag handle stands for. -/
  | handle (name text : Text)
  | documentStart
  | documentEnd
  /-- The end of everything. -/
  | streamEnd
  | blockSequence
  | blockMapping
  | blockEnd
  | flowSequence
  | flowSequenceEnd
  | flowMapping
  | flowMappingEnd
  /-- The dash before an item of a block sequence. -/
  | item
  | comma
  | key
  | value
  | anchor (name : Text)
  /-- The name of an anchor in place of a node. -/
  | reference (name : Text)
  | tag (handle suffix : Text)
  /-- A scalar, plain or of another style. -/
  | scalar (plain : Bool) (text : Text)
  deriving DecidableEq, Repr

/-- A token and the number of lines before its own. -/
structure Token where
  line : Nat
  symbol : Symbol
  deriving DecidableEq, Repr

end LineScript.Yaml

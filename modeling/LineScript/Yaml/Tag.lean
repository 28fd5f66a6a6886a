import LineScript.Text.Basic

/-!
# Tags of YAML nodes

The tag of a node says what kind of value it holds.

## Main definitions

* `Yaml.Tag`: the kinds of values
* `Yaml.Tag.name`: how a tag is written
* `Yaml.Tag.ofUri`: the tag that a full name stands for
-/

namespace LineScript.Yaml

/-- The kinds of values that a node can hold. -/
inductive Tag where
  | null
  | bool
  | int
  | float
  | timestamp
  | str
  | binary
  /-- The key under which other mappings are merged into one. -/
  | merge
  | seq
  | map
  | other (name : Text)
  deriving DecidableEq, Repr

namespace Tag

/-- How a tag is written. -/
def name : Tag → Text
  | null => utf8 "!!null"
  | bool => utf8 "!!bool"
  | int => utf8 "!!int"
  | float => utf8 "!!float"
  | timestamp => utf8 "!!timestamp"
  | str => utf8 "!!str"
  | binary => utf8 "!!binary"
  | merge => utf8 "!!merge"
  | seq => utf8 "!!seq"
  | map => utf8 "!!map"
  | other name => name

/-- The tags with a meaning of their own. -/
def known : List Tag := [null, bool, int, float, timestamp, str, binary, merge, seq, map]

/-- The tag that is written so. -/
def ofName (t : Text) : Tag :=
  (known.find? fun tag => tag.name = t).getD (other t)

/-- The name space of the tags that are written with two exclamation marks. -/
def space : Text := utf8 "tag:yaml.org,2002:"

/-- The tag with the given full name. -/
def ofUri (t : Text) : Tag :=
  ofName (if space.isPrefixOf t then utf8 "!!" ++ t.drop space.length else t)

end Tag

end LineScript.Yaml

import LineScript.Yaml.Base64
import LineScript.Yaml.Scalar

/-!
# Nodes

A document is a tree of scalars, sequences and mappings. Every node knows the line it starts
on, counted from one, and its tag. A node may also stand for another one, by the name of that
one's anchor.

## Main definitions

* `Yaml.Node`: the nodes of a document
* `Yaml.Value`: what a scalar holds
* `Yaml.Node.value?`: what a scalar node holds
-/

namespace LineScript.Yaml

/-- The nodes of a document. -/
inductive Node where
  | scalar (line : Nat) (tag : Tag) (text : Text)
  | seq (line : Nat) (tag : Tag) (items : List Node)
  | map (line : Nat) (tag : Tag) (entries : List (Node × Node))
  /-- A reference to another node. If it stands within that node itself, which is then a
  collection, only the line and the tag of the node are known. -/
  | reference (line : Nat) (name : Text) (within : Bool) (target : Node)

/-- What a scalar holds. -/
inductive Value where
  | scalar (s : Scalar)
  | text (t : Text)
  deriving DecidableEq, Repr

namespace Node

/-- The line that a node starts on. -/
def line : Node → Nat
  | scalar line _ _ => line
  | seq line _ _ => line
  | map line _ _ => line
  | reference line _ _ _ => line

/-- The text of a node: that of a scalar, or the name of a reference. Collections have none. -/
def text : Node → Text
  | scalar _ _ text => text
  | seq _ _ _ => []
  | map _ _ _ => []
  | reference _ name _ _ => name

/-- The tag of a plain scalar that has no tag of its own. -/
def plainTag (text : Text) : Tag :=
  if text = utf8 "<<" then .merge else (Scalar.ofPlain text).tag

/-- Are two keys the same: nodes of one kind with one text? -/
def sameKey : Node → Node → Bool
  | scalar _ _ a, scalar _ _ b => a = b
  | seq _ _ _, seq _ _ _ => true
  | map _ _ _, map _ _ _ => true
  | reference _ a _ _, reference _ b _ _ => a = b
  | _, _ => false

/-- Is this the key under which other mappings are merged? -/
def isMerge : Node → Bool
  | scalar _ tag text => tag = .merge && text = utf8 "<<"
  | _ => false

/-- What a scalar with the given tag holds. The spelling must suit the tag, except that an integer
can be a floating-point number. -/
def valueOf? (tag : Tag) (text : Text) : Option Value :=
  match tag with
  | .binary => (Base64.decode? text).map .text
  | .str => some (.text text)
  | .null => ofSpelling
  | .bool => ofSpelling
  | .int => ofSpelling
  | .timestamp => ofSpelling
  | .float =>
    match Scalar.ofPlain text with
    | .int n => if Decimal.fits n then some (.scalar (.float (.ofInt n))) else none
    | _ => ofSpelling
  | _ => some (.text text)
where
  /-- The value that the spelling suggests. -/
  ofSpelling : Option Value :=
    let s := Scalar.ofPlain text
    if s.tag = tag then some (.scalar s) else none

end Node

end LineScript.Yaml

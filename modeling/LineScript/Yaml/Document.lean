import LineScript.Yaml.Lexer
import LineScript.Yaml.Node

/-!
# Documents

The nodes of a document are built from its tokens. Where a token is expected and there is none,
the source has an error there. Only the first document of a source is read, and nothing behind
it matters but that the next token can be found.

## Main definitions

* `Yaml.Builder`: the tokens that are left, and the anchors so far
* `Yaml.node`: the node at the next token
* `Yaml.read`: the first document of a text
-/

namespace LineScript.Yaml

/-! ## Anchors and tags -/

/-- A node that can be referred to by name. -/
structure Anchor where
  name : Text
  /-- Is the node still being built? Then it is a collection without its content. -/
  isOpen : Bool
  node : Node

/-- The tokens that are left, and the anchors so far, the latest first. -/
structure Builder where
  tokens : List Token
  anchors : List Anchor

namespace Builder

/-- The builder behind the next token. -/
def skip (b : Builder) : Builder := { b with tokens := b.tokens.tail }

/-- Does one of these symbols come next? -/
def isNext (b : Builder) (symbols : List Symbol) : Bool :=
  match b.tokens with
  | token :: _ => symbols.contains token.symbol
  | [] => false

/-- The number of the line of the next token, counted from one. -/
def nextLine (b : Builder) : Nat :=
  match b.tokens with
  | token :: _ => token.line + 1
  | [] => 0

/-- Announces an anchor for a node. -/
def announce (b : Builder) (anchor : Option Text) (isOpen : Bool) (node : Node) : Builder :=
  match anchor with
  | some name => { b with anchors := ⟨name, isOpen, node⟩ :: b.anchors }
  | none => b

/-- Gives the anchor that was announced after `count` others its node. -/
def complete (b : Builder) (anchor : Option Text) (count : Nat) (node : Node) : Builder :=
  match anchor with
  | some name =>
    let (later, earlier) := b.anchors.splitAt (b.anchors.length - (count + 1))
    { b with anchors := later ++ ⟨name, false, node⟩ :: earlier.tail }
  | none => b

/-- A reference to the latest anchor of the given name. -/
def refer (b : Builder) (line : Nat) (name : Text) : Option Node :=
  (b.anchors.find? fun anchor => anchor.name = name).map fun anchor =>
    .reference line name anchor.isOpen anchor.node

end Builder

/-- What tag handles stand for. -/
abbrev Handles : Type := List (Text × Text)

/-- The handles that need no directive. -/
def Handles.default : Handles := [([33], [33]), ([33, 33], Tag.space)]

/-- What stands before the content of a node. -/
structure Properties where
  anchor : Option Text
  /-- The full name of the tag. -/
  tag : Option Text
  /-- The line of the first property, counted from one. -/
  line : Option Nat

namespace Properties

/-- The tag of a node that would have the given one. A single exclamation mark is none. -/
def tagOr (p : Properties) (tag : Tag) : Tag :=
  match p.tag with
  | some t => if t = [33] then tag else .ofUri t
  | none => tag

/-- Is there a property? -/
def isPresent (p : Properties) : Bool := p.anchor.isSome || p.tag.isSome

end Properties

/-- The full name of a tag. -/
def Handles.resolve (handles : Handles) (handle suffix : Text) : Option Text :=
  if handle.isEmpty then some suffix
  else (handles.find? fun entry => entry.1 = handle).map fun entry => entry.2 ++ suffix

/-- The properties of a node: an anchor and a tag in either order, or one of them, or none. -/
def properties (handles : Handles) (b : Builder) : Option (Properties × Builder) :=
  match b.tokens with
  | ⟨line, .anchor name⟩ :: ⟨_, .tag handle suffix⟩ :: rest =>
    (handles.resolve handle suffix).map fun tag =>
      (⟨some name, some tag, some (line + 1)⟩, { b with tokens := rest })
  | ⟨line, .tag handle suffix⟩ :: ⟨_, .anchor name⟩ :: rest =>
    (handles.resolve handle suffix).map fun tag =>
      (⟨some name, some tag, some (line + 1)⟩, { b with tokens := rest })
  | ⟨line, .anchor name⟩ :: rest =>
    some (⟨some name, none, some (line + 1)⟩, { b with tokens := rest })
  | ⟨line, .tag handle suffix⟩ :: rest =>
    (handles.resolve handle suffix).map fun tag =>
      (⟨none, some tag, some (line + 1)⟩, { b with tokens := rest })
  | _ => some (⟨none, none, none⟩, b)

/-! ## Nodes -/

/-- The node for something that is left out. -/
def absent (line : Nat) : Node := .scalar line .null []

mutual

/-- The node at the next token. Block collections are read only if `block`, and a sequence that
is not indented only if `indentless`. The fuel bounds the number of nested parts. -/
def node (handles : Handles) :
    (fuel : Nat) → (block indentless : Bool) → Builder → Option (Node × Builder)
  | 0, _, _, _ => none
  | fuel + 1, block, indentless, b =>
    match b.tokens with
    | ⟨line, .reference name⟩ :: _ =>
      (b.refer (line + 1) name).map fun node => (node, b.skip)
    | _ => do
      let (p, b) ← properties handles b
      let line := p.line.getD b.nextLine
      let seq := Node.seq line (p.tagOr .seq)
      let map := Node.map line (p.tagOr .map)
      let count := b.anchors.length
      match b.tokens with
      | [] => none
      | ⟨_, .scalar plain text⟩ :: _ =>
        let tag := p.tagOr (if plain then Node.plainTag text else .str)
        let node := Node.scalar line tag text
        some (node, b.skip.announce p.anchor false node)
      | ⟨_, .flowSequence⟩ :: _ => do
        let (items, b) ← flowItems handles fuel true (b.skip.announce p.anchor true (seq []))
        some (seq items, b.complete p.anchor count (seq items))
      | ⟨_, .flowMapping⟩ :: _ => do
        let (entries, b) ← flowEntries handles fuel true (b.skip.announce p.anchor true (map []))
        some (map entries, b.complete p.anchor count (map entries))
      | _ =>
        if indentless && b.isNext [.item] then do
          let (items, b) ← looseItems handles fuel (b.announce p.anchor true (seq []))
          some (seq items, b.complete p.anchor count (seq items))
        else if block && b.isNext [.blockSequence] then do
          let (items, b) ← blockItems handles fuel (b.skip.announce p.anchor true (seq []))
          some (seq items, b.complete p.anchor count (seq items))
        else if block && b.isNext [.blockMapping] then do
          let (entries, b) ← blockEntries handles fuel (b.skip.announce p.anchor true (map []))
          some (map entries, b.complete p.anchor count (map entries))
        else if p.isPresent then
          let node := Node.scalar line (p.tagOr .null) []
          some (node, b.announce p.anchor false node)
        else none

/-- The node at the next token, unless one of these symbols comes there. -/
def nodeUnless (handles : Handles) : (fuel : Nat) → (symbols : List Symbol) → (line : Nat) →
    (block indentless : Bool) → Builder → Option (Node × Builder)
  | 0, _, _, _, _, _ => none
  | fuel + 1, symbols, line, block, indentless, b =>
    if b.isNext symbols then some (absent line, b) else node handles fuel block indentless b

/-- The items of a block sequence. -/
def blockItems (handles : Handles) : (fuel : Nat) → Builder → Option (List Node × Builder)
  | 0, _ => none
  | fuel + 1, b =>
    if b.isNext [.blockEnd] then some ([], b.skip)
    else if b.isNext [.item] then do
      let (item, b) ←
        nodeUnless handles fuel [.item, .blockEnd] b.nextLine true false b.skip
      let (items, b) ← blockItems handles fuel b
      some (item :: items, b)
    else none

/-- The items of a sequence that is not indented, which ends with its last item. -/
def looseItems (handles : Handles) : (fuel : Nat) → Builder → Option (List Node × Builder)
  | 0, _ => none
  | fuel + 1, b =>
    if b.tokens.isEmpty then none
    else if b.isNext [.item] then do
      let (item, b) ←
        nodeUnless handles fuel [.item, .key, .value, .blockEnd] b.nextLine true false b.skip
      let (items, b) ← looseItems handles fuel b
      some (item :: items, b)
    else some ([], b)

/-- The entries of a block mapping. -/
def blockEntries (handles : Handles) :
    (fuel : Nat) → Builder → Option (List (Node × Node) × Builder)
  | 0, _ => none
  | fuel + 1, b =>
    let ends := [Symbol.key, .value, .blockEnd]
    if b.isNext [.blockEnd] then some ([], b.skip)
    else if b.isNext [.key] then do
      let (key, b) ← nodeUnless handles fuel ends b.nextLine true true b.skip
      let (value, b) ←
        if b.tokens.isEmpty then none
        else if b.isNext [.value] then nodeUnless handles fuel ends b.nextLine true true b.skip
        else some (absent b.nextLine, b)
      let (entries, b) ← blockEntries handles fuel b
      some ((key, value) :: entries, b)
    else none

/-- The items of a flow sequence. Before the first one there is no comma. -/
def flowItems (handles : Handles) :
    (fuel : Nat) → (first : Bool) → Builder → Option (List Node × Builder)
  | 0, _, _ => none
  | fuel + 1, first, b =>
    if b.isNext [.flowSequenceEnd] then some ([], b.skip)
    else if !first && !b.isNext [.comma] then none
    else
      let b := if first then b else b.skip
      if b.isNext [.flowSequenceEnd] then some ([], b.skip)
      else do
        let (item, b) ←
          if b.isNext [.key] then flowPair handles fuel b.nextLine b.skip
          else node handles fuel false false b
        let (items, b) ← flowItems handles fuel false b
        some (item :: items, b)

/-- An item of a flow sequence that is a mapping of one entry. An empty key takes the symbol
behind it away. -/
def flowPair (handles : Handles) :
    (fuel : Nat) → (line : Nat) → Builder → Option (Node × Builder)
  | 0, _, _ => none
  | fuel + 1, line, b => do
    let (key, b) ←
      if b.isNext [.value, .comma, .flowSequenceEnd] then some (absent b.nextLine, b.skip)
      else node handles fuel false false b
    let (value, b) ←
      if b.tokens.isEmpty then none
      else if b.isNext [.value] then
        nodeUnless handles fuel [.comma, .flowSequenceEnd] b.nextLine false false b.skip
      else some (absent b.nextLine, b)
    some (.map line .map [(key, value)], b)

/-- The entries of a flow mapping. Before the first one there is no comma. -/
def flowEntries (handles : Handles) :
    (fuel : Nat) → (first : Bool) → Builder → Option (List (Node × Node) × Builder)
  | 0, _, _ => none
  | fuel + 1, first, b =>
    if b.isNext [.flowMappingEnd] then some ([], b.skip)
    else if !first && !b.isNext [.comma] then none
    else
      let b := if first then b else b.skip
      if b.isNext [.flowMappingEnd] then some ([], b.skip)
      else do
        let (key, value, b) ←
          if b.isNext [.key] then do
            let b := b.skip
            let (key, b) ← nodeUnless handles fuel [.value, .comma, .flowMappingEnd] b.nextLine
              false false b
            if b.isNext [.value] then do
              let b := b.skip
              let (value, b) ← nodeUnless handles fuel [.comma, .flowMappingEnd] b.nextLine
                false false b
              some (key, value, b)
            else some (key, absent b.nextLine, b)
          else do
            let (key, b) ← node handles fuel false false b
            some (key, absent b.nextLine, b)
        let (entries, b) ← flowEntries handles fuel false b
        some ((key, value) :: entries, b)

end

/-! ## Documents -/

/-- The handles that directives introduce, after others, and the tokens behind the directives.
There may be one version, which must be 1.1, and no handle may come twice. -/
def directives : (versioned : Bool) → Handles → List Token → Option (Handles × List Token)
  | versioned, handles, ⟨_, .version major minor⟩ :: rest =>
    if versioned || major ≠ 1 || minor ≠ 1 then none else directives true handles rest
  | versioned, handles, ⟨_, .handle name text⟩ :: rest =>
    if handles.any fun entry => entry.1 = name then none
    else directives versioned (handles ++ [(name, text)]) rest
  | _, handles, rest => some (handles ++ .default, rest)

/-- Is this a directive? -/
def Symbol.isDirective : Symbol → Bool
  | version _ _ => true
  | handle _ _ => true
  | _ => false

/-- The node of a document whose content starts with these tokens. Behind a marker it may be
missing. -/
def documentNode (handles : Handles) (marked : Bool) (tokens : List Token) : Option Node :=
  match tokens with
  | [] => none
  | token :: _ =>
    let isMissing := token.symbol.isDirective
      || [Symbol.documentStart, .documentEnd, .streamEnd].contains token.symbol
    if marked && isMissing then some (absent (token.line + 1))
    else
      match node handles (4 * tokens.length + 4) true false ⟨tokens, []⟩ with
      | some (node, ⟨_ :: _, _⟩) => some node
      | _ => none

/-- The first document among some tokens, if there is one. -/
def documentOf? (tokens : List Token) : Option (Option Node) :=
  match tokens with
  | [] => none
  | ⟨_, .streamEnd⟩ :: _ => some none
  | ⟨_, symbol⟩ :: _ => do
    if symbol.isDirective || symbol = .documentStart then
      match ← directives false [] tokens with
      | (handles, ⟨_, .documentStart⟩ :: rest) => (documentNode handles true rest).map some
      | _ => none
    else (documentNode .default false tokens).map some

/-- The first document of a text: nothing where the text is malformed, and a document without
node where it is empty. -/
def read (text : Text) : Option (Option Node) :=
  documentOf? (tokens (.ofText text))

end LineScript.Yaml

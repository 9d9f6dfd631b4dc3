import CabalManifest.Yaml.Layout
import CabalManifest.Yaml.Node

/-!
# The structure of a document

From the tokens of a document to its nodes. Each node has a tag, written or found from its text; an
alias stands for the node that carries its anchor. A text holds at most one document.

The functions that read nested nodes are bounded: between two tokens there are at most four calls,
so that four times the number of tokens suffices for every document.
-/

namespace CabalManifest.Yaml

/-! ### Reading tokens -/

/-- The state between two nodes: the tokens left, the tag handles in force, the nodes and anchors
seen, the number of collections around, and the first alias that stands inside its own node, if there
is one. An anchor has no node while its node is being read. -/
structure Reader where
  stream : TokenStream
  handles : List (String × String)
  nodes : Array Node
  anchors : List (String × Option NodeId)
  depth : Nat
  loop : Option Mark

/-- A computation that reads nodes. -/
abbrev Parse := StateT Reader (Except Error)

namespace Parse

/-- The next token, or the error that stands in its place. -/
def peek : Parse Token := do
  let stream := (← get).stream
  match stream.tokens, stream.error with
  | token :: _, _ => return token
  | [], some error => throw error
  | [], none => return .at .streamEnd default

/-- Moves past the next token. -/
def skip : Parse Unit :=
  modify fun s ↦ { s with stream := { s.stream with tokens := s.stream.tokens.tail } }

/-- Stops at the next token. -/
def fail {α : Type} (problem : String → Problem) : Parse α := do
  let token ← peek
  throw (.at (problem token.kind.name) token.start)

/-- Adds a node, whose parts have been added before. -/
def add (node : Node) : Parse NodeId :=
  modifyGet fun s ↦ (s.nodes.size, { s with nodes := s.nodes.push node })

/-- Adds a node without text. -/
def addEmpty (mark : Mark) : Parse NodeId := add (.empty mark)

/-- The tag handles that need no declaration. -/
def standardHandles : List (String × String) := [("!", "!"), ("!!", standardTag "")]

/-! ### Properties -/

/-- What stands before a node: an anchor, a tag, and the mark where they start. -/
structure Properties where
  anchor : Option String
  tag : Option String
  start : Option Mark

/-- Reads an anchor, if there is one. -/
def anchor? : Parse (Option String × Option Mark) := do
  let token ← peek
  match token.kind with
  | .anchor name =>
    skip
    return (some name, some token.start)
  | _ => return (none, none)

/-- A written tag with its handle. -/
abbrev WrittenTag := Option String × String × Mark

/-- Reads a written tag, if there is one. -/
def writtenTag? : Parse (Option WrittenTag) := do
  let token ← peek
  match token.kind with
  | .tag handle suffix =>
    skip
    return some (handle, suffix, token.start)
  | _ => return none

/-- The tag that a written tag denotes. -/
def expandTag : WrittenTag → Parse String
  | (none, suffix, _) => return suffix
  | (some handle, suffix, mark) => do
    match (← get).handles.lookup handle with
    | some leading => return leading ++ suffix
    | none => throw (.at (.undefinedHandle handle) mark)

/-- Reads the properties of a node, in either order. -/
def properties : Parse Properties := do
  let (anchor, anchorStart) ← anchor?
  let written ← writtenTag?
  let anchor ← match anchor, written with
    | none, some _ => pure (← anchor?).1
    | anchor, _ => pure anchor
  let tagStart := written.map fun (_, _, mark) ↦ mark
  let tag ← match written with
    | some written => pure (some (← expandTag written))
    | none => pure none
  return ⟨anchor, tag, anchorStart <|> tagStart⟩

/-! ### Anchors -/

/-- Enters an anchor; no document has the same anchor twice. -/
def openAnchor (anchor : Option String) (start : Mark) : Parse Unit := do
  match anchor with
  | none => return
  | some name =>
    if ((← get).anchors.lookup name).isSome then throw (.at .duplicateAnchor start)
    modify fun s ↦ { s with anchors := (name, none) :: s.anchors }

/-- Adds a node under its anchor, if it has one. -/
def closeAnchor (anchor : Option String) (node : Node) : Parse NodeId := do
  let id ← add node
  match anchor with
  | none => return id
  | some name =>
    modify fun s ↦ { s with anchors := (name, some id) :: s.anchors }
    return id

/-- The node that an alias stands for. An alias inside its own node makes the document a loop, which
counts only once the whole text is known to be well formed. -/
def aliased (name : String) (start : Mark) : Parse NodeId := do
  match (← get).anchors.lookup name with
  | some (some id) => return id
  | some none =>
    modify fun s ↦ { s with loop := s.loop <|> some start }
    addEmpty start
  | none => throw (.at (.undefinedAlias name) start)

/-! ### Nodes -/

/-- The most collections that can stand inside each other, for the stack of the reader. Only the
reader has a stack that ends; what is done with a document afterwards is not bounded. -/
def depthLimit : Nat := 485

/-- Reads the parts of a collection. -/
def inside {α : Type} (parts : Parse α) : Parse α := do
  let depth := (← get).depth
  if depth == depthLimit then throw .tooDeep
  modify fun s ↦ { s with depth := depth + 1 }
  let result ← parts
  modify fun s ↦ { s with depth := depth }
  return result

/-- Whether a token starts another entry of a block mapping, or ends it. -/
def endsBlockPart : TokenKind → Bool
  | .key | .value | .blockEnd => true
  | _ => false

/-- Whether a token starts another entry of a block sequence, or ends it. -/
def endsBlockItem : TokenKind → Bool
  | .blockEntry | .blockEnd => true
  | _ => false

/-- Whether a token ends a part of a flow sequence entry. -/
def endsSequencePart : TokenKind → Bool
  | .flowEntry | .flowSequenceEnd => true
  | _ => false

/-- Whether a token ends a part of a flow mapping entry. -/
def endsMappingPart : TokenKind → Bool
  | .flowEntry | .flowMappingEnd => true
  | _ => false

/-- The tag of a node: the written one, unless that is missing or the bare `!`. -/
def tagOr (written : Option String) (default : String) : String :=
  match written with
  | some tag => if tag == "!" then default else tag
  | none => default

/-- The tag of a scalar: found from the text of a plain scalar, or by the bare tag `!`. -/
def scalarTag (written : Option String) (text : String) (plain : Bool) : String :=
  tagOr written (if plain || written.isSome then Plain.tag text else standardTag "str")

/-- The positions in which a node can stand. -/
inductive Position where
  /-- In a flow collection. -/
  | flow
  /-- In a block. -/
  | block
  /-- In a block mapping, where a sequence needs no indentation. -/
  | mappingPart
  deriving DecidableEq

mutual

/-- Reads a node. -/
def node : Nat → Position → Parse NodeId
  | 0, _ => addEmpty default
  | bound + 1, position => do
    let token ← peek
    if let .aliasOf name := token.kind then
      skip
      return ← aliased name token.start
    let properties ← properties
    let token ← peek
    let start := properties.start.getD token.start
    let anchor := properties.anchor
    let inBlock := position != .flow
    match token.kind, inBlock, position with
    | .blockEntry, _, .mappingPart =>
      openAnchor anchor start
      let items ← inside (indentlessItems bound)
      closeAnchor anchor ⟨tagOr properties.tag (standardTag "seq"), .sequence items, start⟩
    | .scalar text plain, _, _ =>
      skip
      openAnchor anchor start
      closeAnchor anchor ⟨scalarTag properties.tag text plain, .scalar text, start⟩
    | .flowSequenceStart, _, _ =>
      openAnchor anchor start
      skip
      let items ← inside (flowItems bound true)
      closeAnchor anchor ⟨tagOr properties.tag (standardTag "seq"), .sequence items, start⟩
    | .flowMappingStart, _, _ =>
      openAnchor anchor start
      skip
      let entries ← inside (flowEntries bound true)
      closeAnchor anchor ⟨tagOr properties.tag (standardTag "map"), .mapping entries, start⟩
    | .blockSequenceStart, true, _ =>
      openAnchor anchor start
      skip
      let items ← inside (blockItems bound)
      closeAnchor anchor ⟨tagOr properties.tag (standardTag "seq"), .sequence items, start⟩
    | .blockMappingStart, true, _ =>
      openAnchor anchor start
      skip
      let entries ← inside (blockEntries bound)
      closeAnchor anchor ⟨tagOr properties.tag (standardTag "map"), .mapping entries, start⟩
    | _, _, _ =>
      if properties.start.isSome then
        openAnchor anchor start
        closeAnchor anchor ⟨scalarTag properties.tag "" true, .scalar "", start⟩
      else fail (.expectedToken "the node content")

/-- Reads a node, or an empty one at `mark` where a token of a class comes next. -/
def nodeUnless : Nat → (TokenKind → Bool) → Position → Mark → Parse NodeId
  | 0, _, _, mark => addEmpty mark
  | bound + 1, ends, position, mark => do
    if ends (← peek).kind then addEmpty mark else node bound position

/-- Reads the value after a key, if there is a colon. -/
def valuePart : Nat → (TokenKind → Bool) → Position → Parse NodeId
  | 0, _, _ => addEmpty default
  | bound + 1, ends, position => do
    let token ← peek
    match token.kind with
    | .value =>
      skip
      nodeUnless bound ends position token.stop
    | _ => addEmpty token.start

/-- Reads the items of a block sequence, and its end. -/
def blockItems : Nat → Parse (List NodeId)
  | 0 => return []
  | bound + 1 => do
    let token ← peek
    match token.kind with
    | .blockEntry =>
      skip
      let item ← nodeUnless bound endsBlockItem .block token.stop
      return item :: (← blockItems bound)
    | .blockEnd =>
      skip
      return []
    | _ => fail (.expectedToken "<block end>")

/-- Reads the items of a sequence that is indented no deeper than the mapping around it. -/
def indentlessItems : Nat → Parse (List NodeId)
  | 0 => return []
  | bound + 1 => do
    let token ← peek
    match token.kind with
    | .blockEntry =>
      skip
      let ends (kind : TokenKind) : Bool := endsBlockItem kind || endsBlockPart kind
      let item ← nodeUnless bound ends .block token.stop
      return item :: (← indentlessItems bound)
    | _ => return []

/-- Reads the entries of a block mapping, and its end. -/
def blockEntries : Nat → Parse (List (NodeId × NodeId))
  | 0 => return []
  | bound + 1 => do
    let token ← peek
    match token.kind with
    | .key =>
      skip
      let key ← nodeUnless bound endsBlockPart .mappingPart token.stop
      let value ← valuePart bound endsBlockPart .mappingPart
      return (key, value) :: (← blockEntries bound)
    | .blockEnd =>
      skip
      return []
    | _ => fail (.expectedToken "<block end>")

/-- Reads the items of a flow sequence, and its end. An item that starts as a key is a mapping of
one entry. -/
def flowItems : Nat → Bool → Parse (List NodeId)
  | 0, _ => return []
  | bound + 1, first => do
    unless first do
      match (← peek).kind with
      | .flowEntry => skip
      | .flowSequenceEnd => pure ()
      | _ => fail (.expectedInFlow "',' or ']'")
    let token ← peek
    match token.kind with
    | .flowSequenceEnd =>
      skip
      return []
    | .key =>
      skip
      let ends (kind : TokenKind) : Bool :=
        endsSequencePart kind || match kind with | .value => true | _ => false
      let entry ← inside do
        let key ← nodeUnless bound ends .flow token.stop
        return (key, ← valuePart bound endsSequencePart .flow)
      let item ← add ⟨standardTag "map", .mapping [entry], token.start⟩
      return item :: (← flowItems bound false)
    | _ =>
      let item ← node bound .flow
      return item :: (← flowItems bound false)

/-- Reads the entries of a flow mapping, and its end. -/
def flowEntries : Nat → Bool → Parse (List (NodeId × NodeId))
  | 0, _ => return []
  | bound + 1, first => do
    unless first do
      match (← peek).kind with
      | .flowEntry => skip
      | .flowMappingEnd => pure ()
      | _ => fail (.expectedInFlow "',' or '\x7d'")
    let token ← peek
    match token.kind with
    | .flowMappingEnd =>
      skip
      return []
    | .key =>
      skip
      let ends (kind : TokenKind) : Bool :=
        endsMappingPart kind || match kind with | .value => true | _ => false
      let key ← nodeUnless bound ends .flow token.stop
      let value ← valuePart bound endsMappingPart .flow
      return (key, value) :: (← flowEntries bound false)
    | _ =>
      let key ← node bound .flow
      let value ← addEmpty (← peek).start
      return (key, value) :: (← flowEntries bound false)

end

/-! ### Documents -/

/-- Reads the directives before a document. -/
def directives : Nat → Bool → Parse Unit
  | 0, _ => return
  | bound + 1, versionSeen => do
    let token ← peek
    match token.kind with
    | .directive directive =>
      skip
      match directive with
      | .version major =>
        if versionSeen then throw (.at .duplicateVersion token.start)
        if major != 1 then throw (.at .incompatibleVersion token.start)
        directives bound true
      | .handle name leading =>
        if ((← get).handles.lookup name).isSome then
          throw (.at (.duplicateHandle name) token.start)
        modify fun s ↦ { s with handles := (name, leading) :: s.handles }
        directives bound versionSeen
      | .other => directives bound versionSeen
    | _ => modify fun s ↦ { s with handles := s.handles ++ standardHandles }

/-- Moves past document ends. -/
def skipEnds : Nat → Parse Unit
  | 0 => return
  | bound + 1 => do
    if let .documentEnd := (← peek).kind then
      skip
      skipEnds bound

/-- Reads the start of a document, with its directives, unless the text ends here. -/
def documentStart? (bound : Nat) : Parse (Option Mark) := do
  skipEnds bound
  let token ← peek
  if let .streamEnd := token.kind then return none
  modify fun s ↦ { s with handles := [] }
  directives bound false
  match (← peek).kind with
  | .documentStart => skip
  | _ => fail (.expectedToken "'<document start>'")
  return some token.start

/-- Reads the content of a document after its start. -/
def documentContent (bound : Nat) : Parse NodeId := do
  let token ← peek
  match token.kind with
  | .directive _ | .documentStart | .documentEnd | .streamEnd => addEmpty token.start
  | _ => node bound .block

/-- Reads the only document of a text; `none` for a text without one. -/
def document? (bound : Nat) : Parse (Option NodeId) := do
  let content ← match (← peek).kind with
    | .directive _ | .documentStart | .streamEnd => do
      match ← documentStart? bound with
      | none => return none
      | some _ => documentContent bound
    | _ => do
      modify fun s ↦ { s with handles := standardHandles }
      node bound .block
  if let .documentEnd := (← peek).kind then skip
  if let some mark ← documentStart? bound then throw (.at .anotherDocument mark)
  if let some mark := (← get).loop then throw (.at .recursiveNode mark)
  return some content

end Parse

/-- The nodes of the document of a text. -/
def NodeGraph.ofText? (text : List Char) : Except Error (Option NodeGraph) := do
  let stream := TokenStream.ofText text
  let bound := 4 * stream.tokens.length + 8
  let (root?, reader) ← (Parse.document? bound).run
    { stream := stream, handles := [], nodes := #[], anchors := [], depth := 0, loop := none }
  return root?.map fun root ↦ ⟨reader.nodes, root⟩

end CabalManifest.Yaml

import CabalManifest.Yaml.Binary
import CabalManifest.Yaml.Datum
import CabalManifest.Yaml.Grammar
import CabalManifest.Yaml.Number

/-!
# The meaning of a document

From the nodes of a document to the data they denote. A scalar denotes what its tag says; a mapping
takes over the entries of the mappings merged into it, which come before its own; and a key that
occurs again replaces the value of its first occurrence.

Nodes are read level by level, and from left to right in each level, so that of several errors the
outermost counts. A node that is part of several others is read once, where it comes first. Reading a
mapping settles its entries and the tags of its keys for good: whoever meets it later, as part of
another node, finds it without merges.
-/

namespace CabalManifest.Yaml

namespace Meaning

/-! ### What is known -/

/-- The kinds of nodes that have parts. -/
inductive Container where
  | sequence
  | mapping
  | set
  | pairs

/-- The kind of container that a tag asks for. -/
def container? (tag : String) : Option Container :=
  if tag == standardTag "seq" then some .sequence
  else if tag == standardTag "map" then some .mapping
  else if tag == standardTag "set" then some .set
  else if tag == standardTag "omap" then some .pairs
  else if tag == standardTag "pairs" then some .pairs
  else none

/-- What is found out about a node. -/
inductive Finding where
  /-- A node without parts, and what it denotes. -/
  | plain (datum : Datum)
  /-- A node with parts that have not been read. -/
  | opened (container : Container)
  | list (items : List NodeId)
  | map (entries : List (NodeId × NodeId))
  | set (keys : List NodeId)
  | pairs (entries : List (NodeId × NodeId))

/-- The nodes as far as they are settled, what has been found out about them, and the nodes whose
parts are to be read on the next level, the last one first. -/
structure Knowledge where
  nodes : Array Node
  findings : Array (Option Finding)
  waiting : List NodeId

/-- A computation that finds out about nodes. -/
abbrev Learn := StateT Knowledge (Except Error)

/-- A node as it is now. -/
def nodeAt (id : NodeId) : Learn Node := return (← get).nodes.getD id default

/-- Changes a node. -/
def setNode (id : NodeId) (node : Node) : Learn Unit :=
  modify fun s ↦ { s with nodes := s.nodes.setIfInBounds id node }

/-- What has been found out about a node. -/
def findingAt (id : NodeId) : Learn (Option Finding) := return (← get).findings.getD id none

/-- Notes what has been found out about a node. -/
def setFinding (id : NodeId) (finding : Finding) : Learn Unit :=
  modify fun s ↦ { s with findings := s.findings.setIfInBounds id (some finding) }

/-! ### Scalars -/

/-- The text of a scalar node. A mapping with the key `=` stands for the value of that key. The bound
is the number of nodes. -/
def scalarText (nodes : Array Node) : Nat → NodeId → Except Error String
  | 0, _ => .ok ""
  | bound + 1, id =>
    let node := nodes.getD id default
    let wrong : Except Error String := .error (.at (.wrongKind "a scalar node" node.kindName) node.start)
    match node.content with
    | .scalar text => .ok text
    | .sequence _ => wrong
    | .mapping entries =>
      match entries.find? fun (key, _) ↦ (nodes.getD key default).tag == standardTag "value" with
      | some (_, value) => scalarText nodes bound value
      | none => wrong

/-- What a node without parts denotes. A timestamp has to be written as a scalar. -/
def scalar (nodes : Array Node) (id : NodeId) : Except Error Datum := do
  let node := nodes.getD id default
  let text := scalarText nodes nodes.size id
  let is (name : String) : Bool := node.tag == standardTag name
  if is "null" then do
    discard text
    return .null
  else if is "bool" then return .bool (← Number.boolean (← text))
  else if is "int" then return .int (← Number.integer (← text))
  else if is "float" then return .float (← Number.float (← text))
  else if is "str" then return .text (← text)
  else if is "timestamp" then do
    let text ← text
    match node.content with
    | .scalar _ => return .moment (← Moment.ofText text)
    | _ => throw (.misfit .nestedDate)
  else if is "binary" then do
    match Binary.ofText (← text) with
    | .ok bytes => return .bytes bytes
    | .error problem => throw (.at problem node.start)
  else throw (.at (.unknownTag node.tag) node.start)

/-! ### Merging -/

/-- The entries of a mapping as it is now. -/
def entriesAt (id : NodeId) : Learn (List (NodeId × NodeId)) := do
  match (← nodeAt id).content with
  | .mapping entries => return entries
  | _ => return []

/-- The entries that a node merges into a mapping once mappings are settled by `settle`: its own, or
those of its items, the first item last so that it wins. -/
def mergedEntries (settle : NodeId → Learn Unit) (id : NodeId) : Learn (List (NodeId × NodeId)) := do
  let node ← nodeAt id
  match node.content with
  | .mapping _ => do
    settle id
    entriesAt id
  | .sequence items => do
    let found ← items.mapM fun item ↦ do
      let part ← nodeAt item
      match part.content with
      | .mapping _ => do
        settle item
        entriesAt item
      | _ => throw (.at (.wrongKind "a mapping for merging" part.kindName) part.start)
    return found.reverse.flatten
  | .scalar _ =>
    throw (.at (.wrongKind "a mapping or list of mappings for merging" node.kindName) node.start)

/-- Settles the entries of a mapping: merged entries come first, and the key `=` is an ordinary text.
The bound is the number of nodes. -/
def settle : Nat → NodeId → Learn Unit
  | 0, _ => return
  | bound + 1, id => do
    let parts ← (← entriesAt id).mapM fun (key, value) ↦ do
      let node ← nodeAt key
      if node.tag == standardTag "merge" then
        return (← mergedEntries (settle bound) value, [])
      if node.tag == standardTag "value" then setNode key { node with tag := standardTag "str" }
      return ([], [(key, value)])
    let entries := parts.flatMap (·.1) ++ parts.flatMap (·.2)
    setNode id { ← nodeAt id with content := .mapping entries }

/-! ### Reading -/

/-- Finds out what a node denotes, or notes that its parts have to be read. -/
def learn (id : NodeId) : Learn Unit := do
  if (← findingAt id).isSome then return
  match container? (← nodeAt id).tag with
  | some container => do
    setFinding id (.opened container)
    modify fun s ↦ { s with waiting := id :: s.waiting }
  | none => do setFinding id (.plain (← scalar (← get).nodes id))

/-- Reads the entries of a mapping. Only a node without parts can be a key. -/
def learnEntries (id : NodeId) : Learn (List (NodeId × NodeId)) := do
  let node ← nodeAt id
  match node.content with
  | .mapping _ => do
    settle (← get).nodes.size id
    let entries ← entriesAt id
    entries.forM fun (key, value) ↦ do
      learn key
      match ← findingAt key with
      | some (.plain _) => learn value
      | _ => throw (.at .unhashableKey (← nodeAt key).start)
    return entries
  | _ => throw (.at (.wrongKind "a mapping node" node.kindName) node.start)

/-- Reads an item that is a pair. -/
def learnPair (id : NodeId) : Learn (NodeId × NodeId) := do
  let node ← nodeAt id
  match node.content with
  | .mapping [(key, value)] => do
    learn key
    learn value
    return (key, value)
  | .mapping entries => throw (.at (.severalItems entries.length) node.start)
  | _ => throw (.at (.wrongKind "a mapping of length 1" node.kindName) node.start)

/-- Reads the parts of a node. -/
def learnParts (id : NodeId) : Learn Unit := do
  let node ← nodeAt id
  match ← findingAt id, node.content with
  | some (.opened .sequence), .sequence items => do
    items.forM learn
    setFinding id (.list items)
  | some (.opened .sequence), _ =>
    throw (.at (.wrongKind "a sequence node" node.kindName) node.start)
  | some (.opened .mapping), _ => do setFinding id (.map (← learnEntries id))
  | some (.opened .set), _ => do setFinding id (.set ((← learnEntries id).map (·.1)))
  | some (.opened .pairs), .sequence items => do setFinding id (.pairs (← items.mapM learnPair))
  | some (.opened .pairs), _ => throw (.at (.wrongKind "a sequence" node.kindName) node.start)
  | _, _ => return

/-- Reads the parts of the nodes that wait for it, then those of the level below. No node waits twice,
so that there are no more levels than nodes. -/
def learnLevels : Nat → Learn Unit
  | 0 => return
  | bound + 1 => do
    let level := (← get).waiting.reverse
    if level.isEmpty then return
    modify fun s ↦ { s with waiting := [] }
    level.forM learnParts
    learnLevels bound

/-! ### Data -/

/-- What a node denotes, given what the nodes before it denote. -/
def datumOf (data : Array Datum) : Option Finding → Datum
  | none | some (.opened _) => .null
  | some (.plain datum) => datum
  | some (.list items) => .list (items.map at_)
  | some (.map entries) =>
    .map (entries.foldl (fun found (key, value) ↦ Datum.insert (at_ key) (at_ value) found) [])
  | some (.set keys) =>
    .set ((keys.foldl (fun found key ↦ Datum.insert (at_ key) .null found) []).map (·.1))
  | some (.pairs entries) => .list (entries.map fun (key, value) ↦ .list [at_ key, at_ value])
where
  /-- What an earlier node denotes. -/
  at_ (id : NodeId) : Datum := data.getD id .null

/-- What a document denotes. -/
def ofGraph (graph : NodeGraph) : Except Error Datum := do
  let start : Knowledge := ⟨graph.nodes, Array.replicate graph.nodes.size none, []⟩
  let read : Learn Unit := do
    learn graph.root
    learnLevels (graph.nodes.size + 1)
  let (_, known) ← read.run start
  let data := known.findings.foldl (fun data finding ↦ data.push (datumOf data finding)) #[]
  return data.getD graph.root .null

end Meaning

end CabalManifest.Yaml

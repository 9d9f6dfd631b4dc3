import CabalManifest.Yaml.Tag
import CabalManifest.Yaml.Token

/-!
# Nodes

The nodes of a document. Each node has a number, and refers to its parts by theirs; an alias is the
number of the node that carries its anchor, so that a node can be part of several others. The parts
of a node have smaller numbers than the node itself.
-/

namespace CabalManifest.Yaml

/-- The number of a node in its document. -/
abbrev NodeId := Nat

/-- What a node holds. -/
inductive Content where
  | scalar (text : String)
  | sequence (items : List NodeId)
  | mapping (entries : List (NodeId × NodeId))

/-- A node of a document, with its tag and the mark where it starts. -/
structure Node where
  tag : String
  content : Content
  start : Mark

namespace Node

instance : Inhabited Node := ⟨⟨"", .scalar "", default⟩⟩

/-- The kind of a node in messages. -/
def kindName (node : Node) : String :=
  match node.content with
  | .scalar _ => "scalar"
  | .sequence _ => "sequence"
  | .mapping _ => "mapping"

/-- A node without text. -/
def empty (mark : Mark) : Node := ⟨Plain.tag "", .scalar "", mark⟩

end Node

/-- The nodes of a document by their numbers, and the one that is the document itself. -/
structure NodeGraph where
  nodes : Array Node
  root : NodeId

end CabalManifest.Yaml

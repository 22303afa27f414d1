import ServiceMesh.Topology
import ServiceMesh.Wire.Basic

/-!
# The topology on the wire

A tree is nested twice per level, once for the node and once for its list of children, which is
left out when it is empty.
-/

namespace ServiceMesh

open Wire (field member)

instance : Wire NodeView where
  read := Json.record fun depth ↦ {
    name := "NodeView"
    blank := default
    fields := [
      field depth "id" .required fun view id ↦ { view with id },
      field depth "address" .required fun view address ↦ { view with address }] }
  write view := Json.writeObject [member "id" view.id, member "address" view.address]

namespace GraphNode

def shape (children : Json.Reader (List GraphNode)) (depth : Nat) : Json.Shape GraphNode where
  name := "GraphNode"
  blank := ⟨"", "", []⟩
  fields := [
    field depth "id" .required fun node id ↦ { node with id },
    field depth "address" .required fun node address ↦ { node with address },
    Json.field "children" .optional children fun node children ↦ { node with children }]

/-- Reads a tree; the children of a node are read with two levels of nesting less. -/
def read : (depth : Nat) → Json.Reader GraphNode
  | 0 => Json.record (shape (Json.sequence 0 fun _ ↦ .error .malformed)) 0
  | 1 => Json.record (shape (Json.sequence 0 fun _ ↦ .error .malformed)) 1
  | depth + 2 => Json.record (shape (Json.sequence (depth + 1) (read depth))) (depth + 2)

mutual

def write : GraphNode → Json.Written
  | ⟨id, address, children⟩ =>
    let listed := match children with
      | [] => []
      | children => [("children", Json.writeSequence (writeForest children))]
    Json.writeObject (member "id" id :: member "address" address :: listed)

def writeForest : List GraphNode → List Json.Written
  | [] => []
  | tree :: rest => tree.write :: writeForest rest

end

instance : Wire GraphNode := ⟨read, write⟩

end GraphNode

end ServiceMesh

/-!
# Requests, and views of the topology

A node is asked to connect to peers, or for the topology around it.  A walk over the mesh lists
nodes flat; a bounded walk gives a tree, in which every node stands under the parent that reaches it
in the fewest hops.
-/

namespace ServiceMesh

structure PeerAddress where
  address : String
  deriving DecidableEq, Inhabited

/-- Asks a node to connect to more peers. -/
structure ConnectRequest where
  nodes : List PeerAddress := []
  deriving DecidableEq, Inhabited

namespace ConnectRequest

def ofAddresses (addresses : List String) : ConnectRequest := ⟨addresses.map PeerAddress.mk⟩

def addresses (request : ConnectRequest) : List String := request.nodes.map PeerAddress.address

end ConnectRequest

/-- Asks for a topology tree; depth zero asks for all that is allowed. -/
structure GraphRequest where
  depth : UInt64 := 0
  deriving DecidableEq, Inhabited

/-- The greatest depth of a topology tree. -/
def maxDepth : Nat := 3

/-- The depth used for a requested one: zero, like anything too large, asks for all there is. -/
def clampDepth (requested : Nat) : Nat :=
  if requested = 0 ∨ maxDepth < requested then maxDepth else requested

/-- A node as a flat walk lists it. -/
structure NodeView where
  id : String
  address : String
  deriving DecidableEq, Inhabited

/-- A node of a topology tree. -/
structure GraphNode where
  id : String
  address : String
  children : List GraphNode := []
  deriving Inhabited

namespace GraphNode

mutual

/-- The number of nodes, the root included. -/
def size : GraphNode → Nat
  | ⟨_, _, children⟩ => 1 + forestSize children

def forestSize : List GraphNode → Nat
  | [] => 0
  | tree :: rest => tree.size + forestSize rest

end

mutual

/-- The number of hops from the root to the deepest node. -/
def depth : GraphNode → Nat
  | ⟨_, _, children⟩ => forestDepth children

/-- The number of hops to the deepest node of trees that stand one hop below. -/
def forestDepth : List GraphNode → Nat
  | [] => 0
  | tree :: rest => max (1 + tree.depth) (forestDepth rest)

end

mutual

/-- The ids of a tree, a parent before its children. -/
def ids : GraphNode → List String
  | ⟨id, _, children⟩ => id :: forestIds children

def forestIds : List GraphNode → List String
  | [] => []
  | tree :: rest => tree.ids ++ forestIds rest

end

end GraphNode

end ServiceMesh

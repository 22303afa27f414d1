import ServiceMesh.NameMap
import ServiceMesh.Topology

/-!
# The registry of nodes

A registry holds nodes by their ids.  A node has an address, metadata, and weighted links to other
ids.  Links run one way, and their targets need not be registered.

A walk expands every node that it can reach from a root, each once.  Expanding a node inspects all
of its links to registered nodes and discovers those targets that no earlier expansion has found.
The nodes still to be expanded wait on a stack, on which the lowest of those just discovered comes
first.

A search for a tree goes down from a root level by level.  It places every node once, below the
first node of the level above that links to it, and keeps the children of each node by its id.  The
tree is then built from these children, with a count of its own of the levels that are left.
-/

namespace ServiceMesh

structure Node where
  address : String
  metadata : NameMap String := ∅
  /-- The metric of the link to each peer. -/
  links : NameMap Int64 := ∅
  deriving DecidableEq, Inhabited

namespace Node

/-- Changes where a node is and what is said about it, and keeps its links. -/
def refresh (node : Node) (address : String) (metadata : NameMap String) : Node :=
  { node with address, metadata }

def hasLink (node : Node) (peer : String) : Bool := node.links.contains peer

/-- Adds a link, or gives the one that there is a new metric. -/
def addLink (node : Node) (peer : String) (metric : Int64) : Node :=
  { node with links := node.links.insert peer metric }

def removeLink (node : Node) (peer : String) : Node :=
  { node with links := node.links.erase peer }

/-- Gives a link a new metric, if there is one. -/
def updateLink (node : Node) (peer : String) (metric : Int64) : Node :=
  { node with links := node.links.modify peer fun _ ↦ metric }

end Node

structure Registry where
  nodes : NameMap Node := ∅
  deriving DecidableEq, Inhabited

namespace Registry

def get? (registry : Registry) (id : String) : Option Node := registry.nodes.get? id

def contains (registry : Registry) (id : String) : Bool := registry.nodes.contains id

def ids (registry : Registry) : List String := registry.nodes.names

def size (registry : Registry) : Nat := registry.nodes.size

def isEmpty (registry : Registry) : Bool := registry.nodes.isEmpty

/-- Registers a node without links, or refreshes the one of this id. -/
def insert (registry : Registry) (id address : String) (metadata : NameMap String) : Registry :=
  let node := match registry.get? id with
    | some node => node.refresh address metadata
    | none => { address, metadata }
  ⟨registry.nodes.insert id node⟩

/-- Takes a node out, and every link to it off the nodes that stay. -/
def remove (registry : Registry) (id : String) : Registry :=
  if registry.contains id then ⟨(registry.nodes.erase id).map (·.removeLink id)⟩ else registry

/-- Changes a registered node. -/
def modify (registry : Registry) (id : String) (change : Node → Node) : Registry :=
  ⟨registry.nodes.modify id change⟩

/-- The view of a registered node. -/
def view? (registry : Registry) (id : String) : Option NodeView :=
  (registry.get? id).map fun node ↦ ⟨id, node.address⟩

/-- The links of a node whose targets are registered, in ascending order. -/
def liveLinks (registry : Registry) (id : String) : List (String × Int64) :=
  match registry.get? id with
  | none => []
  | some node => node.links.entries.filter fun link ↦ registry.contains link.1

end Registry

/-- A link that was inspected on a walk. -/
structure Edge where
  source : String
  target : String
  metric : Int64
  deriving DecidableEq, Inhabited

/-- One step of a walk: a node, its links to registered nodes, and those it discovered. -/
structure Expansion where
  id : String
  links : List (String × Int64)
  discovered : List String
  deriving DecidableEq, Inhabited

def Expansion.edges (expansion : Expansion) : List Edge :=
  expansion.links.map fun link ↦ ⟨expansion.id, link.1, link.2⟩

namespace Registry

/-- The targets that were not seen before. -/
def undiscovered (seen : List String) (links : List (String × Int64)) : List String :=
  (links.map Prod.fst).filter (· ∉ seen)

/-- Expands the nodes on the stack and those that they lead to.  `fuel` is at least the number of
nodes that are still to be expanded. -/
def expand (registry : Registry) :
    (fuel : Nat) → (stack seen : List String) → List Expansion
  | 0, _, _ => []
  | _ + 1, [], _ => []
  | fuel + 1, id :: stack, seen =>
    let links := registry.liveLinks id
    let discovered := undiscovered seen links
    ⟨id, links, discovered⟩ :: expand registry fuel (discovered ++ stack) (seen ++ discovered)

/-- The walk from a root: no node is expanded twice, so there are as many steps as nodes at most. -/
def walk (registry : Registry) (root : String) : List Expansion :=
  if registry.contains root then registry.expand registry.size [root] [root] else []

/-- The ids that a walk reaches, in the order of their discovery. -/
def reachableIds (registry : Registry) (root : String) : List String :=
  if registry.contains root then root :: (registry.walk root).flatMap Expansion.discovered else []

/-- The nodes that a walk reaches, the root first, each once. -/
def flatten (registry : Registry) (root : String) : List NodeView :=
  (registry.reachableIds root).filterMap registry.view?

/-- The links that a walk inspects, each once. -/
def edges (registry : Registry) (root : String) : List Edge :=
  (registry.walk root).flatMap Expansion.edges

end Registry

/-- The children placed below each node. -/
abbrev Children := NameMap (List String)

/-- The children placed below a node. -/
def Children.below (children : Children) (id : String) : List String :=
  (children.get? id).getD []

/-- Takes out the children placed below a node. -/
def Children.take (id : String) : StateM Children (List String) :=
  modifyGet fun children ↦ (children.below id, children.erase id)

/-- How far a search has come. -/
structure Search where
  seen : List String
  children : Children := ∅

namespace Search

/-- Places the targets of a node's links that were not seen before below it, and gives them back. -/
def visit (registry : Registry) (search : Search) (id : String) : Search × List String :=
  let found := Registry.undiscovered search.seen (registry.liveLinks id)
  let children := search.children.insert id (search.children.below id ++ found)
  (⟨search.seen ++ found, children⟩, found)

/-- Visits the nodes of a level from left to right, and gives back the level below. -/
def visitAll (registry : Registry) : Search → (level : List String) → Search × List String
  | search, [] => (search, [])
  | search, id :: level =>
    let (search, found) := search.visit registry id
    let (search, next) := visitAll registry search level
    (search, found ++ next)

/-- Goes down from a level by so many others, or until there are no more. -/
def descend (registry : Registry) : (depth : Nat) → Search → (level : List String) → Search
  | 0, search, _ => search
  | depth + 1, search, level =>
    let (search, next) := search.visitAll registry level
    if next.isEmpty then search else descend registry depth search next

end Search

namespace Registry

/-- The address of a registered node. -/
def addressOf (registry : Registry) (id : String) : String :=
  ((registry.get? id).map Node.address).getD ""

/-- Builds the tree of a node, to the given depth, from children that it takes out. -/
def build (registry : Registry) : (depth : Nat) → (id : String) → StateM Children GraphNode
  | 0, id => return ⟨id, registry.addressOf id, []⟩
  | depth + 1, id => do
    let children ← (← Children.take id).mapM (build registry depth)
    return ⟨id, registry.addressOf id, children⟩

/-- The tree of the nodes within a number of hops of a registered root. -/
def tree (registry : Registry) (root : String) (requested : Nat) : Option GraphNode :=
  if registry.contains root then
    let depth := clampDepth requested
    let search := Search.descend registry depth ⟨[root], ∅⟩ [root]
    some ((registry.build depth root).run search.children).1
  else none

end Registry

end ServiceMesh

import ServiceMesh.Registry

/-!
# Held nodes

A holder keeps a node under a name of its own.  A held node is the registered one until that is
taken out of the registry; from then on it lives by itself, shared by all who held it.  A node of
the same id that is registered later is another node.
-/

namespace ServiceMesh

/-- A node that is not, or no longer, registered. -/
structure LooseNode where
  id : String
  node : Node
  deriving DecidableEq, Inhabited

/-- What a holder's name stands for. -/
inductive Held where
  | registered (id : String)
  /-- The loose node at this place. -/
  | loose (place : Nat)
  deriving DecidableEq

structure Instances where
  registry : Registry := {}
  loose : List LooseNode := []
  held : NameMap Held := ∅
  deriving Inhabited

namespace Instances

/-- Registers a node or refreshes the registered one. -/
def insert (instances : Instances) (id address : String) (metadata : NameMap String) : Instances :=
  { instances with registry := instances.registry.insert id address metadata }

/-- Makes a node that is not registered, and tells its place. -/
def detach (instances : Instances) (id : String) (node : Node) : Instances × Held :=
  ({ instances with loose := instances.loose ++ [⟨id, node⟩] }, .loose instances.loose.length)

/-- Takes a node out of the registry.  Whoever held it holds the loose node that it becomes. -/
def remove (instances : Instances) (id : String) : Instances × Option Held :=
  match instances.registry.get? id with
  | none => (instances, none)
  | some node =>
    let (instances, place) := instances.detach id node
    let follow := fun held ↦ if held = .registered id then place else held
    ({ instances with
        registry := instances.registry.remove id
        held := instances.held.map follow }, some place)

/-- Keeps a node under a name. -/
def hold (instances : Instances) (name : String) (held : Held) : Instances :=
  { instances with held := instances.held.insert name held }

/-- The node that a name stands for now, with its id. -/
def node? (instances : Instances) : Held → Option LooseNode
  | .registered id => (instances.registry.get? id).map (LooseNode.mk id)
  | .loose place => instances.loose[place]?

/-- Changes a node wherever it lives. -/
def modify (instances : Instances) (held : Held) (change : Node → Node) : Instances :=
  match held with
  | .registered id => { instances with registry := instances.registry.modify id change }
  | .loose place =>
    { instances with
      loose := instances.loose.modify place fun loose ↦ { loose with node := change loose.node } }

/-- Two names stand for one node. -/
def same (instances : Instances) (name other : String) : Bool :=
  match instances.held.get? name, instances.held.get? other with
  | some one, some two => one = two
  | _, _ => false

end Instances

end ServiceMesh

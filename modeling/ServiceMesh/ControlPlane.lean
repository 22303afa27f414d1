import ServiceMesh.Metrics
import ServiceMesh.Registry
import ServiceMesh.RouteTable
import ServiceMesh.Text

/-!
# The control plane of a node

A control plane knows the local node, the registered nodes, the routes, and the peer addresses that
the node is to be connected to.  Questions about the topology start at the local node.

Calls overlap, so each is cut into phases, with other calls between them.  A registration makes its
link in a phase of its own, and a removal withdraws the node's routes in one.  A router may advertise
changes of its own routes only; its advert is taken in event by event, and then the router is looked
up once more, because it may have been removed.  A connect begins by merging its addresses into the
configured peers and hands the whole set to the transport; it finishes when the transport has
answered.  A peer that could be dialed is registered under its address, at the cost of the time its
dial took, and one that could not is removed.  A tracker counts the events of the route table at its
own pace; for those that it lost it only sets the gauge of routes.
-/

namespace ServiceMesh

inductive ConnectionState where
  | idle
  | connecting
  | connected
  deriving DecidableEq, Inhabited

structure ControlPlane where
  /-- The id of the local node. -/
  localId : String
  registry : Registry
  routes : LiveTable := {}
  state : ConnectionState := .idle
  /-- The configured peer addresses. -/
  peers : NameSet := ∅
  metrics : Metrics := {}
  deriving Inhabited

namespace ControlPlane

/-- The service that failures of the control plane are told to arise in. -/
def serviceName : String := "mesh.network"

/-- A control plane with the local node registered and nothing else. -/
def start (id address : String) : ControlPlane :=
  let registry := Registry.insert {} id address ∅
  { localId := id, registry, metrics := Metrics.setNodes {} registry.size }

def envelope (cause : MeshError) : ErrorEnvelope := cause.failure.envelope serviceName

def configuredPeers (plane : ControlPlane) : List String := plane.peers.names

/-- The nodes that the local node reaches. -/
def nodes (plane : ControlPlane) : List NodeView := plane.registry.flatten plane.localId

/-- The topology around the local node. -/
def graph (plane : ControlPlane) (request : GraphRequest) : Except MeshError GraphNode :=
  match plane.registry.tree plane.localId request.depth.toNat with
  | some tree => .ok tree
  | none => .error (.localNodeMissing plane.localId)

/-- Sets the gauge of nodes. -/
def gaugeNodes (plane : ControlPlane) : ControlPlane :=
  { plane with metrics := plane.metrics.setNodes plane.registry.size }

/-- Sets the gauge of routes. -/
def gaugeRoutes (plane : ControlPlane) : ControlPlane :=
  { plane with metrics := plane.metrics.setRoutes plane.routes.table.size }

/-- Adds a link from a registered node, or gives it a new metric. -/
def link (plane : ControlPlane) (source target : String) (metric : Int64) :
    ControlPlane × Option MeshError :=
  if plane.registry.contains source then
    ({ plane with registry := plane.registry.modify source (·.addLink target metric) }, none)
  else (plane, some (.unregisteredNode source))

/-- Puts a node into the registry, the first half of a registration. -/
def beginRegister (plane : ControlPlane) (id address : String) (metadata : NameMap String) :
    Except MeshError ControlPlane :=
  if id.isEmpty then .error .emptyNodeId
  else if id = plane.localId then .error (.isLocalNode id)
  else .ok { plane with registry := plane.registry.insert id address metadata }

/-- Gives the local node its link to a node, the second half of a registration. -/
def finishRegister (plane : ControlPlane) (id : String) (metric : Int64) :
    ControlPlane × Option MeshError :=
  match plane.link plane.localId id metric with
  | (plane, none) => (plane.gaugeNodes, none)
  | refused => refused

/-- Registers a node that the local node has a link to. -/
def register (plane : ControlPlane) (id address : String) (metadata : NameMap String)
    (metric : Int64) : ControlPlane × Option MeshError :=
  match plane.beginRegister id address metadata with
  | .error cause => (plane, some cause)
  | .ok plane => plane.finishRegister id metric

def unregister (plane : ControlPlane) (id : String) : ControlPlane :=
  { plane with registry := plane.registry.remove id }

/-- Withdraws the routes of a router and gives them back. -/
def withdrawRoutes (plane : ControlPlane) (router : String) : ControlPlane × List Route :=
  let (routes, withdrawn) := plane.routes.deleteByRouter router
  ({ plane with routes }, withdrawn)

/-- Takes a node out of the registry, the first half of a removal. -/
def beginRemove (plane : ControlPlane) (id : String) : Except MeshError ControlPlane :=
  if id = plane.localId then .error .localNodeStays else .ok (plane.unregister id)

/-- Withdraws the routes of a node that was taken out, the second half of a removal. -/
def finishRemove (plane : ControlPlane) (id : String) : ControlPlane × List Route :=
  let (plane, withdrawn) := plane.withdrawRoutes id
  (plane.gaugeNodes.gaugeRoutes, withdrawn)

/-- Removes a node and the routes that it advertised. -/
def remove (plane : ControlPlane) (id : String) : ControlPlane × Except MeshError (List Route) :=
  match plane.beginRemove id with
  | .error cause => (plane, .error cause)
  | .ok plane =>
    let (plane, withdrawn) := plane.finishRemove id
    (plane, .ok withdrawn)

end ControlPlane

/-- An advert that is being taken in. -/
structure Intake where
  router : String
  /-- The events that are still to be applied. -/
  pending : List TableEvent
  /-- The failure of the first event that was refused. -/
  failure : Option MeshError := none

/-- What becomes of an advert at its arrival. -/
inductive Admission where
  /-- The node's own adverts change nothing. -/
  | ignored
  | refused (cause : MeshError)
  | admitted (intake : Intake)

namespace ControlPlane

def receive (plane : ControlPlane) (advert : Advert) : Admission :=
  if advert.id = plane.localId then .ignored
  else if plane.registry.contains advert.id then .admitted ⟨advert.id, advert.events, none⟩
  else .refused (.unregisteredRouter advert.id)

/-- Applies an event of a router.  Whether a route is created or updated, the table decides. -/
def applyEvent (plane : ControlPlane) (router : String) (event : TableEvent) :
    ControlPlane × Option MeshError :=
  if event.route.router ≠ router then (plane, some (.foreignRoute event.route router))
  else
    match event.kind with
    | .create | .update =>
      let (routes, failure) := plane.routes.create event.route
      ({ plane with routes }, failure)
    | .delete => ({ plane with routes := plane.routes.delete event.route }, none)

/-- Applies the next event of an advert.  A refused event does not stop those after it. -/
def advance (plane : ControlPlane) (intake : Intake) : ControlPlane × Intake :=
  match intake.pending with
  | [] => (plane, intake)
  | event :: pending =>
    let (plane, failure) := plane.applyEvent intake.router event
    (plane, { intake with pending, failure := intake.failure.or failure })

/-- Applies up to a number of events of an advert. -/
def advanceBy (plane : ControlPlane) (intake : Intake) : Nat → ControlPlane × Intake
  | 0 => (plane, intake)
  | count + 1 =>
    let (plane, intake) := plane.advance intake
    plane.advanceBy intake count

/-- Ends an advert whose router was looked up again.  The routes of a router that was not found are
withdrawn. -/
def settle (plane : ControlPlane) (router : String) (found : Bool) : ControlPlane :=
  (if found then plane else (plane.withdrawRoutes router).1).gaugeRoutes

/-- Applies the events that are left and looks the router up again. -/
def complete (plane : ControlPlane) (intake : Intake) : ControlPlane × Option MeshError :=
  let (plane, intake) := plane.advanceBy intake intake.pending.length
  (plane.settle intake.router (plane.registry.contains intake.router), intake.failure)

/-- Takes in an advert without interruption. -/
def process (plane : ControlPlane) (advert : Advert) : ControlPlane × Option MeshError :=
  match plane.receive advert with
  | .ignored => (plane, none)
  | .refused cause => (plane, some cause)
  | .admitted intake => plane.complete intake

end ControlPlane

/-- What a begun connect hands to the transport, and what it remembers. -/
structure Dispatch where
  addresses : List String
  /-- The connect found the node idle, so that a failure makes it idle again. -/
  foundIdle : Bool
  deriving DecidableEq, Inhabited

namespace ControlPlane

/-- The addresses of a request that count: trimmed, and not empty then. -/
def trimmedAddresses (addresses : List String) : List String :=
  (addresses.map Text.trim).filter (· ≠ "")

/-- Merges the addresses of a request and counts the connect. -/
def beginConnect (plane : ControlPlane) (request : ConnectRequest) : ControlPlane × Dispatch :=
  let peers := plane.peers.addAll (trimmedAddresses request.addresses)
  let foundIdle := plane.state = .idle
  ({ plane with
      peers
      state := if foundIdle then .connecting else plane.state
      metrics := plane.metrics.countConnect }, ⟨peers.names, foundIdle⟩)

/-- Ends a connect with the transport's answer.  A failure never undoes a connection that another
connect has made. -/
def finishConnect (plane : ControlPlane) (dispatch : Dispatch)
    (answer : Except TransportError Unit) : ControlPlane × Option MeshError :=
  match answer with
  | .ok () => ({ plane with state := .connected }, none)
  | .error cause =>
    let state :=
      if plane.state = .connecting ∧ dispatch.foundIdle then .idle else plane.state
    ({ plane with state, metrics := plane.metrics.countConnectError }, some (.transport cause))

/-- A connect that no other one overlaps. -/
def connect (plane : ControlPlane) (request : ConnectRequest)
    (answer : Except TransportError Unit) : ControlPlane × Dispatch × Option MeshError :=
  let (plane, dispatch) := plane.beginConnect request
  let (plane, failure) := plane.finishConnect dispatch answer
  (plane, dispatch, failure)

end ControlPlane

inductive PeerEvent where
  /-- The dial took so many nanoseconds. -/
  | up (address : String) (latency : Nat)
  | down (address : String) (reason : String)
  deriving DecidableEq, Inhabited

/-- The metric of a latency: whole milliseconds, as many as a metric can tell. -/
def latencyMetric (latency : Nat) : Int64 :=
  Int64.ofNat (min (latency / 1000000) (Nat.pow 2 63 - 1))

namespace ControlPlane

/-- Follows a peer event.  What cannot be followed is left alone. -/
def follow (plane : ControlPlane) : PeerEvent → ControlPlane
  | .up address latency => (plane.register address address ∅ (latencyMetric latency)).1
  | .down address _ =>
    if plane.registry.contains address then (plane.remove address).1 else plane

def followAll (plane : ControlPlane) (events : List PeerEvent) : ControlPlane :=
  events.foldl follow plane

/-- Connects to the configured peers again. -/
def refresh (plane : ControlPlane) (answer : Except TransportError Unit) :
    ControlPlane × Dispatch :=
  let (plane, dispatch, _) := plane.connect {} answer
  (plane, dispatch)

end ControlPlane

/-- A reader of the feed, by its position. -/
structure Tracker where
  position : Nat
  deriving DecidableEq, Inhabited

namespace ControlPlane

/-- A tracker of the events from now on. -/
def track (plane : ControlPlane) : Tracker := ⟨plane.routes.feed.position⟩

/-- What a tracker does about one read. -/
def observe (plane : ControlPlane) : Reading TableEvent → ControlPlane
  | .item event => { plane with metrics := plane.metrics.countEvent event.kind }.gaugeRoutes
  | .lagged _ => plane.gaugeRoutes
  | .upToDate | .ended => plane

/-- One step of a tracker. -/
def trackStep (plane : ControlPlane) (tracker : Tracker) : ControlPlane × Tracker :=
  let (reading, position) := plane.routes.feed.read tracker.position
  (plane.observe reading, ⟨position⟩)

/-- Lets a tracker catch up. -/
def catchUp (plane : ControlPlane) (tracker : Tracker) : ControlPlane × Tracker :=
  let (readings, position) := plane.routes.feed.readAll tracker.position
  (readings.foldl observe plane, ⟨position⟩)

end ControlPlane

end ServiceMesh

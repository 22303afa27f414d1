import ServiceMesh.Json.Scan
import ServiceMesh.Route

/-!
# Failures

An operation fails for a cause.  Towards a caller a cause is told as a class and a text, and goes
out in an envelope that names the service in which it arose.
-/

namespace ServiceMesh

inductive ErrorCode where
  | invalidArgument
  | internal
  | unavailable
  deriving DecidableEq, Inhabited

namespace ErrorCode

def name : ErrorCode → String
  | .invalidArgument => "invalid_argument"
  | .internal => "internal"
  | .unavailable => "unavailable"

def status : ErrorCode → Nat
  | .invalidArgument => 400
  | .internal => 500
  | .unavailable => 503

/-- The words before the text of a failure of this class. -/
def heading : ErrorCode → String
  | .invalidArgument => "Invalid argument: "
  | .internal => "Internal error: "
  | .unavailable => "Unavailable: "

end ErrorCode

structure ErrorEnvelope where
  code : ErrorCode
  /-- The service in which the failure arose. -/
  id : String
  detail : String
  deriving DecidableEq, Inhabited

def ErrorEnvelope.summary (envelope : ErrorEnvelope) : String :=
  s!"{envelope.id}: {envelope.detail} ({envelope.code.status})"

/-- A failure as it is told. -/
structure Failure where
  code : ErrorCode
  text : String
  deriving DecidableEq, Inhabited

namespace Failure

def message (failure : Failure) : String := failure.code.heading ++ failure.text

def envelope (failure : Failure) (service : String) : ErrorEnvelope :=
  ⟨failure.code, service, failure.message⟩

end Failure

/-- Why a transport refused a batch of addresses. -/
inductive TransportError where
  | closed
  | other (message : String)
  deriving DecidableEq

def TransportError.message : TransportError → String
  | .closed => "transport is closed"
  | .other message => s!"transport error: {message}"

/-- Why an operation on the mesh failed. -/
inductive MeshError where
  | emptyService
  | duplicateKey (route : Route)
  | emptyNodeId
  | isLocalNode (id : String)
  | localNodeStays
  | unregisteredNode (id : String)
  | unregisteredRouter (id : String)
  | foreignRoute (route : Route) (router : String)
  | malformedAdvert (fault : Json.Fault)
  | transport (cause : TransportError)
  | localNodeMissing (id : String)
  deriving DecidableEq

def MeshError.failure : MeshError → Failure
  | .emptyService => ⟨.invalidArgument, "route service must not be empty"⟩
  | .duplicateKey route =>
    ⟨.internal, s!"duplicate routes stored for key of {route.summary}"⟩
  | .emptyNodeId => ⟨.invalidArgument, "node id must not be empty"⟩
  | .isLocalNode id => ⟨.invalidArgument, s!"node {id} is the local node"⟩
  | .localNodeStays => ⟨.invalidArgument, "the local node cannot be removed"⟩
  | .unregisteredNode id => ⟨.invalidArgument, s!"node {id} is not registered"⟩
  | .unregisteredRouter id => ⟨.invalidArgument, s!"router {id} is not registered"⟩
  | .foreignRoute route router =>
    ⟨.invalidArgument, s!"route {route.summary} not owned by advertising router {router}"⟩
  | .malformedAdvert fault => ⟨.invalidArgument, s!"malformed advert: {fault.message}"⟩
  | .transport cause => ⟨.unavailable, cause.message⟩
  | .localNodeMissing id => ⟨.internal, s!"local node {id} is not registered"⟩

end ServiceMesh

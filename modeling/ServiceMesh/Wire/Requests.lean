import ServiceMesh.Failure
import ServiceMesh.Topology
import ServiceMesh.Wire.Basic

/-!
# Requests and failures on the wire
-/

namespace ServiceMesh

open Wire (field member)

instance : Wire PeerAddress where
  read := Json.record fun depth ↦ {
    name := "PeerAddress"
    blank := default
    fields := [field depth "address" .required fun _ address ↦ ⟨address⟩] }
  write peer := Json.writeObject [member "address" peer.address]

instance : Wire ConnectRequest where
  read := Json.record fun depth ↦ {
    name := "ConnectRequest"
    blank := {}
    fields := [field depth "nodes" .optional fun _ nodes ↦ ⟨nodes⟩] }
  write request := Json.writeObject [member "nodes" request.nodes]

instance : Wire GraphRequest where
  read := Json.record fun depth ↦ {
    name := "GraphRequest"
    blank := {}
    fields := [field depth "depth" .optional fun _ requested ↦ ⟨requested⟩] }
  write request := Json.writeObject [member "depth" request.depth]

instance : Wire ErrorCode where
  read := Json.variant [("invalid_argument", .invalidArgument), ("internal", .internal),
    ("unavailable", .unavailable)]
  write code := Json.writeText code.name

instance : Wire ErrorEnvelope where
  read := Json.record fun depth ↦ {
    name := "ErrorEnvelope"
    blank := default
    fields := [
      field depth "code" .required fun envelope code ↦ { envelope with code },
      field depth "id" .required fun envelope id ↦ { envelope with id },
      field depth "detail" .required fun envelope detail ↦ { envelope with detail }] }
  write envelope := Json.writeObject [
    member "code" envelope.code, member "id" envelope.id, member "detail" envelope.detail]

end ServiceMesh

import ServiceMesh.Failure
import ServiceMesh.Route
import ServiceMesh.Wire.Basic

/-!
# Routes, queries and adverts on the wire
-/

namespace ServiceMesh

open Wire (field member)

namespace Route

def shape (depth : Nat) : Json.Shape Route where
  name := "Route"
  blank := {}
  fields := [
    field depth "service" .required fun route service ↦ { route with service },
    field depth "address" .required fun route address ↦ { route with address },
    field depth "gateway" .optional fun route gateway ↦ { route with gateway },
    field depth "network" .optional fun route network ↦ { route with network },
    field depth "router" .optional fun route router ↦ { route with router },
    field depth "link" .optional fun route link ↦ { route with link },
    field depth "metric" .optional fun route metric ↦ { route with metric }]

instance : Wire Route where
  read := Json.record shape
  write route := Json.writeObject [
    member "service" route.service, member "address" route.address,
    member "gateway" route.gateway, member "network" route.network,
    member "router" route.router, member "link" route.link, member "metric" route.metric]

end Route

instance : Wire RouteOrder where
  read := Json.variant [("insertion", .insertion), ("metric", .metric)]
  write
    | .insertion => Json.writeText "insertion"
    | .metric => Json.writeText "metric"

namespace RouteQuery

/-- A constraint: null leaves the field open, and so does its absence from an object. -/
def constraint (name : String) (set : RouteQuery → Option String → RouteQuery) :
    Json.Field RouteQuery :=
  Json.field name .optionalMember Json.optionalText set

def shape (depth : Nat) : Json.Shape RouteQuery where
  name := "RouteQuery"
  blank := {}
  fields := [
    constraint "service" fun query service ↦ { query with service },
    constraint "address" fun query address ↦ { query with address },
    constraint "gateway" fun query gateway ↦ { query with gateway },
    constraint "router" fun query router ↦ { query with router },
    constraint "network" fun query network ↦ { query with network },
    field depth "order" .optional fun query order ↦ { query with order }]

/-- Open fields are left out. -/
def constraintMember (name : String) (wanted : Option String) : List (String × Json.Written) :=
  match wanted with
  | none => []
  | some value => [member name value]

instance : Wire RouteQuery where
  read := Json.record shape
  write query := Json.writeObject (
    constraintMember "service" query.service ++ constraintMember "address" query.address ++
    constraintMember "gateway" query.gateway ++ constraintMember "router" query.router ++
    constraintMember "network" query.network ++ [member "order" query.order])

end RouteQuery

instance : Wire EventKind where
  read := Json.variant [("create", .create), ("update", .update), ("delete", .delete)]
  write kind := Json.writeText kind.name

namespace TableEvent

def shape (depth : Nat) : Json.Shape TableEvent where
  name := "TableEvent"
  blank := default
  fields := [
    field depth "kind" .required fun event kind ↦ { event with kind },
    field depth "route" .required fun event route ↦ { event with route }]

instance : Wire TableEvent where
  read := Json.record shape
  write event := Json.writeObject [member "kind" event.kind, member "route" event.route]

end TableEvent

namespace Advert

def shape (depth : Nat) : Json.Shape Advert where
  name := "Advert"
  blank := default
  fields := [
    field depth "id" .required fun advert id ↦ { advert with id },
    field depth "events" .required fun advert events ↦ { advert with events }]

instance : Wire Advert where
  read := Json.record shape
  write advert := Json.writeObject [member "id" advert.id, member "events" advert.events]

def encode (advert : Advert) : Json.Bytes := Json.bytes (Wire.encode advert)

/-- Reads an advert as a whole or refuses it. -/
def decode (input : Json.Bytes) : Except MeshError Advert :=
  (Wire.decode input).mapError .malformedAdvert

end Advert

end ServiceMesh

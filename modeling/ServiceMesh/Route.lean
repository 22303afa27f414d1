/-!
# Routes

A route says how one instance of a service is reached: over which gateway, network and link, as
advertised by which router, and at what cost.  Two routes that agree on everything but link and
metric share a key, and a table keeps at most one of them.

A query for routes constrains some fields and leaves the others open; its order only arranges the
routes that match.  Changes of a table are told as events, and routers advertise theirs in batches.
-/

namespace ServiceMesh

structure Route where
  service : String := ""
  address : String := ""
  /-- Empty when the address is reached directly. -/
  gateway : String := ""
  network : String := ""
  /-- The id of the router that advertised the route. -/
  router : String := ""
  link : String := ""
  /-- The cost; lower is better. -/
  metric : Int64 := 0
  deriving DecidableEq, Inhabited

/-- What identifies a route in a table. -/
structure RouteKey where
  service : String
  address : String
  gateway : String
  network : String
  router : String
  deriving DecidableEq

/-- The service of fallback routes, which serve every service that has no route of its own. -/
def wildcardService : String := "*"

namespace Route

def key (route : Route) : RouteKey :=
  ⟨route.service, route.address, route.gateway, route.network, route.router⟩

def sameKey (route other : Route) : Bool := route.key = other.key

def isWildcard (route : Route) : Bool := route.service = wildcardService

/-- The one-line form of a route, in which a direct route goes via a dash. -/
def summary (route : Route) : String :=
  let gateway := if route.gateway.isEmpty then "-" else route.gateway
  s!"{route.service}@{route.address} via {gateway} ({route.network}/{route.router})" ++
    s!" metric={route.metric}"

/-- Cheaper routes come first, and of equally cheap ones the lower address. -/
def ranksBefore (route other : Route) : Bool :=
  route.metric < other.metric || (route.metric = other.metric && route.address ≤ other.address)

/-- The first of the cheapest routes: no route ranks below it, and of its equals it comes first. -/
def cheapest : List Route → Option Route
  | [] => none
  | route :: rest =>
    match cheapest rest with
    | none => some route
    | some best => if route.ranksBefore best then some route else some best

end Route

inductive RouteOrder where
  /-- As inserted, service by service. -/
  | insertion
  /-- By ascending metric, then by address. -/
  | metric
  deriving DecidableEq, Inhabited

structure RouteQuery where
  service : Option String := none
  address : Option String := none
  gateway : Option String := none
  router : Option String := none
  network : Option String := none
  order : RouteOrder := .insertion
  deriving DecidableEq, Inhabited

/-- An open field admits every value, a constrained one only its own. -/
def admits (wanted : Option String) (held : String) : Bool :=
  match wanted with
  | none => true
  | some value => value = held

namespace RouteQuery

def selects (query : RouteQuery) (route : Route) : Bool :=
  admits query.service route.service && admits query.address route.address &&
    admits query.gateway route.gateway && admits query.router route.router &&
    admits query.network route.network

/-- Puts selected routes in the order that the query asks for; equals keep their places. -/
def arrange (query : RouteQuery) (routes : List Route) : List Route :=
  match query.order with
  | .insertion => routes
  | .metric => routes.mergeSort Route.ranksBefore

end RouteQuery

inductive EventKind where
  | create
  | update
  | delete
  deriving DecidableEq, Inhabited

def EventKind.name : EventKind → String
  | .create => "create"
  | .update => "update"
  | .delete => "delete"

/-- One change: a route was stored, was stored in place of one of the same key, or was withdrawn. -/
structure TableEvent where
  kind : EventKind
  route : Route
  deriving DecidableEq, Inhabited

/-- A batch of changes that a router advertises. -/
structure Advert where
  /-- The id of the advertising router. -/
  id : String
  events : List TableEvent
  deriving DecidableEq, Inhabited

end ServiceMesh

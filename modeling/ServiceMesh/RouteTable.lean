import ServiceMesh.Failure
import ServiceMesh.Feed
import ServiceMesh.NameMap

/-!
# The route table

A table keeps its routes in buckets, one per service, and in each bucket in the order of their first
insertion.  A change of the table comes with the events that announce it.  A live table sends these
events over a feed, in the order of the changes.
-/

namespace ServiceMesh

structure RouteTable where
  buckets : NameMap (List Route) := ∅
  deriving DecidableEq, Inhabited

namespace RouteTable

/-- All routes, service by service. -/
def routes (table : RouteTable) : List Route := table.buckets.values.flatten

/-- The routes of one service. -/
def bucket (table : RouteTable) (service : String) : List Route :=
  (table.buckets.get? service).getD []

/-- Sets the routes of one service; a service without routes has no bucket. -/
def setBucket (table : RouteTable) (service : String) (routes : List Route) : RouteTable :=
  match routes with
  | [] => ⟨table.buckets.erase service⟩
  | routes => ⟨table.buckets.insert service routes⟩

def size (table : RouteTable) : Nat :=
  (table.buckets.values.map List.length).foldr (· + ·) 0

def isEmpty (table : RouteTable) : Bool := table.buckets.isEmpty

/-- Puts a route at the place of the first route of its key. -/
def replaceFirst (route : Route) : List Route → List Route
  | [] => []
  | held :: rest => if held.sameKey route then route :: rest else held :: replaceFirst route rest

/-- Stores a route in place of the one of its key, or else at the end of its bucket.  Storing a
route that is already held as it is changes nothing and is not announced. -/
def create (table : RouteTable) (route : Route) :
    Except MeshError (RouteTable × List TableEvent) :=
  if route.service.isEmpty then .error .emptyService
  else
    let bucket := table.bucket route.service
    match bucket.filter (·.sameKey route) with
    | [] => .ok (table.setBucket route.service (bucket ++ [route]), [⟨.create, route⟩])
    | [held] =>
      if held = route then .ok (table, [])
      else .ok (table.setBucket route.service (replaceFirst route bucket), [⟨.update, route⟩])
    | _ => .error (.duplicateKey route)

/-- Withdraws the route of the given route's key; the event tells the route that was held. -/
def delete (table : RouteTable) (route : Route) : RouteTable × List TableEvent :=
  let bucket := table.bucket route.service
  match bucket.find? (·.sameKey route) with
  | none => (table, [])
  | some held =>
    (table.setBucket route.service (bucket.eraseP (·.sameKey route)), [⟨.delete, held⟩])

/-- The routes that a router advertised. -/
def routesOf (table : RouteTable) (router : String) : List Route :=
  table.routes.filter (·.router = router)

/-- Withdraws all routes of a router. -/
def deleteByRouter (table : RouteTable) (router : String) : RouteTable × List TableEvent :=
  let keep := fun (_ : String) (bucket : List Route) ↦
    match bucket.filter (·.router ≠ router) with
    | [] => none
    | kept => some kept
  (⟨table.buckets.filterMap keep⟩, (table.routesOf router).map fun route ↦ ⟨.delete, route⟩)

/-- The selected routes.  A query for one service looks at its bucket only. -/
def query (table : RouteTable) (query : RouteQuery) : List Route :=
  let scope := match query.service with
    | some service => table.bucket service
    | none => table.routes
  query.arrange (scope.filter query.selects)

/-- The services with routes; the wildcard is no service of its own. -/
def services (table : RouteTable) : List String :=
  table.buckets.names.filter (· ≠ wildcardService)

/-- The best route to a service, or else the best fallback route. -/
def lookup (table : RouteTable) (service : String) : Option Route :=
  (Route.cheapest (table.bucket service)).or (Route.cheapest (table.bucket wildcardService))

end RouteTable

structure LiveTable where
  table : RouteTable := {}
  feed : Feed TableEvent := {}
  deriving Inhabited

namespace LiveTable

/-- Takes over a changed table and announces the change. -/
def publish (live : LiveTable) (change : RouteTable × List TableEvent) : LiveTable :=
  ⟨change.1, live.feed.sendAll change.2⟩

/-- Stores a route; a refused one changes nothing. -/
def create (live : LiveTable) (route : Route) : LiveTable × Option MeshError :=
  match live.table.create route with
  | .ok change => (live.publish change, none)
  | .error cause => (live, some cause)

def delete (live : LiveTable) (route : Route) : LiveTable :=
  live.publish (live.table.delete route)

/-- Withdraws all routes of a router, and gives them back. -/
def deleteByRouter (live : LiveTable) (router : String) : LiveTable × List Route :=
  (live.publish (live.table.deleteByRouter router), live.table.routesOf router)

/-- Stores routes until one is refused. -/
def createAll (live : LiveTable) : List Route → LiveTable × Option MeshError
  | [] => (live, none)
  | route :: rest =>
    match live.create route with
    | (live, none) => live.createAll rest
    | refused => refused

end LiveTable

end ServiceMesh

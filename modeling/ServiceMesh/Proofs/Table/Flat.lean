import ServiceMesh.Proofs.StableSort
import ServiceMesh.Proofs.Table.History
import ServiceMesh.Proofs.Table.Query

/-!
# The table as one list

Whoever uses a table may think of it as one list of routes, in which a stored route replaces the one
of its key or comes last.  The table shows this list service by service: a bucket is what the list
has for one service, and all buckets together are the list sorted by services.
-/

namespace ServiceMesh

/-- Texts are ordered as their bytes in UTF-8 are. -/
theorem Json.bytes_le_bytes_iff (one other : String) : bytes one ≤ bytes other ↔ one ≤ other := by
  rw [← List.not_lt, bytes_lt_bytes_iff, String.not_lt]

/-- The service of the first route is not above that of the second, byte by byte. -/
def Route.serviceLE (route other : Route) : Bool :=
  Json.bytes route.service ≤ Json.bytes other.service

namespace Route

theorem serviceLE_iff {route other : Route} :
    route.serviceLE other = true ↔ route.service ≤ other.service := by
  rw [serviceLE, decide_eq_true_iff, Json.bytes_le_bytes_iff]

theorem serviceLE_of_eq {route other : Route} (h : route.service = other.service) :
    route.serviceLE other = true :=
  serviceLE_iff.2 (h ▸ String.le_refl _)

/-- The order looks at nothing but the services. -/
theorem serviceLE_comparesBy : ComparesBy serviceLE Route.service where
  trans one other third h h' :=
    serviceLE_iff.2 (String.le_trans (serviceLE_iff.1 h) (serviceLE_iff.1 h'))
  total one other := by
    rw [Bool.or_eq_true, serviceLE_iff, serviceLE_iff]
    exact String.le_total _ _
  key_eq_iff one other := by
    rw [serviceLE_iff, serviceLE_iff]
    constructor
    · intro heq
      exact ⟨heq ▸ String.le_refl _, heq ▸ String.le_refl _⟩
    · rintro ⟨hle, hge⟩
      exact String.le_antisymm hle hge

end Route

/-- Routes of all services, in the order of their first insertion. -/
structure FlatTable where
  routes : List Route := []

namespace FlatTable

def create (flat : FlatTable) (route : Route) : FlatTable × Option MeshError :=
  if route.service = "" then (flat, some .emptyService)
  else (⟨RouteTable.place route flat.routes⟩, none)

def delete (flat : FlatTable) (route : Route) : FlatTable :=
  ⟨flat.routes.eraseP (·.sameKey route)⟩

def deleteByRouter (flat : FlatTable) (router : String) : FlatTable × List Route :=
  (⟨flat.routes.filter (·.router ≠ router)⟩, flat.routes.filter (·.router = router))

def call (flat : FlatTable) : TableCall → FlatTable
  | .create route => (flat.create route).1
  | .delete route => flat.delete route
  | .deleteByRouter router => (flat.deleteByRouter router).1

def run (flat : FlatTable) (calls : List TableCall) : FlatTable := calls.foldl call flat

end FlatTable

namespace RouteTable

/-- Each bucket is what the list has for its service. -/
structure Shows (table : RouteTable) (flat : FlatTable) : Prop where
  wellFormed : table.WellFormed
  distinct : DistinctKeys flat.routes
  bucket_eq : ∀ service, table.bucket service = flat.routes.filter (·.service = service)

theorem shows_empty : ({} : RouteTable).Shows {} where
  wellFormed := wellFormed_empty
  distinct := .nil
  bucket_eq _ := rfl

/-- A table shows the list of its routes. -/
theorem WellFormed.shows_routes {table : RouteTable} (h : table.WellFormed) :
    table.Shows ⟨table.routes⟩ where
  wellFormed := h
  distinct := h.distinctKeys_routes
  bucket_eq service := (h.filter_service service).symm

namespace Shows

variable {table : RouteTable} {flat : FlatTable}

/-- A stored route takes its place in the list and in its bucket alike. -/
theorem create (h : table.Shows flat) (route : Route) :
    (table.call (.create route)).1.Shows (flat.create route).1 := by
  by_cases hnamed : route.service = ""
  · rwa [call_create_of_unnamed table hnamed, FlatTable.create, if_pos hnamed]
  · rw [h.wellFormed.call_create hnamed, FlatTable.create, if_neg hnamed]
    refine ⟨h.wellFormed.store hnamed, distinctKeys_place h.distinct, fun service ↦ ?_⟩
    let chosen (key : RouteKey) : Bool := key.service = service
    rw [bucket_store, h.bucket_eq]
    by_cases hservice : service = route.service
    · have hchosen : chosen route.key = true := decide_eq_true hservice.symm
      rw [if_pos hservice]
      exact (filter_place_of_pos hchosen flat.routes).symm
    · have hchosen : chosen route.key = false := decide_eq_false (Ne.symm hservice)
      rw [if_neg hservice]
      exact (filter_place_of_neg hchosen flat.routes).symm

/-- Erasing a key from the list erases it from the bucket of its service. -/
theorem delete (h : table.Shows flat) (route : Route) :
    (table.call (.delete route)).1.Shows (flat.delete route) := by
  rw [h.wellFormed.call_delete, FlatTable.delete, eraseP_sameKey h.distinct]
  refine ⟨h.wellFormed.withdraw route, h.distinct.filter _, fun service ↦ ?_⟩
  let chosen (key : RouteKey) : Bool := key.service = service
  rw [bucket_withdraw, h.bucket_eq]
  split
  · exact List.filter_comm _ _ _
  · next hservice =>
    have hchosen : chosen route.key = false := decide_eq_false (Ne.symm hservice)
    exact (filter_withdraw_of_neg hchosen flat.routes).symm

/-- A router leaves the list and each bucket with its routes. -/
theorem deleteByRouter (h : table.Shows flat) (router : String) :
    (table.call (.deleteByRouter router)).1.Shows (flat.deleteByRouter router).1 := by
  refine ⟨h.wellFormed.deleteByRouter router, h.distinct.filter _, fun service ↦ ?_⟩
  have hbucket := bucket_deleteByRouter table router service
  rw [h.bucket_eq, List.filter_comm] at hbucket
  exact hbucket

theorem call (h : table.Shows flat) (call : TableCall) :
    (table.call call).1.Shows (flat.call call) := by
  cases call with
  | create route => exact h.create route
  | delete route => exact h.delete route
  | deleteByRouter router => exact h.deleteByRouter router

/-- After any calls the table shows what the list has become. -/
theorem run (h : table.Shows flat) (calls : List TableCall) :
    (table.run calls).1.Shows (flat.run calls) := by
  induction calls generalizing table flat with
  | nil => exact h
  | cons call calls ih => exact ih (h.call call)

end Shows

/-- Buckets are listed in the order of their services. -/
theorem WellFormed.routes_sorted {table : RouteTable} (h : table.WellFormed) :
    table.routes.Pairwise (Route.serviceLE · ·) := by
  refine h.pairwise_routes (fun service ↦ ?_) fun one other hlt ↦ ?_
  · refine List.pairwise_of_forall_mem_list fun route hroute route' hroute' ↦ ?_
    exact Route.serviceLE_of_eq ((h.service_eq _ _ hroute).trans (h.service_eq _ _ hroute').symm)
  · exact Route.serviceLE_iff.2 (String.not_lt.1 (String.lt_asymm hlt))

namespace Shows

variable {table : RouteTable} {flat : FlatTable}

theorem filter_service (h : table.Shows flat) (service : String) :
    table.routes.filter (·.service = service) = flat.routes.filter (·.service = service) := by
  rw [h.wellFormed.filter_service, h.bucket_eq]

/-- A table lists its routes by services, and the routes of one service as they stand in the
list. -/
theorem routes_eq (h : table.Shows flat) : table.routes = flat.routes.mergeSort Route.serviceLE :=
  Route.serviceLE_comparesBy.eq_mergeSort h.wellFormed.routes_sorted h.filter_service

theorem routesOf_eq (h : table.Shows flat) (router : String) :
    table.routesOf router = (flat.deleteByRouter router).2.mergeSort Route.serviceLE := by
  refine Route.serviceLE_comparesBy.eq_mergeSort (h.wellFormed.routes_sorted.filter _)
    fun service ↦ ?_
  rw [routesOf, FlatTable.deleteByRouter, List.filter_comm, h.filter_service, List.filter_comm]

theorem query_service (h : table.Shows flat) (service : String) :
    table.query { service := some service } = flat.routes.filter (·.service = service) := by
  rw [h.wellFormed.query_service, h.bucket_eq]
  rfl

end Shows

end RouteTable

namespace LiveTable

/-- Whatever the calls, the table stores and refuses what the list does.  A query for everything
lists the list sorted by services, a query for one service what the list has for it, and the routes
of a router come back as the list gives them back, sorted by services. -/
theorem run_eq_flat (calls : List TableCall) :
    let live := run {} calls
    let flat := FlatTable.run {} calls
    (∀ route, (live.create route).2 = (flat.create route).2) ∧
    live.table.query {} = flat.routes.mergeSort Route.serviceLE ∧
    (∀ service,
      live.table.query { service := some service } = flat.routes.filter (·.service = service)) ∧
    ∀ router, (live.deleteByRouter router).2 =
      (flat.deleteByRouter router).2.mergeSort Route.serviceLE := by
  intro live flat
  have hshows : live.table.Shows flat := by
    rw [table_run]
    exact RouteTable.shows_empty.run calls
  refine ⟨fun route ↦ ?_, ?_, hshows.query_service, hshows.routesOf_eq⟩
  · rw [create_eq hshows.wellFormed, FlatTable.create]
    split <;> rfl
  · rw [RouteTable.query_all]
    exact hshows.routes_eq

end LiveTable

end ServiceMesh

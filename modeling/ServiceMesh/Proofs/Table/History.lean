import ServiceMesh.Proofs.Table.Invariant
import ServiceMesh.RouteTable

/-!
# Histories of a route table

A table is changed by three calls.  A history is any list of them; it ends with a table and has
announced a list of events, and over a live table these are what its feed was sent.  Each call keeps
a table well-formed, so every table that a history from the empty one reaches is.
-/

namespace ServiceMesh

/-- A call that may change a table. -/
inductive TableCall where
  | create (route : Route)
  | delete (route : Route)
  | deleteByRouter (router : String)
  deriving DecidableEq

namespace RouteTable

/-- The table after a call, and the events that announce it; a refused route has none. -/
def call (table : RouteTable) : TableCall → RouteTable × List TableEvent
  | .create route =>
    match table.create route with
    | .ok change => change
    | .error _ => (table, [])
  | .delete route => table.delete route
  | .deleteByRouter router => table.deleteByRouter router

/-- The table after a history, and all the events that announce it. -/
def run (table : RouteTable) : List TableCall → RouteTable × List TableEvent
  | [] => (table, [])
  | call :: calls =>
    let (table, events) := table.call call
    let (last, more) := table.run calls
    (last, events ++ more)

@[simp] theorem run_nil (table : RouteTable) : table.run [] = (table, []) := rfl

theorem run_cons (table : RouteTable) (call : TableCall) (calls : List TableCall) :
    table.run (call :: calls) =
      (((table.call call).1.run calls).1,
        (table.call call).2 ++ ((table.call call).1.run calls).2) := rfl

/-- A history goes on where another one has ended. -/
theorem run_append (table : RouteTable) (calls calls' : List TableCall) :
    table.run (calls ++ calls') =
      (((table.run calls).1.run calls').1,
        (table.run calls).2 ++ ((table.run calls).1.run calls').2) := by
  induction calls generalizing table with
  | nil => rfl
  | cons call calls ih => simp only [List.cons_append, run_cons, ih, List.append_assoc]

theorem call_create_of_unnamed (table : RouteTable) {route : Route} (h : route.service = "") :
    table.call (.create route) = (table, []) := by
  rw [call, create_of_unnamed h]

namespace WellFormed

variable {table : RouteTable}

/-- A named route is stored, and announced unless it was held as it is. -/
theorem call_create (h : table.WellFormed) {route : Route} (hnamed : route.service ≠ "") :
    table.call (.create route) = (table.store route, storeEvents route (table.held? route)) := by
  rw [call, h.create_eq hnamed]

theorem call_delete (h : table.WellFormed) (route : Route) :
    table.call (.delete route) = (table.withdraw route, withdrawEvents (table.held? route)) :=
  h.delete_eq route

theorem call (h : table.WellFormed) (call : TableCall) : (table.call call).1.WellFormed := by
  cases call with
  | create route =>
    by_cases hnamed : route.service = ""
    · rwa [call_create_of_unnamed table hnamed]
    · rw [h.call_create hnamed]
      exact h.store hnamed
  | delete route =>
    rw [h.call_delete]
    exact h.withdraw route
  | deleteByRouter router => exact h.deleteByRouter router

/-- No history leads out of the well-formed tables. -/
theorem run (h : table.WellFormed) (calls : List TableCall) : (table.run calls).1.WellFormed := by
  induction calls generalizing table with
  | nil => exact h
  | cons call calls ih => exact ih (h.call call)

end WellFormed

end RouteTable

namespace LiveTable

def call (live : LiveTable) : TableCall → LiveTable
  | .create route => (live.create route).1
  | .delete route => live.delete route
  | .deleteByRouter router => (live.deleteByRouter router).1

def run (live : LiveTable) (calls : List TableCall) : LiveTable := calls.foldl call live

/-- A history from the empty table leads here. -/
def Reachable (live : LiveTable) : Prop := ∃ calls, live = run {} calls

theorem call_eq_publish (live : LiveTable) (call : TableCall) :
    live.call call = live.publish (live.table.call call) := by
  cases call with
  | create route =>
    simp only [LiveTable.call, LiveTable.create, RouteTable.call]
    cases live.table.create route <;> rfl
  | delete route => rfl
  | deleteByRouter router => rfl

/-- A live table sends out what its table announces. -/
theorem run_eq_publish (live : LiveTable) (calls : List TableCall) :
    live.run calls = live.publish (live.table.run calls) := by
  induction calls generalizing live with
  | nil => rfl
  | cons call calls ih =>
    rw [run, List.foldl_cons, ← run, ih, call_eq_publish, RouteTable.run_cons]
    simp only [publish, Feed.sendAll, List.foldl_append]

theorem table_run (live : LiveTable) (calls : List TableCall) :
    (live.run calls).table = (live.table.run calls).1 := by
  rw [run_eq_publish, publish]

theorem run_append (live : LiveTable) (calls more : List TableCall) :
    live.run (calls ++ more) = (live.run calls).run more :=
  List.foldl_append

theorem wellFormed_run {live : LiveTable} (h : live.table.WellFormed) (calls : List TableCall) :
    (live.run calls).table.WellFormed := by
  rw [table_run]
  exact h.run calls

/-- What a history has led to is well-formed. -/
theorem Reachable.wellFormed {live : LiveTable} (h : live.Reachable) : live.table.WellFormed := by
  obtain ⟨calls, rfl⟩ := h
  rw [table_run]
  exact RouteTable.wellFormed_empty.run calls

/-- Storing refuses a route without a service, which changes nothing, and no other. -/
theorem create_eq {live : LiveTable} (h : live.table.WellFormed) (route : Route) :
    live.create route =
      if route.service = "" then (live, some .emptyService)
      else (live.call (.create route), none) := by
  split
  · next hnamed => rw [create, RouteTable.create_of_unnamed hnamed]
  · next hnamed =>
    simp only [call, create, h.create_eq hnamed]

/-- Every table that calls lead to keeps one route for a key, in a bucket of its service, and has no
empty buckets; so only a route without a service is refused, and the sizes and services told are
those of the routes that are stored. -/
theorem run_invariant (calls : List TableCall) :
    let live := run {} calls
    let table := live.table
    (table.routes.Pairwise fun one other ↦ one.key ≠ other.key) ∧
    (∀ service routes, table.buckets.get? service = some routes →
      service ≠ "" ∧ routes ≠ [] ∧ ∀ route ∈ routes, route.service = service) ∧
    (∀ route, (live.create route).2.isSome ↔ route.service = "") ∧
    (∀ route cause, (live.create route).2 = some cause →
      cause.failure.code = .invalidArgument ∧ (live.create route).1 = live) ∧
    (table.isEmpty = true ↔ table.size = 0) ∧
    (table.services.Pairwise fun one other ↦ Json.bytes one < Json.bytes other) ∧
    ∀ service, service ∈ table.services ↔
      service ≠ wildcardService ∧ ∃ route ∈ table.query {}, route.service = service := by
  intro live table
  have hwell : table.WellFormed := Reachable.wellFormed ⟨calls, rfl⟩
  refine ⟨hwell.distinctKeys_routes, fun service routes hget ↦ ?_, fun route ↦ ?_,
    fun route cause hcause ↦ ?_, hwell.isEmpty_iff, ?_, fun service ↦ ?_⟩
  · have hbucket : table.bucket service = routes := RouteTable.bucket_of_get? hget
    have hne := hwell.nonempty service (NameMap.contains_of_get? hget)
    refine ⟨?_, hbucket ▸ hne, hbucket ▸ hwell.service_eq service⟩
    rintro rfl
    exact hne hwell.unnamed
  · rw [create_eq hwell]
    split <;> simp [*]
  · by_cases hnamed : route.service = ""
    · rw [create_eq hwell, if_pos hnamed] at hcause ⊢
      cases hcause
      exact ⟨rfl, rfl⟩
    · rw [create_eq hwell, if_neg hnamed] at hcause
      cases hcause
  · refine table.services_ascending.imp fun {one other} hlt ↦ ?_
    exact (Json.bytes_lt_bytes_iff one other).2 hlt
  · rw [RouteTable.query_all]
    exact hwell.mem_services_iff service

end LiveTable

end ServiceMesh

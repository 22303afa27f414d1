import ServiceMesh.Proofs.Table.Replay

/-!
# Parts of a table

A choice by keys takes a part of a table.  What a call does to a route of a chosen key it does to
the part as well, and the part knows nothing of other routes.  So a history of stores and
withdrawals leads the part to where its chosen calls lead it.
-/

namespace ServiceMesh.RouteTable

variable {table : RouteTable} {chosen : RouteKey → Bool}

theorem flatten_values_filterMap {keep : String → List Route → Option (List Route)}
    {p : Route → Bool} (h : ∀ name held, (keep name held).getD [] = held.filter p)
    (m : NameMap (List Route)) :
    (m.filterMap keep).values.flatten = m.values.flatten.filter p := by
  suffices hentries : ∀ entries : List (String × List Route),
      ((entries.filterMap fun entry ↦ (keep entry.1 entry.2).map (entry.1, ·)).map
        Prod.snd).flatten = (entries.map Prod.snd).flatten.filter p from hentries m.entries
  intro entries
  induction entries with
  | nil => rfl
  | cons entry entries ih =>
    have hkept := h entry.1 entry.2
    rw [List.map_cons, List.flatten_cons, List.filter_append, ← ih, ← hkept]
    cases hkeep : keep entry.1 entry.2 with
    | none =>
      rw [List.filterMap_cons_none (by rw [hkeep]; rfl)]
      rfl
    | some kept =>
      rw [List.filterMap_cons_some (by rw [hkeep]; rfl)]
      rfl

/-- A part keeps the order of the routes. -/
theorem routes_restrict (table : RouteTable) (chosen : RouteKey → Bool) :
    (table.restrict chosen).routes = table.routes.filter fun route ↦ chosen route.key := by
  refine flatten_values_filterMap (fun name held ↦ ?_) table.buckets
  cases held.filter fun route ↦ chosen route.key <;> rfl

/-- The routes of a router are a part of the table. -/
theorem query_router (table : RouteTable) (router : String) :
    table.query { router := some router } =
      (table.restrict fun key ↦ key.router = router).routes := by
  rw [routes_restrict]
  exact table.query_eq_routesOf router

namespace WellFormed

/-- A route of a chosen key is stored in the part as in the table. -/
theorem restrict_store_of_pos (h : table.WellFormed) {route : Route} (hnamed : route.service ≠ "")
    (hchosen : chosen route.key = true) :
    (table.store route).restrict chosen = (table.restrict chosen).store route := by
  apply ((h.store hnamed).restrict chosen).ext_bucket ((h.restrict chosen).store hnamed)
  intro service
  rw [bucket_restrict, bucket_store, bucket_store, bucket_restrict]
  split
  · exact filter_place_of_pos hchosen _
  · rfl

/-- A route of another key leaves the part as it is. -/
theorem restrict_store_of_neg (h : table.WellFormed) {route : Route} (hnamed : route.service ≠ "")
    (hchosen : chosen route.key = false) :
    (table.store route).restrict chosen = table.restrict chosen := by
  apply ((h.store hnamed).restrict chosen).ext_bucket (h.restrict chosen)
  intro service
  rw [bucket_restrict, bucket_store, bucket_restrict]
  split
  · exact filter_place_of_neg hchosen _
  · rfl

theorem restrict_withdraw_of_pos (h : table.WellFormed) (route : Route) :
    (table.withdraw route).restrict chosen = (table.restrict chosen).withdraw route := by
  apply ((h.withdraw route).restrict chosen).ext_bucket ((h.restrict chosen).withdraw route)
  intro service
  rw [bucket_restrict, bucket_withdraw, bucket_withdraw, bucket_restrict]
  split
  · exact List.filter_comm _ _ _
  · rfl

theorem restrict_withdraw_of_neg (h : table.WellFormed) {route : Route}
    (hchosen : chosen route.key = false) :
    (table.withdraw route).restrict chosen = table.restrict chosen := by
  apply ((h.withdraw route).restrict chosen).ext_bucket (h.restrict chosen)
  intro service
  rw [bucket_restrict, bucket_withdraw, bucket_restrict]
  split
  · exact filter_withdraw_of_neg hchosen _
  · rfl

/-- What an event does to a part is what it does to the table if its key is chosen, and else
nothing. -/
theorem restrict_call (h : table.WellFormed) (event : TableEvent) :
    (table.call event.call).1.restrict chosen =
      if chosen event.route.key = true then ((table.restrict chosen).call event.call).1
      else table.restrict chosen := by
  have hpart := h.restrict chosen
  have hcreate : (table.call (.create event.route)).1.restrict chosen =
      if chosen event.route.key = true then ((table.restrict chosen).call (.create event.route)).1
      else table.restrict chosen := by
    by_cases hnamed : event.route.service = ""
    · rw [call_create_of_unnamed _ hnamed, call_create_of_unnamed _ hnamed, ite_self]
    · rw [h.call_create hnamed, hpart.call_create hnamed]
      split
      · next hchosen => exact h.restrict_store_of_pos hnamed hchosen
      · next hchosen => exact h.restrict_store_of_neg hnamed (Bool.not_eq_true _ ▸ hchosen)
  have hdelete : (table.call (.delete event.route)).1.restrict chosen =
      if chosen event.route.key = true then ((table.restrict chosen).call (.delete event.route)).1
      else table.restrict chosen := by
    rw [h.call_delete, hpart.call_delete]
    split
    · exact h.restrict_withdraw_of_pos event.route
    · next hchosen => exact h.restrict_withdraw_of_neg (Bool.not_eq_true _ ▸ hchosen)
  obtain ⟨kind, route⟩ := event
  cases kind with
  | create => exact hcreate
  | update => exact hcreate
  | delete => exact hdelete

/-- The chosen events lead a part to where all events lead the table. -/
theorem restrict_run (h : table.WellFormed) (events : List TableEvent) :
    (table.run (events.map TableEvent.call)).1.restrict chosen =
      ((table.restrict chosen).run
        ((events.filter fun event ↦ chosen event.route.key).map TableEvent.call)).1 := by
  induction events generalizing table with
  | nil => rfl
  | cons event events ih =>
    rw [List.map_cons, run_cons, ih (h.call event.call), h.restrict_call]
    by_cases hchosen : chosen event.route.key = true
    · rw [if_pos hchosen, List.filter_cons_of_pos (by simpa using hchosen), List.map_cons, run_cons]
    · rw [if_neg hchosen, List.filter_cons_of_neg (by simpa using hchosen)]

/-- Events of one router leave the routes of all others as they are. -/
theorem filter_router_ne_run (h : table.WellFormed) {router : String} {events : List TableEvent}
    (hrouter : ∀ event ∈ events, event.route.router = router) :
    (table.run (events.map TableEvent.call)).1.routes.filter (·.router ≠ router) =
      table.routes.filter (·.router ≠ router) := by
  have hnone : (events.filter fun event ↦ event.route.key.router ≠ router) = [] := by
    simp only [List.filter_eq_nil_iff, decide_eq_true_eq, not_not]
    exact hrouter
  have hpart : (table.run (events.map TableEvent.call)).1.restrict (fun key ↦ key.router ≠ router) =
      table.restrict fun key ↦ key.router ≠ router := by
    rw [h.restrict_run, hnone]
    rfl
  calc
    (table.run (events.map TableEvent.call)).1.routes.filter (·.router ≠ router) =
        ((table.run (events.map TableEvent.call)).1.restrict
          fun key ↦ key.router ≠ router).routes :=
      (routes_restrict _ fun key ↦ key.router ≠ router).symm
    _ = table.routes.filter (·.router ≠ router) := by
      rw [hpart]
      exact routes_restrict _ fun key ↦ key.router ≠ router

/-- The chosen events of a history lead a part to where the history leads the table. -/
theorem restrict_history (h : table.WellFormed) (calls : List TableCall) :
    (table.run calls).1.restrict chosen =
      ((table.restrict chosen).run
        (((table.run calls).2.filter fun event ↦ chosen event.route.key).map
          TableEvent.call)).1 := by
  rw [← h.restrict_run, h.replay_run]

end WellFormed

end ServiceMesh.RouteTable

import ServiceMesh.Proofs.Table.History

/-!
# Replaying the events of a table

An event is taken as a call: a route that was created or updated is stored, one that was deleted is
withdrawn.  A call and the events that it announces then do the same to a table, and the events
announce themselves.  Invalidating a router is announced by one event for each of its routes, so its
events lead to the same table one route at a time.  A table is also got from its own routes, stored
into an empty one in their order.
-/

namespace ServiceMesh

/-- The call that an event stands for. -/
def TableEvent.call (event : TableEvent) : TableCall :=
  match event.kind with
  | .create | .update => .create event.route
  | .delete => .delete event.route

namespace RouteTable

variable {table : RouteTable}

/-- What is held under a key depends on the key alone. -/
theorem held?_congr (table : RouteTable) {route other : Route} (h : route.key = other.key) :
    table.held? route = table.held? other := by
  have hservice : route.service = other.service := congrArg RouteKey.service h
  simp only [held?, Route.sameKey, h, hservice]

theorem withdraw_congr (table : RouteTable) {route other : Route} (h : route.key = other.key) :
    table.withdraw route = table.withdraw other := by
  have hservice : route.service = other.service := congrArg RouteKey.service h
  simp only [withdraw, h, hservice]

namespace WellFormed

theorem held?_of_mem (h : table.WellFormed) {route : Route} (hmem : route ∈ table.routes) :
    table.held? route = some route :=
  h.held?_eq_some_iff.2 ⟨hmem, rfl⟩

/-- A key has one route. -/
theorem eq_of_key_eq (h : table.WellFormed) {one other : Route} (hone : one ∈ table.routes)
    (hother : other ∈ table.routes) (hkey : one.key = other.key) : one = other := by
  have hheld := h.held?_of_mem hone
  rw [table.held?_congr hkey, h.held?_of_mem hother] at hheld
  exact (Option.some_inj.1 hheld).symm

/-- A route of another key outlives a withdrawal. -/
theorem mem_routes_withdraw (h : table.WellFormed) {route other : Route}
    (hmem : other ∈ table.routes) (hkey : other.key ≠ route.key) :
    other ∈ (table.withdraw route).routes := by
  have hbucket := h.mem_bucket_service hmem
  have hkept : other ∈ (table.withdraw route).bucket other.service := by
    rw [bucket_withdraw]
    split
    · exact List.mem_filter.2 ⟨hbucket, decide_eq_true hkey⟩
    · exact hbucket
  exact mem_routes_of_mem_bucket hkept

/-- To withdraw a stored route takes just this route out of all buckets. -/
theorem bucket_withdraw_of_mem (h : table.WellFormed) {route : Route} (hmem : route ∈ table.routes)
    (service : String) :
    (table.withdraw route).bucket service = (table.bucket service).filter (· ≠ route) := by
  rw [bucket_withdraw]
  split
  · apply List.filter_congr
    intro other hother
    have hsame : other.key = route.key ↔ other = route :=
      ⟨h.eq_of_key_eq (mem_routes_of_mem_bucket hother) hmem, congrArg Route.key⟩
    simp only [ne_eq, hsame]
  · next hservice =>
    symm
    simp only [List.filter_eq_self, decide_eq_true_eq]
    rintro other hother rfl
    exact hservice (h.service_eq service other hother).symm

/-- Stored routes may be withdrawn one after another. -/
theorem run_delete (h : table.WellFormed) {gone : List Route} (hdistinct : DistinctKeys gone)
    (hmem : ∀ route ∈ gone, route ∈ table.routes) :
    (table.run (gone.map .delete)).2 = gone.map (⟨.delete, ·⟩) ∧
      ∀ service, (table.run (gone.map .delete)).1.bucket service =
        (table.bucket service).filter (· ∉ gone) := by
  induction gone generalizing table with
  | nil =>
    refine ⟨rfl, fun service ↦ ?_⟩
    simp
  | cons route gone ih =>
    obtain ⟨hroute, hgone⟩ := List.pairwise_cons.1 hdistinct
    have hstored : route ∈ table.routes := hmem route List.mem_cons_self
    have hleft : ∀ other ∈ gone, other ∈ (table.withdraw route).routes := by
      intro other hother
      exact h.mem_routes_withdraw (hmem other (List.mem_cons_of_mem _ hother))
        (hroute other hother).symm
    obtain ⟨hevents, hbuckets⟩ := ih (h.withdraw route) hgone hleft
    rw [List.map_cons, run_cons, h.call_delete, h.held?_of_mem hstored]
    refine ⟨by rw [hevents]; rfl, fun service ↦ ?_⟩
    calc
      ((table.withdraw route).run (gone.map .delete)).1.bucket service =
          ((table.bucket service).filter (· ≠ route)).filter (· ∉ gone) := by
        rw [hbuckets, h.bucket_withdraw_of_mem hstored]
      _ = (table.bucket service).filter (· ∉ route :: gone) := by
        rw [List.filter_filter]
        apply List.filter_congr
        intro other _
        simp [Bool.and_comm]

theorem mem_routesOf (table : RouteTable) {router : String} {route : Route} :
    route ∈ table.routesOf router ↔ route ∈ table.routes ∧ route.router = router := by
  simp [routesOf]

/-- To invalidate a router is to withdraw the routes of the router, one by one. -/
theorem run_routesOf (h : table.WellFormed) (router : String) :
    table.run ((table.routesOf router).map .delete) = table.deleteByRouter router := by
  have hstored : ∀ route ∈ table.routesOf router, route ∈ table.routes :=
    fun route hmem ↦ ((mem_routesOf table).1 hmem).1
  have hdistinct : DistinctKeys (table.routesOf router) := h.distinctKeys_routes.filter _
  obtain ⟨hevents, hbuckets⟩ := h.run_delete hdistinct hstored
  refine Prod.ext ?_ hevents
  apply (h.run _).ext_bucket (h.deleteByRouter router)
  intro service
  rw [hbuckets, bucket_deleteByRouter]
  apply List.filter_congr
  intro route hmem
  simp [mem_routesOf, mem_routes_of_mem_bucket hmem]

/-- The events of a call do what the call did, and announce themselves. -/
theorem replay_call (h : table.WellFormed) (call : TableCall) :
    table.run ((table.call call).2.map TableEvent.call) = table.call call := by
  have hsingle : ∀ (call : TableCall), table.run [call] = table.call call := fun call ↦ by
    rw [run_cons, run_nil, List.append_nil]
  cases call with
  | create route =>
    by_cases hnamed : route.service = ""
    · rw [call_create_of_unnamed table hnamed]
      rfl
    · rw [h.call_create hnamed]
      cases hheld : table.held? route with
      | none => exact (hsingle (.create route)).trans (by rw [h.call_create hnamed, hheld])
      | some held =>
        by_cases hsame : held = route
        · rw [h.store_of_held (hsame ▸ hheld), storeEvents, if_pos hsame]
          rfl
        · rw [storeEvents, if_neg hsame]
          refine (hsingle (.create route)).trans ?_
          rw [h.call_create hnamed, hheld, storeEvents, if_neg hsame]
  | delete route =>
    rw [h.call_delete]
    cases hheld : table.held? route with
    | none =>
      rw [h.withdraw_of_absent hheld]
      rfl
    | some held =>
      obtain ⟨_, hkey⟩ := mem_of_held? hheld
      refine (hsingle (.delete held)).trans ?_
      rw [h.call_delete, table.withdraw_congr hkey, table.held?_congr hkey, hheld]
  | deleteByRouter router =>
    have hcalls : (table.call (.deleteByRouter router)).2.map TableEvent.call =
        (table.routesOf router).map .delete :=
      List.map_map
    rw [hcalls, h.run_routesOf]
    rfl

/-- The events of a history lead to where the history led, and announce themselves. -/
theorem replay_run (h : table.WellFormed) (calls : List TableCall) :
    table.run ((table.run calls).2.map TableEvent.call) = table.run calls := by
  induction calls generalizing table with
  | nil => rfl
  | cons call calls ih =>
    rw [run_cons, List.map_append, run_append, h.replay_call, ih (h.call call)]

/-- Routes of new keys are stored one after another, each at the end of its bucket. -/
theorem bucket_run_create (h : table.WellFormed) {routes : List Route}
    (hnamed : ∀ route ∈ routes, route.service ≠ "") (hdistinct : DistinctKeys routes)
    (hnew : ∀ route ∈ routes, ∀ held ∈ table.bucket route.service, held.key ≠ route.key)
    (service : String) :
    (table.run (routes.map .create)).1.bucket service =
      table.bucket service ++ routes.filter (·.service = service) := by
  induction routes generalizing table with
  | nil => exact (List.append_nil _).symm
  | cons route routes ih =>
    obtain ⟨hroute, hrest⟩ := List.pairwise_cons.1 hdistinct
    have hfirst : route.service ≠ "" := hnamed route List.mem_cons_self
    have hplace := place_of_absent (hnew route List.mem_cons_self)
    have hbucket : ∀ other, (table.store route).bucket other =
        table.bucket other ++ [route].filter (·.service = other) := by
      intro other
      rw [bucket_store]
      by_cases heq : other = route.service
      · rw [if_pos heq, heq, hplace, List.filter_cons_of_pos (by simp), List.filter_nil]
      · rw [if_neg heq, List.filter_cons_of_neg (by simp [Ne.symm heq]), List.filter_nil,
          List.append_nil]
    have hlater : ∀ other ∈ routes, ∀ held ∈ (table.store route).bucket other.service,
        held.key ≠ other.key := by
      intro other hother held hheld
      rw [hbucket] at hheld
      rcases List.mem_append.1 hheld with hheld | hheld
      · exact hnew other (List.mem_cons_of_mem _ hother) held hheld
      · rw [List.mem_singleton.1 (List.mem_of_mem_filter hheld)]
        exact hroute other hother
    rw [List.map_cons, run_cons, h.call_create hfirst,
      ih (h.store hfirst) (fun other hother ↦ hnamed other (List.mem_cons_of_mem _ hother)) hrest
        hlater,
      hbucket, List.append_assoc, ← List.filter_append, List.singleton_append]

/-- The routes of a table, stored in their order, make up the table. -/
theorem run_routes (h : table.WellFormed) :
    (({} : RouteTable).run (table.routes.map .create)).1 = table := by
  apply (wellFormed_empty.run _).ext_bucket h
  intro service
  rw [wellFormed_empty.bucket_run_create (fun route ↦ h.service_ne_empty) h.distinctKeys_routes
    fun route _ held hheld ↦ by cases hheld]
  exact h.filter_service service

end WellFormed

/-- A query for a router lists its routes in the order of their withdrawal. -/
theorem query_eq_routesOf (table : RouteTable) (router : String) :
    table.query { router := some router } = table.routesOf router := by
  apply List.filter_congr
  intro route _
  simp [RouteQuery.selects, admits, eq_comm]

end RouteTable

namespace LiveTable

/-- Subscribers hear of withdrawals one by one as they hear of a history. -/
theorem run_map_delete (live : LiveTable) (routes : List Route) :
    live.run (routes.map .delete) = routes.foldl delete live :=
  List.foldl_map

/-- Whatever calls lead to a table, to invalidate a router gives back the routes that a query for it
lists, leaves the table and its feed as withdrawing these routes one by one leaves them, and
announces the same: that each of them was deleted, in the order of the list. -/
theorem deleteByRouter_eq_deletes (calls : List TableCall) (router : String) :
    let live := run {} calls
    let gone := live.table.query { router := some router }
    live.deleteByRouter router = (gone.foldl delete live, gone) ∧
    live.table.deleteByRouter router = live.table.run (gone.map .delete) ∧
    (live.table.deleteByRouter router).2 = gone.map (⟨.delete, ·⟩) := by
  intro live gone
  have hwell : live.table.WellFormed := Reachable.wellFormed ⟨calls, rfl⟩
  have hgone : gone = live.table.routesOf router := live.table.query_eq_routesOf router
  have hbulk : live.table.run (gone.map .delete) = live.table.deleteByRouter router := by
    rw [hgone]
    exact hwell.run_routesOf router
  refine ⟨Prod.ext ?_ hgone.symm, hbulk.symm, ?_⟩
  · calc (live.deleteByRouter router).1
      _ = live.publish (live.table.run (gone.map .delete)) := by
        rw [hbulk]
        rfl
      _ = live.run (gone.map .delete) := (run_eq_publish live _).symm
      _ = gone.foldl delete live := run_map_delete live gone
  · rw [hgone]
    rfl

end LiveTable

end ServiceMesh

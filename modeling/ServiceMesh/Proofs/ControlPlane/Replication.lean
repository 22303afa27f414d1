import ServiceMesh.Proofs.ControlPlane.Intake
import ServiceMesh.Proofs.Wire.RoundTrip

/-!
# Replication by adverts

A router tells other nodes of its own routes by the events of its table.  A node that takes these
events in, in their order and in batches of any size, ends with the same routes of the router, in
the same order, and leaves the routes of other routers alone.
-/

namespace ServiceMesh

namespace RouteTable.WellFormed

variable {table : RouteTable}

/-- Only named routes are announced. -/
theorem named_of_mem_call (h : table.WellFormed) {call : TableCall} {event : TableEvent}
    (hmem : event ∈ (table.call call).2) : event.route.service ≠ "" := by
  cases call with
  | create route =>
    by_cases hnamed : route.service = ""
    · rw [call_create_of_unnamed table hnamed] at hmem
      cases hmem
    · rw [h.call_create hnamed] at hmem
      have hroute : event.route = route := by
        cases hheld : table.held? route with
        | none =>
          rw [hheld, storeEvents] at hmem
          rw [List.mem_singleton.1 hmem]
        | some held =>
          simp only [hheld, storeEvents] at hmem
          split at hmem
          · cases hmem
          · rw [List.mem_singleton.1 hmem]
      rwa [hroute]
  | delete route =>
    rw [h.call_delete] at hmem
    cases hheld : table.held? route with
    | none =>
      rw [hheld] at hmem
      cases hmem
    | some held =>
      rw [hheld, withdrawEvents] at hmem
      rw [List.mem_singleton.1 hmem]
      exact h.service_ne_empty (h.held?_eq_some_iff.1 hheld).1
  | deleteByRouter router =>
    obtain ⟨route, hroute, rfl⟩ := List.mem_map.1 hmem
    exact h.service_ne_empty ((mem_routesOf table).1 hroute).1

/-- No event of a history is about a route without a service. -/
theorem named_of_mem_run (h : table.WellFormed) {calls : List TableCall} {event : TableEvent}
    (hmem : event ∈ (table.run calls).2) : event.route.service ≠ "" := by
  induction calls generalizing table with
  | nil => cases hmem
  | cons call calls ih =>
    rcases List.mem_append.1 hmem with hmem | hmem
    · exact h.named_of_mem_call hmem
    · exact ih (h.call call) hmem

/-- A table without routes is the empty one. -/
theorem eq_empty (h : table.WellFormed) (hroutes : table.routes = []) : table = {} := by
  apply h.ext_bucket wellFormed_empty
  intro service
  rw [← h.filter_service, hroutes]
  rfl

end RouteTable.WellFormed

namespace ControlPlane

/-- A router may advertise this, and no table refuses it. -/
def Advertisable (router : String) (event : TableEvent) : Prop :=
  event.route.router = router ∧ event.route.service ≠ ""

variable {plane : ControlPlane} {router : String}

theorem refusal_eq_none {event : TableEvent} (h : Advertisable router event) :
    event.refusal router = none := by
  obtain ⟨hrouter, hnamed⟩ := h
  rw [TableEvent.refusal, if_neg (not_not.2 hrouter), if_neg fun hunnamed ↦ hnamed hunnamed.2]

/-- Of a router's own named routes no event is refused. -/
theorem accepted_eq_events {events : List TableEvent}
    (h : ∀ event ∈ events, Advertisable router event) :
    Advert.accepted ⟨router, events⟩ = events := by
  simp only [Advert.accepted, List.filter_eq_self, decide_eq_true_eq]
  exact fun event hmem ↦ refusal_eq_none (h event hmem)

/-- Takes in what is decoded as an advert. -/
def takeIn (plane : ControlPlane) (input : Json.Bytes) : ControlPlane × Option MeshError :=
  match Advert.decode input with
  | .ok advert => plane.process advert
  | .error cause => (plane, some cause)

def takeInAll (plane : ControlPlane) : List Json.Bytes → ControlPlane × List (Option MeshError)
  | [] => (plane, [])
  | input :: inputs =>
    let (plane, failure) := plane.takeIn input
    let (plane, failures) := plane.takeInAll inputs
    (plane, failure :: failures)

/-- What was encoded is taken in as it was. -/
theorem takeInAll_encode (plane : ControlPlane) (adverts : List Advert) :
    plane.takeInAll (adverts.map Advert.encode) = plane.processAll adverts := by
  induction adverts generalizing plane with
  | nil => rfl
  | cons advert adverts ih =>
    simp only [List.map_cons, takeInAll, takeIn, Advert.decode_encode, ih, processAll]

/-- How the events are cut into batches makes no difference to the routes. -/
theorem takeInAll_eq (hwell : plane.routes.table.WellFormed) (hlocal : router ≠ plane.localId)
    (hregistered : plane.registry.contains router = true) {batches : List (List TableEvent)}
    (h : ∀ event ∈ batches.flatten, Advertisable router event) :
    (plane.takeInAll (batches.map fun batch ↦ Advert.encode ⟨router, batch⟩)).1.routes =
        plane.routes.run (batches.flatten.map TableEvent.call) ∧
      (plane.takeInAll (batches.map fun batch ↦ Advert.encode ⟨router, batch⟩)).2 =
        batches.map fun _ ↦ none := by
  let adverts := batches.map (Advert.mk router)
  have hinputs : (batches.map fun batch ↦ Advert.encode ⟨router, batch⟩) =
      adverts.map Advert.encode := by
    rw [List.map_map]
    rfl
  have hknown : ∀ advert ∈ adverts,
      advert.id ≠ plane.localId ∧ plane.registry.contains advert.id = true := by
    intro advert hmem
    obtain ⟨batch, -, rfl⟩ := List.mem_map.1 hmem
    exact ⟨hlocal, hregistered⟩
  have haccepted : ∀ batch ∈ batches, Advert.accepted ⟨router, batch⟩ = batch := fun batch hbatch ↦
    accepted_eq_events fun event hmem ↦ h event (List.mem_flatten.2 ⟨batch, hbatch, hmem⟩)
  have hevents : adverts.flatMap Advert.accepted = batches.flatten := by
    rw [List.flatMap_def, List.map_map]
    exact congrArg List.flatten ((List.map_congr_left haccepted).trans batches.map_id)
  have hrefusals : adverts.map Advert.refusal = batches.map fun _ ↦ none := by
    rw [List.map_map]
    exact List.map_congr_left fun batch hbatch ↦
      (Advert.refusal_eq_none_iff ⟨router, batch⟩).2 (haccepted batch hbatch)
  rw [hinputs, takeInAll_encode, ← hevents, ← hrefusals]
  exact processAll_eq hwell hknown

/-- Let a table without routes of a router have any history, and let its events about the router's
routes be advertised in batches to a node that knows the router and none of its routes.  Then all
adverts are decoded as they were and taken in without fault, and both have the same routes of the
router, in the same order, while those of other routers are as before. -/
theorem takeInAll_replicates {source : LiveTable} (hsource : source.Reachable) {router : String}
    (hstart : source.table.query { router := some router } = []) (calls : List TableCall)
    {batches : List (List TableEvent)}
    (hbatches : batches.flatten = (source.table.run calls).2.filter (·.route.router = router))
    {plane : ControlPlane} (hplane : plane.routes.Reachable) (hlocal : router ≠ plane.localId)
    (hregistered : plane.registry.contains router = true)
    (hnone : plane.routes.table.query { router := some router } = []) :
    let result := plane.takeInAll (batches.map fun batch ↦ Advert.encode ⟨router, batch⟩)
    (∀ batch ∈ batches, Advert.decode (Advert.encode ⟨router, batch⟩) = .ok ⟨router, batch⟩) ∧
    result.2 = batches.map (fun _ ↦ none) ∧
    result.1.routes.table.query { router := some router } =
      (source.run calls).table.query { router := some router } ∧
    result.1.routes.table.routes.filter (·.router ≠ router) =
      plane.routes.table.routes.filter (·.router ≠ router) := by
  intro result
  have hwell := hsource.wellFormed
  have hwell' := hplane.wellFormed
  have hadvertisable : ∀ event ∈ batches.flatten, Advertisable router event := by
    intro event hmem
    rw [hbatches, List.mem_filter, decide_eq_true_eq] at hmem
    exact ⟨hmem.2, hwell.named_of_mem_run hmem.1⟩
  obtain ⟨hroutes, hfailures⟩ := takeInAll_eq hwell' hlocal hregistered hadvertisable
  have htable : result.1.routes.table =
      (plane.routes.table.run (batches.flatten.map TableEvent.call)).1 := by
    rw [hroutes, LiveTable.table_run]
  -- The parts that hold the router's routes start the same and take the same calls.
  have hsame : source.table.restrict (fun key ↦ key.router = router) =
      plane.routes.table.restrict fun key ↦ key.router = router := by
    rw [RouteTable.query_router] at hstart hnone
    rw [(hwell.restrict _).eq_empty hstart, (hwell'.restrict _).eq_empty hnone]
  have howned : (batches.flatten.filter fun event ↦ event.route.key.router = router) =
      batches.flatten := by
    simp only [List.filter_eq_self, decide_eq_true_eq]
    exact fun event hmem ↦ (hadvertisable event hmem).1
  have hforeign : (batches.flatten.filter fun event ↦ event.route.key.router ≠ router) = [] := by
    simp only [List.filter_eq_nil_iff, decide_eq_true_eq, not_not]
    exact fun event hmem ↦ (hadvertisable event hmem).1
  refine ⟨fun batch _ ↦ Advert.decode_encode _, hfailures, ?_, ?_⟩
  · rw [RouteTable.query_router, RouteTable.query_router]
    congr 1
    calc
      (result.1.routes.table.restrict fun key ↦ key.router = router) =
          ((plane.routes.table.restrict fun key ↦ key.router = router).run
            (batches.flatten.map TableEvent.call)).1 := by
        rw [htable, hwell'.restrict_run, howned]
      _ = (source.run calls).table.restrict fun key ↦ key.router = router := by
        rw [LiveTable.table_run, hwell.restrict_history, hsame, hbatches]
        rfl
  · calc
      result.1.routes.table.routes.filter (·.router ≠ router) =
          (result.1.routes.table.restrict fun key ↦ key.router ≠ router).routes :=
        (RouteTable.routes_restrict _ fun key ↦ key.router ≠ router).symm
      _ = (plane.routes.table.restrict fun key ↦ key.router ≠ router).routes := by
        rw [htable, hwell'.restrict_run, hforeign]
        rfl
      _ = plane.routes.table.routes.filter (·.router ≠ router) :=
        RouteTable.routes_restrict _ fun key ↦ key.router ≠ router

/-- A change of a route and one more route, in three batches, the second of them empty. -/
def threeBatches : List (List TableEvent) :=
  [[⟨.create, { service := "s", router := "r" }⟩], [],
    [⟨.update, { service := "s", router := "r", metric := 5 }⟩,
      ⟨.create, { service := "s", address := "x", router := "r" }⟩]]

theorem takeInAll_replicates_threeBatches :
    let registered := ((ControlPlane.start "n" "").register "r" "" ∅ 1).1
    let held := LiveTable.run {} [.create { service := "s", router := "q" }]
    let plane := { registered with routes := held }
    (plane.takeInAll (threeBatches.map fun batch ↦
        Advert.encode ⟨"r", batch⟩)).1.routes.table.query { router := some "r" } =
      [{ service := "s", router := "r", metric := 5 },
        { service := "s", address := "x", router := "r" }] := by
  intro registered held plane
  have hregistered : plane.registry.contains "r" = true := by decide +kernel
  obtain ⟨_, _, hquery, _⟩ := takeInAll_replicates ⟨[], rfl⟩ (by decide +kernel)
    [.create { service := "s", router := "r" }, .create {},
      .create { service := "t", router := "q" },
      .create { service := "s", router := "r", metric := 5 }, .deleteByRouter "q",
      .create { service := "s", address := "x", router := "r" }]
    (show threeBatches.flatten = _ by decide +kernel) ⟨_, rfl⟩ (by decide +kernel) hregistered
    (show plane.routes.table.query { router := some "r" } = [] by decide +kernel)
  rw [hquery]
  decide +kernel

end ControlPlane

end ServiceMesh

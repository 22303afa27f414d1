import ServiceMesh.ControlPlane
import ServiceMesh.Proofs.Table.Flat
import ServiceMesh.Proofs.Table.Restrict

/-!
# What an advert does

An event of an advert is refused if its route belongs to another router, or if it stores a route
without a service.  The other events are applied in their order, whatever stands between them, and
the advert fails with the cause of the first refusal.  Routes of other routers are never touched.
-/

namespace ServiceMesh

/-- Why an event that a router advertises is refused, if it is. -/
def TableEvent.refusal (event : TableEvent) (router : String) : Option MeshError :=
  if event.route.router ≠ router then some (.foreignRoute event.route router)
  else if event.kind ≠ .delete ∧ event.route.service = "" then some .emptyService
  else none

namespace Advert

/-- The events that are not refused. -/
def accepted (advert : Advert) : List TableEvent :=
  advert.events.filter (·.refusal advert.id = none)

/-- The cause of the first refusal. -/
def refusal (advert : Advert) : Option MeshError := advert.events.findSome? (·.refusal advert.id)

end Advert

/-- Both kinds of refusal are told as invalid arguments. -/
theorem TableEvent.code_of_refusal {event : TableEvent} {router : String} {cause : MeshError}
    (h : event.refusal router = some cause) : cause.failure.code = .invalidArgument := by
  unfold refusal at h
  split at h
  · cases h
    rfl
  · split at h
    · cases h
      rfl
    · cases h

theorem TableEvent.router_of_refusal_eq_none {event : TableEvent} {router : String}
    (h : event.refusal router = none) : event.route.router = router := by
  by_contra hrouter
  rw [refusal, if_pos hrouter] at h
  cases h

theorem TableEvent.named_of_refusal_eq_none {event : TableEvent} {router : String}
    (h : event.refusal router = none) (hkind : event.kind ≠ .delete) :
    event.route.service ≠ "" := by
  intro hservice
  rw [refusal, if_neg (not_not.2 (event.router_of_refusal_eq_none h)),
    if_pos ⟨hkind, hservice⟩] at h
  cases h

namespace Advert

theorem code_of_refusal {advert : Advert} {cause : MeshError} (h : advert.refusal = some cause) :
    cause.failure.code = .invalidArgument := by
  obtain ⟨event, -, hcause⟩ := List.exists_of_findSome?_eq_some h
  exact event.code_of_refusal hcause

/-- What is applied are routes of the router itself. -/
theorem router_of_mem_accepted {advert : Advert} {event : TableEvent}
    (h : event ∈ advert.accepted) : event.route.router = advert.id := by
  simp only [accepted, List.mem_filter, decide_eq_true_eq] at h
  exact event.router_of_refusal_eq_none h.2

/-- An advert succeeds just if all of its events are applied. -/
theorem refusal_eq_none_iff (advert : Advert) :
    advert.refusal = none ↔ advert.accepted = advert.events := by
  simp [refusal, accepted]

end Advert

namespace ControlPlane

variable {plane : ControlPlane} {router : String}

/-- A refused event changes nothing. -/
theorem applyEvent_of_refusal {event : TableEvent} {cause : MeshError}
    (h : event.refusal router = some cause) :
    plane.applyEvent router event = (plane, some cause) := by
  obtain ⟨kind, route⟩ := event
  unfold TableEvent.refusal at h
  unfold applyEvent
  split at h
  · next hrouter =>
    cases h
    rw [if_pos hrouter]
  · next hrouter =>
    rw [if_neg hrouter]
    split at h
    · next hunnamed =>
      cases h
      obtain ⟨hkind, hservice⟩ := hunnamed
      have hcreate : plane.routes.create route = (plane.routes, some .emptyService) := by
        rw [LiveTable.create, RouteTable.create_of_unnamed hservice]
      cases kind with
      | create => simp only [hcreate]
      | update => simp only [hcreate]
      | delete => exact absurd rfl hkind
    · cases h

/-- Any other event is a call to the table: a creation, or a deletion. -/
theorem applyEvent_of_accepted (hwell : plane.routes.table.WellFormed) {event : TableEvent}
    (h : event.refusal router = none) :
    plane.applyEvent router event =
      ({ plane with routes := plane.routes.call event.call }, none) := by
  have hrouter := event.router_of_refusal_eq_none h
  have hnamed := event.named_of_refusal_eq_none h
  obtain ⟨kind, route⟩ := event
  rw [applyEvent, if_neg (not_not.2 hrouter)]
  have hcreate (hkind : kind ≠ .delete) :
      plane.routes.create route = (plane.routes.call (.create route), none) := by
    rw [LiveTable.create_eq hwell, if_neg (hnamed hkind)]
  cases kind with
  | create => simp only [hcreate (by decide), TableEvent.call]
  | update => simp only [hcreate (by decide), TableEvent.call]
  | delete => rfl

/-- Refused events do not stop those after them, and the first refusal is kept. -/
theorem advanceBy_eq (hwell : plane.routes.table.WellFormed) (pending : List TableEvent)
    (failure : Option MeshError) :
    plane.advanceBy ⟨router, pending, failure⟩ pending.length =
      ({ plane with
          routes := plane.routes.run
            ((pending.filter (·.refusal router = none)).map TableEvent.call) },
        ⟨router, [], failure.or (pending.findSome? (·.refusal router))⟩) := by
  induction pending generalizing plane failure with
  | nil => simp [advanceBy, LiveTable.run]
  | cons event pending ih =>
    rw [List.length_cons, advanceBy, advance]
    cases hrefusal : event.refusal router with
    | some cause =>
      simp only [applyEvent_of_refusal hrefusal, ih hwell]
      rw [List.filter_cons_of_neg (by simp [hrefusal])]
      simp [hrefusal]
    | none =>
      have hnext : { plane with routes := plane.routes.call event.call }.routes.table.WellFormed :=
        LiveTable.wellFormed_run hwell [event.call]
      simp only [applyEvent_of_accepted hwell hrefusal, ih hnext]
      rw [List.filter_cons_of_pos (by simp [hrefusal])]
      simp [hrefusal, LiveTable.run]

/-- The router is still registered when its advert ends, so nothing is withdrawn. -/
theorem process_eq (hwell : plane.routes.table.WellFormed) {advert : Advert}
    (hlocal : advert.id ≠ plane.localId)
    (hregistered : plane.registry.contains advert.id = true) :
    plane.process advert =
      (gaugeRoutes { plane with
        routes := plane.routes.run (advert.accepted.map TableEvent.call) }, advert.refusal) := by
  simp only [process, receive, if_neg hlocal, if_pos hregistered, complete, settle,
    advanceBy_eq hwell, Option.none_or]
  rfl

/-- Of a registered router, exactly the events that are not refused are applied, in their order: the
routes become those of a list that takes the same calls, and the routes of other routers stay as
they are, in their order.  The advert fails with the first refusal, an invalid argument, if there is
one.  An advert of the node itself, or of a router that is not registered, changes nothing, and of
these the second fails. -/
theorem process_applies_accepted {plane : ControlPlane} (hplane : plane.routes.Reachable)
    (advert : Advert) :
    let result := plane.process advert
    let before := plane.routes.table
    let after := result.1.routes.table
    let calls := advert.accepted.map TableEvent.call
    let flat := FlatTable.run ⟨before.query {}⟩ calls
    (advert.id ≠ plane.localId → plane.registry.contains advert.id = true →
      result.1 = gaugeRoutes { plane with routes := plane.routes.run calls } ∧
      after.query {} = flat.routes.mergeSort Route.serviceLE ∧
      (∀ service,
        after.query { service := some service } = flat.routes.filter (·.service = service)) ∧
      (after.query {}).filter (·.router ≠ advert.id) =
        (before.query {}).filter (·.router ≠ advert.id) ∧
      result.2 = advert.refusal ∧
      (result.2 = none ↔ advert.accepted = advert.events) ∧
      ∀ cause, result.2 = some cause → cause.failure.code = .invalidArgument) ∧
    (advert.id = plane.localId → result = (plane, none)) ∧
    (advert.id ≠ plane.localId → plane.registry.contains advert.id = false →
      ∃ cause, result = (plane, some cause) ∧ cause.failure.code = .invalidArgument) := by
  intro result before after calls flat
  have hwell : before.WellFormed := hplane.wellFormed
  refine ⟨fun hlocal hregistered ↦ ?_, fun hlocal ↦ ?_, fun hlocal hunregistered ↦ ?_⟩
  · have hresult : result = _ := process_eq hwell hlocal hregistered
    have hafter : after = (before.run calls).1 := by
      rw [show after = result.1.routes.table from rfl, hresult]
      exact LiveTable.table_run plane.routes calls
    have hshows : after.Shows flat := by
      rw [hafter, show flat = FlatTable.run ⟨before.routes⟩ calls by rw [← before.query_all]]
      exact hwell.shows_routes.run calls
    rw [hresult]
    refine ⟨rfl, ?_, hshows.query_service, ?_, rfl, advert.refusal_eq_none_iff,
      fun cause ↦ Advert.code_of_refusal⟩
    · rw [RouteTable.query_all, hshows.routes_eq]
    · rw [RouteTable.query_all, RouteTable.query_all, hafter]
      exact hwell.filter_router_ne_run fun event ↦ Advert.router_of_mem_accepted
  · simp only [result, process, receive, if_pos hlocal]
  · refine ⟨.unregisteredRouter advert.id, ?_, rfl⟩
    simp only [result, process, receive, if_neg hlocal, hunregistered, Bool.false_eq_true,
      if_false]

/-- Two routes are stored between events that are refused: one of another router, and one without a
service. -/
def mixedAdvert : Advert where
  id := "r"
  events := [⟨.create, { service := "s", router := "q", metric := 7 }⟩,
    ⟨.create, { service := "s", router := "r" }⟩,
    ⟨.update, { router := "r" }⟩,
    ⟨.update, { service := "s", router := "r", metric := 5 }⟩,
    ⟨.delete, { service := "t", router := "r" }⟩]

theorem process_applies_accepted_mixed :
    let registered := ((ControlPlane.start "n" "").register "r" "" ∅ 1).1
    let held := LiveTable.run {} [.create { service := "s", router := "q" },
      .create { service := "t", router := "r" }, .create { service := "t", router := "q" }]
    let plane := { registered with routes := held }
    (plane.process mixedAdvert).1.routes.table.query { service := some "s" } =
        [{ service := "s", router := "q" }, { service := "s", router := "r", metric := 5 }] ∧
      (plane.process mixedAdvert).2 =
        some (.foreignRoute { service := "s", router := "q", metric := 7 } "r") := by
  intro registered held plane
  have hplane : plane.routes.Reachable := ⟨_, rfl⟩
  obtain ⟨hregistered, _⟩ := process_applies_accepted hplane mixedAdvert
  obtain ⟨_, _, hquery, _, hcause, _⟩ := hregistered (by decide +kernel) (by decide +kernel)
  exact ⟨(hquery "s").trans (by decide +kernel), hcause.trans (by decide +kernel)⟩

def processAll (plane : ControlPlane) : List Advert → ControlPlane × List (Option MeshError)
  | [] => (plane, [])
  | advert :: adverts =>
    let (plane, failure) := plane.process advert
    let (plane, failures) := plane.processAll adverts
    (plane, failure :: failures)

/-- What becomes of an advert does not depend on those before it. -/
theorem processAll_eq (hwell : plane.routes.table.WellFormed) {adverts : List Advert}
    (hknown : ∀ advert ∈ adverts,
      advert.id ≠ plane.localId ∧ plane.registry.contains advert.id = true) :
    (plane.processAll adverts).1.routes =
        plane.routes.run ((adverts.flatMap Advert.accepted).map TableEvent.call) ∧
      (plane.processAll adverts).2 = adverts.map Advert.refusal := by
  induction adverts generalizing plane with
  | nil => exact ⟨rfl, rfl⟩
  | cons advert adverts ih =>
    obtain ⟨hlocal, hregistered⟩ := hknown advert List.mem_cons_self
    let next := gaugeRoutes { plane with
      routes := plane.routes.run (advert.accepted.map TableEvent.call) }
    have hfirst : plane.process advert = (next, advert.refusal) :=
      process_eq hwell hlocal hregistered
    have hnext : next.routes.table.WellFormed := LiveTable.wellFormed_run hwell _
    obtain ⟨hroutes, hfailures⟩ := ih hnext fun other hmem ↦
      hknown other (List.mem_cons_of_mem _ hmem)
    simp only [processAll, hfirst, hroutes, hfailures, List.flatMap_cons, List.map_append,
      List.map_cons, LiveTable.run_append]
    exact ⟨rfl, trivial⟩

theorem wellFormed_processAll (hwell : plane.routes.table.WellFormed) {adverts : List Advert}
    (hknown : ∀ advert ∈ adverts,
      advert.id ≠ plane.localId ∧ plane.registry.contains advert.id = true) :
    (plane.processAll adverts).1.routes.table.WellFormed := by
  rw [(processAll_eq hwell hknown).1]
  exact LiveTable.wellFormed_run hwell _

end ControlPlane

end ServiceMesh

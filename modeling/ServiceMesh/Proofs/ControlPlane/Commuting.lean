import ServiceMesh.Proofs.ControlPlane.Intake
import ServiceMesh.Proofs.Table.Query

/-!
# Adverts of different routers

The routes of a router after any adverts are those that its own adverts lead to, and what becomes of
an advert depends on nothing but the advert.  So the order in which the adverts of different routers
arrive shows in the places of the routes in their buckets, and in no answer by metric.
-/

namespace ServiceMesh

/-- Of all events that are applied, those about a router's routes are of its own adverts. -/
theorem Advert.filter_flatMap_accepted (adverts : List Advert) (router : String) :
    (adverts.flatMap accepted).filter (fun event ↦ event.route.key.router = router) =
      (adverts.filter (·.id = router)).flatMap accepted := by
  induction adverts with
  | nil => rfl
  | cons advert adverts ih =>
    rw [List.flatMap_cons, List.filter_append, ih]
    by_cases hrouter : advert.id = router
    · have hall : advert.accepted.filter (fun event ↦ event.route.key.router = router) =
          advert.accepted := by
        simp only [List.filter_eq_self, decide_eq_true_eq]
        exact fun event hmem ↦ (router_of_mem_accepted hmem).trans hrouter
      rw [hall, List.filter_cons_of_pos (by simpa using hrouter), List.flatMap_cons]
    · have hnone : advert.accepted.filter (fun event ↦ event.route.key.router = router) = [] := by
        simp only [List.filter_eq_nil_iff, decide_eq_true_eq]
        exact fun event hmem heq ↦ hrouter ((router_of_mem_accepted hmem).symm.trans heq)
      rw [hnone, List.filter_cons_of_neg (by simpa using hrouter), List.nil_append]

namespace ControlPlane

variable {plane : ControlPlane}

/-- A router's routes are those to which its own adverts lead. -/
theorem restrict_processAll (hwell : plane.routes.table.WellFormed) {adverts : List Advert}
    (hknown : ∀ advert ∈ adverts,
      advert.id ≠ plane.localId ∧ plane.registry.contains advert.id = true) (router : String) :
    (plane.processAll adverts).1.routes.table.restrict (fun key ↦ key.router = router) =
      ((plane.routes.table.restrict fun key ↦ key.router = router).run
        (((adverts.filter (·.id = router)).flatMap Advert.accepted).map TableEvent.call)).1 := by
  rw [(processAll_eq hwell hknown).1, LiveTable.table_run, hwell.restrict_run,
    Advert.filter_flatMap_accepted]

/-- Let adverts of registered routers arrive in two orders that agree on each router's own adverts.
Then each advert ends the same way in both, and the tables store the same routes: they tell the same
services and the same size, and every query by metric and every lookup the same metrics and
addresses. -/
theorem processAll_reorder {plane : ControlPlane} (hplane : plane.routes.Reachable)
    {adverts adverts' : List Advert}
    (hknown : ∀ advert ∈ adverts,
      advert.id ≠ plane.localId ∧ plane.registry.contains advert.id = true)
    (horder : ∀ router,
      adverts'.filter (·.id = router) = adverts.filter (·.id = router)) :
    let result := plane.processAll adverts
    let result' := plane.processAll adverts'
    let table := result.1.routes.table
    let table' := result'.1.routes.table
    result.2 = adverts.map Advert.refusal ∧ result'.2 = adverts'.map Advert.refusal ∧
    (table.query {}).Perm (table'.query {}) ∧
    table.services = table'.services ∧
    table.size = table'.size ∧
    (∀ query : RouteQuery,
      (table.query { query with order := .metric }).map Route.rank =
        (table'.query { query with order := .metric }).map Route.rank) ∧
    ∀ service, (table.lookup service).map Route.rank = (table'.lookup service).map Route.rank := by
  intro result result' table table'
  have hbefore := hplane.wellFormed
  have hknown' : ∀ advert ∈ adverts',
      advert.id ≠ plane.localId ∧ plane.registry.contains advert.id = true := by
    intro advert hmem
    have hown : advert ∈ adverts'.filter (·.id = advert.id) := by simpa using hmem
    rw [horder] at hown
    exact hknown advert (List.mem_of_mem_filter hown)
  have hwell : table.WellFormed := wellFormed_processAll hbefore hknown
  have hwell' : table'.WellFormed := wellFormed_processAll hbefore hknown'
  -- The tables agree on the part of each router, and each route is in the part of its router.
  have hpart (router : String) : table.restrict (fun key ↦ key.router = router) =
      table'.restrict fun key ↦ key.router = router := by
    rw [restrict_processAll hbefore hknown, restrict_processAll hbefore hknown', horder]
  have hmem (route : Route) : route ∈ table.routes ↔ route ∈ table'.routes := by
    have hsame := congrArg (route ∈ RouteTable.routes ·) (hpart route.router)
    simpa [RouteTable.routes_restrict, Route.key] using hsame
  have hperm := hwell.routes_perm hwell' hmem
  refine ⟨(processAll_eq hbefore hknown).2, (processAll_eq hbefore hknown').2, ?_,
    hwell.services_eq_of_perm hwell' hperm, RouteTable.size_eq_of_perm hperm,
    hwell.map_rank_query_of_perm hwell' hperm, hwell.map_rank_lookup_of_perm hwell' hperm⟩
  rwa [RouteTable.query_all, RouteTable.query_all]

def advertOfOne : Advert :=
  ⟨"q", [⟨.create, { service := "s", router := "q", link := "a" }⟩]⟩

/-- The adverts of another, which end with a route of the same service, address and metric. -/
def advertsOfOther : List Advert :=
  [⟨"r", [⟨.create, { router := "r" }⟩, ⟨.create, { service := "s", router := "r", metric := 2 }⟩]⟩,
    ⟨"r", [⟨.update, { service := "s", router := "r", link := "b" }⟩]⟩]

/-- The link of a looked up route may depend on the order, its metric and address may not. -/
theorem processAll_reorder_twoRouters :
    let first := ((ControlPlane.start "n" "").register "q" "" ∅ 1).1
    let plane := (first.register "r" "" ∅ 1).1
    let result := plane.processAll (advertOfOne :: advertsOfOther)
    let result' := plane.processAll (advertsOfOther ++ [advertOfOne])
    result.2 = [none, some .emptyService, none] ∧
      result'.2 = [some .emptyService, none, none] ∧
      result.1.routes.table.lookup "s" ≠ result'.1.routes.table.lookup "s" ∧
      (result.1.routes.table.lookup "s").map Route.rank =
        (result'.1.routes.table.lookup "s").map Route.rank := by
  intro first plane
  have hplane : plane.routes.Reachable := ⟨[], rfl⟩
  have hknown : ∀ advert ∈ advertOfOne :: advertsOfOther,
      advert.id ≠ plane.localId ∧ plane.registry.contains advert.id = true := by decide +kernel
  have horder (router : String) : (advertsOfOther ++ [advertOfOne]).filter (·.id = router) =
      (advertOfOne :: advertsOfOther).filter (·.id = router) := by
    by_cases hone : "q" = router
    · subst hone
      decide +kernel
    · simp [advertOfOne, hone]
  obtain ⟨hfailures, hfailures', _, _, _, _, hlookup⟩ :=
    processAll_reorder hplane hknown horder
  exact ⟨hfailures.trans (by decide +kernel), hfailures'.trans (by decide +kernel),
    by decide +kernel, hlookup "s"⟩

end ControlPlane

end ServiceMesh

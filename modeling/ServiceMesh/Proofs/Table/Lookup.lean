import ServiceMesh.Proofs.Table.Flat

/-!
# What a lookup finds

A lookup searches a bucket for the least route and keeps the first of several; a query by metric
sorts the bucket and leaves equals in their order.  Both come to the same route.  A service without
routes has no bucket, so the fallback routes are asked just when the service has none of its own.
-/

namespace ServiceMesh

namespace Route

def Undercuts (route other : Route) : Prop :=
  route.metric < other.metric ∨
    route.metric = other.metric ∧ Json.bytes route.address < Json.bytes other.address

/-- The first of the least routes of a list: it undercuts every route before it, and is undercut by
none after it. -/
def FirstLeast (routes : List Route) (best : Route) : Prop :=
  ∃ before after, routes = before ++ best :: after ∧
    (∀ other ∈ before, best.Undercuts other) ∧ ∀ other ∈ after, ¬ other.Undercuts best

theorem not_undercuts_iff {route other : Route} :
    ¬ other.Undercuts route ↔ route.ranksBefore other = true := by
  rw [ranksBefore_iff, Prod.lex_def, Undercuts, rank, rank, Json.bytes_lt_bytes_iff]
  by_cases hmetric : route.metric = other.metric
  · simp only [hmetric, Int64.lt_irrefl, false_or, true_and, String.not_lt]
  · have hlt : ¬ other.metric < route.metric ↔ route.metric < other.metric :=
      ⟨(Int64.lt_or_lt_of_ne hmetric).resolve_right, Int64.lt_asymm⟩
    simp only [hmetric, Ne.symm hmetric, false_and, or_false, hlt]

theorem FirstLeast.mem {routes : List Route} {best : Route} (h : FirstLeast routes best) :
    best ∈ routes := by
  obtain ⟨before, after, rfl, -⟩ := h
  exact List.mem_append_right before List.mem_cons_self

/-- No route of the list ranks before the first of the least ones. -/
theorem FirstLeast.ranksBefore {routes : List Route} {best other : Route}
    (h : FirstLeast routes best) (hmem : other ∈ routes) : best.ranksBefore other = true := by
  obtain ⟨before, after, rfl, hbefore, hafter⟩ := h
  rcases List.mem_append.1 hmem with hmem | hmem
  · have htotal := ranksBefore_comparesBy.total best other
    rw [Bool.or_eq_true] at htotal
    exact htotal.resolve_right fun hle ↦ not_undercuts_iff.2 hle (hbefore other hmem)
  · rcases List.mem_cons.1 hmem with rfl | hmem
    · exact ranksBefore_comparesBy.refl other
    · exact not_undercuts_iff.1 (hafter other hmem)

theorem cheapest_eq_none_iff {routes : List Route} : cheapest routes = none ↔ routes = [] := by
  rw [cheapest_eq_head?, List.head?_eq_none_iff, ← List.length_eq_zero_iff, List.length_mergeSort,
    List.length_eq_zero_iff]

theorem firstLeast_cons_self {route : Route} {rest : List Route}
    (h : ∀ other ∈ rest, route.ranksBefore other = true) : FirstLeast (route :: rest) route :=
  ⟨[], rest, rfl, fun _ hmem ↦ absurd hmem List.not_mem_nil,
    fun other hmem ↦ not_undercuts_iff.2 (h other hmem)⟩

/-- A route that is undercut by the best of the others changes nothing. -/
theorem FirstLeast.cons {route best : Route} {rest : List Route} (h : FirstLeast rest best)
    (hundercuts : best.Undercuts route) : FirstLeast (route :: rest) best := by
  obtain ⟨before, after, rfl, hbefore, hafter⟩ := h
  refine ⟨route :: before, after, rfl, fun other hmem ↦ ?_, hafter⟩
  rcases List.mem_cons.1 hmem with rfl | hmem
  · exact hundercuts
  · exact hbefore other hmem

/-- The search finds the first of the least routes. -/
theorem firstLeast_of_cheapest {routes : List Route} {best : Route}
    (h : cheapest routes = some best) : FirstLeast routes best := by
  induction routes generalizing best with
  | nil => cases h
  | cons route rest ih =>
    rw [cheapest] at h
    cases hrest : cheapest rest with
    | none =>
      rw [hrest] at h
      obtain rfl := Option.some_inj.1 h
      rw [cheapest_eq_none_iff.1 hrest]
      exact firstLeast_cons_self fun _ hmem ↦ absurd hmem List.not_mem_nil
    | some held =>
      have hheld : FirstLeast rest held := ih hrest
      simp only [hrest] at h
      by_cases hle : route.ranksBefore held = true
      · rw [if_pos hle] at h
        obtain rfl := Option.some_inj.1 h
        exact firstLeast_cons_self fun other hmem ↦
          ranksBefore_comparesBy.trans route held other hle (hheld.ranksBefore hmem)
      · rw [if_neg hle] at h
        obtain rfl := Option.some_inj.1 h
        exact hheld.cons (not_not.1 (mt not_undercuts_iff.1 hle))

end Route

namespace RouteTable.WellFormed

variable {table : RouteTable} {service : String}

/-- A query by metric lists first what the search of the bucket finds. -/
theorem head?_query_service (h : table.WellFormed) (service : String) :
    (table.query { service := some service, order := .metric }).head? =
      Route.cheapest (table.bucket service) := by
  rw [h.query_service, Route.cheapest_eq_head?]
  rfl

/-- As empty buckets are not kept, a bucket tells whether a service has routes. -/
theorem bucket_eq_nil_iff (h : table.WellFormed) :
    table.bucket service = [] ↔ ¬ ∃ route ∈ table.routes, route.service = service := by
  rw [← h.filter_service, List.filter_eq_nil_iff]
  simp only [decide_eq_true_eq, not_exists, not_and]

/-- A service with routes of its own is never served by a fallback route. -/
theorem lookup_of_stored (h : table.WellFormed)
    (hstored : ∃ route ∈ table.routes, route.service = service) :
    (table.lookup service).isSome = true ∧
      table.lookup service = Route.cheapest (table.bucket service) := by
  have hbucket : table.bucket service ≠ [] := mt h.bucket_eq_nil_iff.1 (not_not.2 hstored)
  obtain ⟨best, hbest⟩ := Option.ne_none_iff_exists'.1 (mt Route.cheapest_eq_none_iff.1 hbucket)
  rw [lookup, hbest]
  exact ⟨rfl, rfl⟩

theorem lookup_of_absent (h : table.WellFormed)
    (habsent : ¬ ∃ route ∈ table.routes, route.service = service) :
    table.lookup service = Route.cheapest (table.bucket wildcardService) := by
  rw [lookup, h.bucket_eq_nil_iff.2 habsent]
  rfl

/-- Nothing is found only where no query would list anything. -/
theorem lookup_eq_none_iff (h : table.WellFormed) :
    table.lookup service = none ↔
      table.query { service := some service, order := .metric } = [] ∧
        table.query { service := some wildcardService, order := .metric } = [] := by
  rw [h.lookup_eq, Option.or_eq_none_iff, List.head?_eq_none_iff, List.head?_eq_none_iff]

end RouteTable.WellFormed

namespace LiveTable

/-- Whatever calls lead to a table, a lookup answers with the first route of a query by metric: the
query for the service if there is a route of it, however cheap the fallback routes are, and else the
query for these.  Of the routes of that service, in the order of their insertion, it is the first of
the least, and there is none just when both queries are empty. -/
theorem lookup_eq_first_ranked (calls : List TableCall) (service : String) :
    let table := (run {} calls).table
    let ranked (name : String) := table.query { service := some name, order := .metric }
    let inserted (name : String) :=
      (FlatTable.run {} calls).routes.filter (·.service = name)
    ((∃ route ∈ table.query {}, route.service = service) →
      table.lookup service = (ranked service).head? ∧
      ∃ best, table.lookup service = some best ∧ best.service = service ∧
        Route.FirstLeast (inserted service) best) ∧
    ((¬ ∃ route ∈ table.query {}, route.service = service) →
      table.lookup service = (ranked wildcardService).head? ∧
      ∀ best, table.lookup service = some best → best.service = wildcardService ∧
        Route.FirstLeast (inserted wildcardService) best) ∧
    (table.lookup service = none ↔ ranked service = [] ∧ ranked wildcardService = []) := by
  intro table ranked inserted
  have hshows : (run {} calls).table.Shows (FlatTable.run {} calls) := by
    rw [table_run]
    exact RouteTable.shows_empty.run calls
  have hwell : table.WellFormed := hshows.wellFormed
  have hinserted (name : String) : table.bucket name = inserted name := hshows.bucket_eq name
  have hleast {name : String} {best : Route}
      (h : Route.cheapest (table.bucket name) = some best) :
      best.service = name ∧ Route.FirstLeast (inserted name) best := by
    have hbest := Route.firstLeast_of_cheapest h
    exact ⟨hwell.service_eq name best hbest.mem, hinserted name ▸ hbest⟩
  rw [RouteTable.query_all]
  refine ⟨fun hstored ↦ ?_, fun habsent ↦ ?_, hwell.lookup_eq_none_iff⟩
  · obtain ⟨hsome, hlookup⟩ := hwell.lookup_of_stored hstored
    obtain ⟨best, hbest⟩ := Option.isSome_iff_exists.1 hsome
    exact ⟨hlookup.trans (hwell.head?_query_service service).symm, best, hbest,
      hleast (hlookup ▸ hbest)⟩
  · have hlookup := hwell.lookup_of_absent habsent
    exact ⟨hlookup.trans (hwell.head?_query_service wildcardService).symm,
      fun best hbest ↦ hleast (hlookup ▸ hbest)⟩

/-- Of two routes of the same metric and address the one inserted first is found, though a fallback
route is cheaper; that one serves only what has no route. -/
theorem lookup_eq_first_ranked_cheaperFallback :
    let calls : List TableCall :=
      [.create { service := "s", address := "b", metric := 5 },
        .create { service := "s", address := "a", gateway := "y", metric := 5 },
        .create { service := "s", address := "a", gateway := "x", metric := 5 },
        .create { service := "*", address := "c", metric := 1 }]
    let table := (run {} calls).table
    table.lookup "s" = some { service := "s", address := "a", gateway := "y", metric := 5 } ∧
    (table.query { service := some "s", order := .metric }).head? =
      some { service := "s", address := "a", gateway := "y", metric := 5 } ∧
    (table.query { service := some "*", order := .metric }).head? =
      some { service := "*", address := "c", metric := 1 } := by
  intro calls table
  have hstored : ∃ route ∈ table.query {}, route.service = "s" := by decide +kernel
  have habsent : ¬ ∃ route ∈ table.query {}, route.service = "t" := by decide +kernel
  have hown : table.lookup "s" =
      some { service := "s", address := "a", gateway := "y", metric := 5 } := by
    decide +kernel
  have hfallback : table.lookup "t" = some { service := "*", address := "c", metric := 1 } := by
    decide +kernel
  obtain ⟨hfirst, -⟩ := (lookup_eq_first_ranked calls "s").1 hstored
  obtain ⟨hfirst', -⟩ := (lookup_eq_first_ranked calls "t").2.1 habsent
  exact ⟨hown, hfirst.symm.trans hown, hfirst'.symm.trans hfallback⟩

end LiveTable

end ServiceMesh

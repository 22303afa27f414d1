import ServiceMesh.Proofs.Table.Flat

/-!
# Queries as filters

A query wants a value in each field that it constrains, and whether it looks at one bucket or at all
of them, it gives what the filter for these values leaves of the whole table.  The order by metric
rearranges this list and no more, so a query that wants more gives a part of the same list, in the
same order.
-/

namespace ServiceMesh

namespace RouteQuery

/-- In every field that the query constrains, the route has the wanted value. -/
def Fits (query : RouteQuery) (route : Route) : Prop :=
  (∀ service ∈ query.service, route.service = service) ∧
  (∀ address ∈ query.address, route.address = address) ∧
  (∀ gateway ∈ query.gateway, route.gateway = gateway) ∧
  (∀ router ∈ query.router, route.router = router) ∧
  ∀ network ∈ query.network, route.network = network

instance (query : RouteQuery) : DecidablePred query.Fits := fun _ ↦
  inferInstanceAs (Decidable (_ ∧ _))

def narrow (query more : RouteQuery) : RouteQuery where
  service := query.service.or more.service
  address := query.address.or more.address
  gateway := query.gateway.or more.gateway
  router := query.router.or more.router
  network := query.network.or more.network
  order := query.order

theorem admits_iff {wanted : Option String} {held : String} :
    admits wanted held = true ↔ ∀ value ∈ wanted, held = value := by
  cases wanted with
  | none => simp [admits]
  | some value => simp [admits, eq_comm]

/-- A table selects what fits, field by field. -/
theorem selects_eq (query : RouteQuery) : query.selects = fun route ↦ decide (query.Fits route) := by
  funext route
  rw [Bool.eq_iff_iff, decide_eq_true_iff]
  simp only [selects, Bool.and_eq_true, admits_iff, Fits, and_assoc]

theorem Fits.of_narrow {query more : RouteQuery} {route : Route}
    (h : (query.narrow more).Fits route) : query.Fits route := by
  have hfirst {wanted other : Option String} {held : String}
      (h : ∀ value ∈ wanted.or other, held = value) : ∀ value ∈ wanted, held = value := by
    rintro value rfl
    exact h value rfl
  obtain ⟨hservice, haddress, hgateway, hrouter, hnetwork⟩ := h
  exact ⟨hfirst hservice, hfirst haddress, hfirst hgateway, hfirst hrouter, hfirst hnetwork⟩

end RouteQuery

/-- The routes of a list by ascending metric, and by ascending address where metrics are the same,
byte by byte.  Routes that have both in common follow each other as in the list. -/
structure Route.RankedFrom (routes ranked : List Route) : Prop where
  perm : ranked.Perm routes
  ascending : ranked.Pairwise fun one other ↦ one.metric < other.metric ∨
    one.metric = other.metric ∧ Json.bytes one.address ≤ Json.bytes other.address
  stable : ∀ metric address,
    ranked.filter (fun route ↦ route.metric = metric ∧ route.address = address) =
      routes.filter (fun route ↦ route.metric = metric ∧ route.address = address)

/-- A stable sort ranks the routes. -/
theorem Route.rankedFrom_mergeSort (routes : List Route) :
    RankedFrom routes (routes.mergeSort ranksBefore) where
  perm := List.mergeSort_perm routes ranksBefore
  ascending := by
    refine (ranksBefore_comparesBy.pairwise_mergeSort routes).imp fun {one other} h ↦ ?_
    rwa [ranksBefore_iff, Prod.lex_def, rank, rank, ← Json.bytes_le_bytes_iff] at h
  stable metric address := by
    have hrank := ranksBefore_comparesBy.filter_key_mergeSort routes (metric, address)
    simpa only [rank, Prod.mk.injEq] using hrank

namespace RouteQuery

/-- What is filtered out of routes may be filtered out before or after they are arranged. -/
theorem filter_arrange (query : RouteQuery) (routes : List Route) (chosen : Route → Bool) :
    (query.arrange routes).filter chosen = query.arrange (routes.filter chosen) := by
  unfold arrange
  cases query.order with
  | insertion => rfl
  | metric => exact Route.ranksBefore_comparesBy.filter_mergeSort routes chosen

end RouteQuery

/-- A narrower query filters the answer of the wider one. -/
theorem RouteTable.WellFormed.query_narrow {table : RouteTable} (h : table.WellFormed)
    (query more : RouteQuery) :
    table.query (query.narrow more) =
      (table.query query).filter ((query.narrow more).Fits ·) := by
  have hboth : (table.routes.filter (query.Fits ·)).filter ((query.narrow more).Fits ·) =
      table.routes.filter ((query.narrow more).Fits ·) := by
    rw [List.filter_filter]
    refine List.filter_congr fun route _ ↦ ?_
    by_cases hfits : (query.narrow more).Fits route
    · simp [hfits, hfits.of_narrow]
    · simp [hfits]
  calc
    table.query (query.narrow more) =
        query.arrange (table.routes.filter ((query.narrow more).Fits ·)) := by
      rw [h.query_eq, RouteQuery.selects_eq]
      rfl
    _ = (query.arrange (table.routes.filter (query.Fits ·))).filter
          ((query.narrow more).Fits ·) := by
      rw [RouteQuery.filter_arrange, hboth]
    _ = (table.query query).filter ((query.narrow more).Fits ·) := by
      rw [h.query_eq, RouteQuery.selects_eq]

/-- Whatever calls lead to a table, and whatever fields a query constrains, the table answers with
the routes that fit the query, as the query for all routes lists them, or ranked by metric and
address.  Constraining more fields only filters the answer, in either order. -/
theorem LiveTable.query_filters_then_ranks (calls : List TableCall) (query : RouteQuery) :
    let table := (run {} calls).table
    let fitting := (table.query {}).filter (query.Fits ·)
    table.query { query with order := .insertion } = fitting ∧
    Route.RankedFrom fitting (table.query { query with order := .metric }) ∧
    ∀ more, table.query (query.narrow more) =
      (table.query query).filter ((query.narrow more).Fits ·) := by
  intro table fitting
  have hwell : table.WellFormed := Reachable.wellFormed ⟨calls, rfl⟩
  have hfitting (order : RouteOrder) : table.query { query with order } =
      RouteQuery.arrange { query with order } fitting := by
    rw [hwell.query_eq, RouteQuery.selects_eq, ← table.query_all]
    rfl
  refine ⟨hfitting .insertion, ?_, hwell.query_narrow query⟩
  rw [hfitting .metric]
  exact Route.rankedFrom_mergeSort fitting

end ServiceMesh

import Mathlib.Data.List.Sort
import ServiceMesh.Proofs.StableSort
import ServiceMesh.Proofs.Table.Invariant

/-!
# Answers of a table

What a table answers is settled by the list of its routes.  A query filters that list and then
arranges what is left, and a lookup is the first answer of a query by metric.  Where a route stands
in its bucket shows in its place among routes of the same metric and address only; so tables that
store the same routes tell the same services and the same metrics and addresses.
-/

namespace ServiceMesh

namespace Route

def rank (route : Route) : Int64 × String := (route.metric, route.address)

theorem ranksBefore_iff {route other : Route} :
    route.ranksBefore other = true ↔ Prod.Lex (· < ·) (· ≤ ·) route.rank other.rank := by
  simp only [ranksBefore, Prod.lex_def, rank, Bool.or_eq_true, Bool.and_eq_true, decide_eq_true_eq]

/-- Ranks that come before each other are the same. -/
theorem rank_antisymm {rank rank' : Int64 × String} (h : Prod.Lex (· < ·) (· ≤ ·) rank rank')
    (h' : Prod.Lex (· < ·) (· ≤ ·) rank' rank) : rank = rank' := by
  rw [Prod.lex_def] at h h'
  rcases h with hlt | ⟨heq, hle⟩
  · rcases h' with hlt' | ⟨heq', _⟩
    · exact absurd hlt' (Int64.lt_asymm hlt)
    · exact absurd (heq' ▸ hlt) Int64.lt_irrefl
  · rcases h' with hlt' | ⟨_, hle'⟩
    · exact absurd (heq ▸ hlt') Int64.lt_irrefl
    · exact Prod.ext heq (String.le_antisymm hle hle')

theorem ranksBefore_comparesBy : ComparesBy ranksBefore rank where
  trans route other third h h' := by
    rw [ranksBefore_iff, Prod.lex_def] at h h' ⊢
    rcases h with hlt | ⟨heq, hle⟩
    · rcases h' with hlt' | ⟨heq', _⟩
      · exact .inl (Int64.lt_trans hlt hlt')
      · exact .inl (heq' ▸ hlt)
    · rcases h' with hlt' | ⟨heq', hle'⟩
      · exact .inl (heq ▸ hlt')
      · exact .inr ⟨heq.trans heq', String.le_trans hle hle'⟩
  total route other := by
    rw [Bool.or_eq_true, ranksBefore_iff, ranksBefore_iff, Prod.lex_def, Prod.lex_def]
    by_cases heq : route.metric = other.metric
    · rcases String.le_total route.address other.address with hle | hle
      · exact .inl (.inr ⟨heq, hle⟩)
      · exact .inr (.inr ⟨heq.symm, hle⟩)
    · rcases Int64.lt_or_lt_of_ne heq with hlt | hlt
      · exact .inl (.inl hlt)
      · exact .inr (.inl hlt)
  key_eq_iff route other := by
    rw [ranksBefore_iff, ranksBefore_iff]
    constructor
    · intro heq
      rw [heq, and_self, Prod.lex_def]
      exact .inr ⟨rfl, String.le_refl _⟩
    · rintro ⟨h, h'⟩
      exact rank_antisymm h h'

/-- The same routes have the same ranks, in order. -/
theorem map_rank_mergeSort {routes routes' : List Route} (h : routes.Perm routes') :
    (routes.mergeSort ranksBefore).map rank = (routes'.mergeSort ranksBefore).map rank := by
  have hsorted (routes : List Route) :
      ((routes.mergeSort ranksBefore).map rank).Pairwise (Prod.Lex (· < ·) (· ≤ ·)) :=
    List.pairwise_map.2 <|
      (ranksBefore_comparesBy.pairwise_mergeSort routes).imp ranksBefore_iff.1
  have hperm : (routes.mergeSort ranksBefore).Perm (routes'.mergeSort ranksBefore) :=
    ((List.mergeSort_perm routes ranksBefore).trans h).trans
      (List.mergeSort_perm routes' ranksBefore).symm
  exact (hperm.map rank).eq_of_pairwise (fun _ _ _ _ ↦ rank_antisymm) (hsorted routes)
    (hsorted routes')

/-- The cheapest route comes first in the order of ranks. -/
theorem cheapest_eq_head? (routes : List Route) :
    cheapest routes = (routes.mergeSort ranksBefore).head? := by
  induction routes with
  | nil => rw [cheapest, List.mergeSort_nil, List.head?_nil]
  | cons route rest ih =>
    -- The first route is inserted into the sorted rest, before all that it ranks before.
    obtain ⟨before, after, hsorted, hrest, hbefore⟩ :=
      List.mergeSort_cons ranksBefore_comparesBy.trans ranksBefore_comparesBy.total route rest
    rw [cheapest, ih, hrest, hsorted]
    cases before with
    | nil =>
      cases after with
      | nil => rfl
      | cons best after =>
        have hpairwise := ranksBefore_comparesBy.pairwise_mergeSort (route :: rest)
        rw [hsorted] at hpairwise
        have hbest : route.ranksBefore best = true :=
          List.rel_of_pairwise_cons hpairwise List.mem_cons_self
        simp only [List.nil_append, List.head?_cons, if_pos hbest]
    | cons best before =>
      have hbest := hbefore best List.mem_cons_self
      simp only [List.cons_append, List.head?_cons, Bool.not_eq_true'] at hbest ⊢
      rw [hbest]
      rfl

end Route

namespace RouteTable.WellFormed

variable {table table' : RouteTable}

/-- The bucket of a service is all that a query for the service has to look at. -/
theorem query_eq (h : table.WellFormed) (query : RouteQuery) :
    table.query query = query.arrange (table.routes.filter query.selects) := by
  cases hservice : query.service with
  | none => simp only [RouteTable.query, hservice]
  | some service =>
    simp only [RouteTable.query, hservice]
    rw [← h.filter_service, List.filter_filter]
    congr 1
    refine List.filter_congr fun route _ ↦ ?_
    by_cases hname : route.service = service
    · simp [hname]
    · simp [RouteQuery.selects, admits, hservice, hname, Ne.symm hname]

/-- A query for a service alone arranges its bucket. -/
theorem query_service (h : table.WellFormed) (service : String) (order : RouteOrder) :
    table.query { service := some service, order } =
      RouteQuery.arrange { order } (table.bucket service) := by
  have hall : (table.bucket service).filter
      ({ service := some service, order } : RouteQuery).selects = table.bucket service := by
    refine List.filter_eq_self.2 fun route hmem ↦ ?_
    simp [RouteQuery.selects, admits, h.service_eq service route hmem]
  rw [RouteTable.query, hall]
  rfl

/-- A lookup answers with the first route of the query for the service, or else of the query for
fallback routes. -/
theorem lookup_eq (h : table.WellFormed) (service : String) :
    table.lookup service =
      (table.query { service := some service, order := .metric }).head?.or
        (table.query { service := some wildcardService, order := .metric }).head? := by
  rw [h.query_service, h.query_service, lookup, Route.cheapest_eq_head?, Route.cheapest_eq_head?]
  rfl

theorem routes_perm (h : table.WellFormed) (h' : table'.WellFormed)
    (hmem : ∀ route, route ∈ table.routes ↔ route ∈ table'.routes) :
    table.routes.Perm table'.routes := by
  have hnodup {table : RouteTable} (h : table.WellFormed) : table.routes.Nodup :=
    h.distinctKeys_routes.imp fun hkey heq ↦ hkey (congrArg Route.key heq)
  exact (List.perm_ext_iff_of_nodup (hnodup h) (hnodup h')).2 hmem

/-- The services told do not depend on the order in which routes came. -/
theorem services_eq_of_perm (h : table.WellFormed) (h' : table'.WellFormed)
    (hperm : table.routes.Perm table'.routes) : table.services = table'.services := by
  refine table.services_ascending.eq_of_mem_iff table'.services_ascending fun service ↦ ?_
  simp only [h.mem_services_iff, h'.mem_services_iff, hperm.mem_iff]

theorem map_rank_query_of_perm (h : table.WellFormed) (h' : table'.WellFormed)
    (hperm : table.routes.Perm table'.routes) (query : RouteQuery) :
    (table.query { query with order := .metric }).map Route.rank =
      (table'.query { query with order := .metric }).map Route.rank := by
  rw [h.query_eq, h'.query_eq]
  exact Route.map_rank_mergeSort (hperm.filter _)

theorem map_rank_lookup_of_perm (h : table.WellFormed) (h' : table'.WellFormed)
    (hperm : table.routes.Perm table'.routes) (service : String) :
    (table.lookup service).map Route.rank = (table'.lookup service).map Route.rank := by
  simp only [h.lookup_eq, h'.lookup_eq, Option.map_or, ← List.head?_map]
  rw [h.map_rank_query_of_perm h' hperm { service := some service },
    h.map_rank_query_of_perm h' hperm { service := some wildcardService }]

end RouteTable.WellFormed

namespace RouteTable

theorem size_eq_of_perm {table table' : RouteTable} (hperm : table.routes.Perm table'.routes) :
    table.size = table'.size := by
  rw [size_eq_length, size_eq_length, hperm.length_eq]

end RouteTable

end ServiceMesh

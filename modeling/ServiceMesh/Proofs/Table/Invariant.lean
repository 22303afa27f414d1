import ServiceMesh.Proofs.NameMap
import ServiceMesh.Proofs.Table.Bucket
import ServiceMesh.Proofs.Text.Utf8

/-!
# The invariant of a route table

A table is known by its buckets.  In a well-formed one every bucket holds routes of its own service
only, at least one of them, and no two of a key, and no bucket is for the empty service.  On such a
table each change has one description: storing puts a route into its bucket, withdrawing filters a
key out, and invalidating a router filters that router out of every bucket.
-/

namespace ServiceMesh.RouteTable

theorem bucket_of_get? {table : RouteTable} {service : String} {routes : List Route}
    (h : table.buckets.get? service = some routes) : table.bucket service = routes := by
  rw [bucket, h]
  rfl

/-- A bucket that is set to no routes is gone, and tells no routes. -/
theorem bucket_setBucket (table : RouteTable) (service : String) (routes : List Route)
    (other : String) :
    (table.setBucket service routes).bucket other =
      if other = service then routes else table.bucket other := by
  cases routes with
  | nil => by_cases h : other = service <;> simp [setBucket, bucket, NameMap.get?_erase, h]
  | cons route rest =>
    by_cases h : other = service <;> simp [setBucket, bucket, NameMap.get?_insert, h]

/-- The part of a table that a choice by keys takes. -/
def restrict (table : RouteTable) (chosen : RouteKey → Bool) : RouteTable :=
  let keep := fun (_ : String) (bucket : List Route) ↦
    match bucket.filter fun route ↦ chosen route.key with
    | [] => none
    | kept => some kept
  ⟨table.buckets.filterMap keep⟩

theorem bucket_restrict (table : RouteTable) (chosen : RouteKey → Bool) (service : String) :
    (table.restrict chosen).bucket service =
      (table.bucket service).filter fun route ↦ chosen route.key := by
  simp only [restrict, bucket, NameMap.get?_filterMap]
  cases table.buckets.get? service with
  | none => rfl
  | some routes =>
    simp only [Option.bind_some, Option.getD_some]
    cases routes.filter fun route ↦ chosen route.key <;> rfl

/-- To invalidate a router is to keep the routes of all others. -/
theorem deleteByRouter_eq_restrict (table : RouteTable) (router : String) :
    (table.deleteByRouter router).1 = table.restrict fun key ↦ key.router ≠ router := rfl

theorem bucket_deleteByRouter (table : RouteTable) (router service : String) :
    (table.deleteByRouter router).1.bucket service =
      (table.bucket service).filter (·.router ≠ router) := by
  rw [deleteByRouter_eq_restrict, bucket_restrict]
  rfl

/-- The routes are those of all buckets. -/
theorem mem_routes_iff {table : RouteTable} {route : Route} :
    route ∈ table.routes ↔ ∃ service, route ∈ table.bucket service := by
  simp only [routes, List.mem_flatten, NameMap.mem_values_iff, bucket]
  constructor
  · rintro ⟨held, ⟨service, hheld⟩, hmem⟩
    exact ⟨service, by rwa [hheld]⟩
  · rintro ⟨service, hmem⟩
    cases hheld : table.buckets.get? service with
    | none => simp [hheld] at hmem
    | some held => exact ⟨held, ⟨service, hheld⟩, by simpa [hheld] using hmem⟩

/-- A change of one bucket leaves only the routes of that bucket to be looked at. -/
theorem mem_routes_setBucket {table : RouteTable} {service : String} {routes : List Route}
    {route : Route} (h : route ∈ (table.setBucket service routes).routes) :
    route ∈ routes ∨ route ∈ table.routes := by
  obtain ⟨other, hmem⟩ := mem_routes_iff.1 h
  rw [bucket_setBucket] at hmem
  split at hmem
  · exact .inl hmem
  · exact .inr (mem_routes_iff.2 ⟨other, hmem⟩)

theorem mem_routes_of_mem_bucket {table : RouteTable} {service : String} {route : Route}
    (h : route ∈ table.bucket service) : route ∈ table.routes :=
  mem_routes_iff.2 ⟨service, h⟩

/-- Nothing is stored but the route that is given. -/
theorem mem_routes_create {table : RouteTable} {route : Route}
    {change : RouteTable × List TableEvent} (h : table.create route = .ok change) {other : Route}
    (hmem : other ∈ change.1.routes) : other = route ∨ other ∈ table.routes := by
  simp only [create] at h
  split at h
  · cases h
  · split at h
    · cases h
      rcases mem_routes_setBucket hmem with hmem | hmem
      · rcases List.mem_append.1 hmem with hmem | hmem
        · exact .inr (mem_routes_of_mem_bucket hmem)
        · exact .inl (List.mem_singleton.1 hmem)
      · exact .inr hmem
    · split at h
      · cases h
        exact .inr hmem
      · cases h
        rcases mem_routes_setBucket hmem with hmem | hmem
        · exact (eq_or_mem_of_mem_replaceFirst hmem).imp_right mem_routes_of_mem_bucket
        · exact .inr hmem
    · cases h

theorem mem_routes_delete {table : RouteTable} {route other : Route}
    (hmem : other ∈ (table.delete route).1.routes) : other ∈ table.routes := by
  simp only [delete] at hmem
  split at hmem
  · exact hmem
  · rcases mem_routes_setBucket hmem with hmem | hmem
    · exact mem_routes_of_mem_bucket (List.mem_of_mem_eraseP hmem)
    · exact hmem

theorem mem_routes_deleteByRouter {table : RouteTable} {router : String} {route : Route} :
    route ∈ (table.deleteByRouter router).1.routes ↔
      route ∈ table.routes ∧ route.router ≠ router := by
  simp [mem_routes_iff, bucket_deleteByRouter]

/-! ## Well-formed tables -/

structure WellFormed (table : RouteTable) : Prop where
  /-- A service without routes has no bucket. -/
  nonempty : ∀ service, table.buckets.contains service → table.bucket service ≠ []
  service_eq : ∀ service, ∀ route ∈ table.bucket service, route.service = service
  unnamed : table.bucket "" = []
  distinct : ∀ service, DistinctKeys (table.bucket service)

theorem wellFormed_empty : ({} : RouteTable).WellFormed where
  nonempty _ h := by cases h
  service_eq _ _ h := by cases h
  unnamed := rfl
  distinct _ := List.Pairwise.nil

theorem contains_of_mem_bucket {table : RouteTable} {service : String} {route : Route}
    (h : route ∈ table.bucket service) : table.buckets.contains service := by
  unfold bucket at h
  unfold NameMap.contains
  cases hheld : table.buckets.get? service with
  | none => simp [hheld] at h
  | some held => rfl

namespace WellFormed

variable {table : RouteTable}

/-- A service has a bucket just if it has routes. -/
theorem get?_eq (h : table.WellFormed) (service : String) :
    table.buckets.get? service =
      if table.bucket service = [] then none else some (table.bucket service) := by
  cases hheld : table.buckets.get? service with
  | none => simp [bucket, hheld]
  | some held =>
    rw [if_neg (h.nonempty service (NameMap.contains_of_get? hheld)), bucket_of_get? hheld]

/-- A well-formed table is no more than its buckets. -/
theorem ext_bucket {table' : RouteTable} (h : table.WellFormed) (h' : table'.WellFormed)
    (hbucket : ∀ service, table.bucket service = table'.bucket service) : table = table' := by
  have hbuckets : table.buckets = table'.buckets := NameMap.ext_get? fun service ↦ by
    rw [h.get?_eq, h'.get?_eq, hbucket]
  cases table
  cases table'
  cases hbuckets
  rfl

/-- A stored route is in the bucket of its own service. -/
theorem mem_bucket_service (h : table.WellFormed) {route : Route} (hmem : route ∈ table.routes) :
    route ∈ table.bucket route.service := by
  obtain ⟨service, hservice⟩ := mem_routes_iff.1 hmem
  rwa [h.service_eq service route hservice]

theorem service_ne_empty (h : table.WellFormed) {route : Route} (hmem : route ∈ table.routes) :
    route.service ≠ "" := by
  intro hempty
  have hbucket := h.mem_bucket_service hmem
  rw [hempty, h.unnamed] at hbucket
  cases hbucket

/-- A bucket of named routes with keys of their own, all of one service, may be set. -/
theorem setBucket (h : table.WellFormed) {service : String} {routes : List Route}
    (hservice : ∀ route ∈ routes, route.service = service) (hnamed : service = "" → routes = [])
    (hdistinct : DistinctKeys routes) : (table.setBucket service routes).WellFormed where
  nonempty other hcontains := by
    rw [bucket_setBucket]
    cases routes with
    | nil =>
      obtain ⟨hne, hother⟩ := (NameMap.contains_erase _ _ _).1 hcontains
      rw [if_neg hne]
      exact h.nonempty other hother
    | cons route rest =>
      rcases (NameMap.contains_insert _ _ _ _).1 hcontains with rfl | hother
      · simp
      · split
        · simp
        · exact h.nonempty other hother
  service_eq other route hmem := by
    rw [bucket_setBucket] at hmem
    split at hmem
    · next heq => rw [heq, hservice route hmem]
    · exact h.service_eq other route hmem
  unnamed := by
    rw [bucket_setBucket]
    split
    · next heq => exact hnamed heq.symm
    · exact h.unnamed
  distinct other := by
    rw [bucket_setBucket]
    split
    · exact hdistinct
    · exact h.distinct other

theorem restrict (h : table.WellFormed) (chosen : RouteKey → Bool) :
    (table.restrict chosen).WellFormed where
  nonempty service hcontains := by
    rw [bucket_restrict]
    intro hnil
    simp only [RouteTable.restrict, NameMap.contains, NameMap.get?_filterMap] at hcontains
    cases hheld : table.buckets.get? service with
    | none => simp [hheld] at hcontains
    | some held =>
      rw [bucket_of_get? hheld] at hnil
      simp only [hheld, Option.bind_some, hnil] at hcontains
      cases hcontains
  service_eq service route hmem := by
    rw [bucket_restrict] at hmem
    exact h.service_eq service route (List.mem_of_mem_filter hmem)
  unnamed := by
    rw [bucket_restrict, h.unnamed]
    rfl
  distinct service := by
    rw [bucket_restrict]
    exact (h.distinct service).filter _

theorem deleteByRouter (h : table.WellFormed) (router : String) :
    (table.deleteByRouter router).1.WellFormed :=
  h.restrict fun key ↦ key.router ≠ router

end WellFormed

/-- The route stored under a route's key. -/
def held? (table : RouteTable) (route : Route) : Option Route :=
  (table.bucket route.service).find? (·.sameKey route)

def store (table : RouteTable) (route : Route) : RouteTable :=
  table.setBucket route.service (place route (table.bucket route.service))

def withdraw (table : RouteTable) (route : Route) : RouteTable :=
  table.setBucket route.service ((table.bucket route.service).filter (·.key ≠ route.key))

/-- What is announced when a route is stored, given the one that its key had. -/
def storeEvents (route : Route) : Option Route → List TableEvent
  | none => [⟨.create, route⟩]
  | some held => if held = route then [] else [⟨.update, route⟩]

/-- What is announced when a route is withdrawn, given the one that its key had. -/
def withdrawEvents : Option Route → List TableEvent
  | none => []
  | some held => [⟨.delete, held⟩]

/-- Storing changes one bucket. -/
theorem bucket_store (table : RouteTable) (route : Route) (service : String) :
    (table.store route).bucket service =
      if service = route.service then place route (table.bucket service)
      else table.bucket service := by
  rw [store, bucket_setBucket]
  split
  · next heq => rw [heq]
  · rfl

theorem bucket_withdraw (table : RouteTable) (route : Route) (service : String) :
    (table.withdraw route).bucket service =
      if service = route.service then (table.bucket service).filter (·.key ≠ route.key)
      else table.bucket service := by
  rw [withdraw, bucket_setBucket]
  split
  · next heq => rw [heq]
  · rfl

theorem mem_of_held? {table : RouteTable} {route held : Route} (h : table.held? route = some held) :
    held ∈ table.bucket route.service ∧ held.key = route.key := by
  unfold held? at h
  have hsame : held.sameKey route = true := by simpa using List.find?_some h
  exact ⟨List.mem_of_find?_eq_some h, Route.sameKey_iff.1 hsame⟩

/-- If nothing is held under a key, no route of the bucket has it. -/
theorem key_ne_of_held? {table : RouteTable} {route : Route} (h : table.held? route = none) :
    ∀ held ∈ table.bucket route.service, held.key ≠ route.key := by
  unfold held? at h
  intro held hmem hkey
  exact List.find?_eq_none.1 h held hmem (Route.sameKey_iff.2 hkey)

/-- A route without a service is refused by every table. -/
theorem create_of_unnamed {route : Route} (h : route.service = "") (table : RouteTable) :
    table.create route = .error .emptyService := by
  simp [create, h]

namespace WellFormed

variable {table : RouteTable}

/-- To set a bucket to what it holds changes nothing. -/
theorem setBucket_bucket (h : table.WellFormed) (service : String) :
    table.setBucket service (table.bucket service) = table := by
  have hset := h.setBucket (h.service_eq service) (fun heq ↦ heq ▸ h.unnamed) (h.distinct service)
  apply hset.ext_bucket h
  intro other
  rw [bucket_setBucket]
  split
  · next heq => rw [heq]
  · rfl

/-- After storing a named route there is still one route for a key at most. -/
theorem store (h : table.WellFormed) {route : Route} (hnamed : route.service ≠ "") :
    (table.store route).WellFormed := by
  refine h.setBucket (fun other hmem ↦ ?_) (fun heq ↦ absurd heq hnamed)
    (distinctKeys_place (h.distinct _))
  rcases eq_or_mem_of_mem_place hmem with rfl | hmem
  · rfl
  · exact h.service_eq _ other hmem

theorem withdraw (h : table.WellFormed) (route : Route) : (table.withdraw route).WellFormed := by
  refine h.setBucket (fun other hmem ↦ ?_) (fun heq ↦ ?_) ((h.distinct _).filter _)
  · exact h.service_eq _ other (List.mem_of_mem_filter hmem)
  · rw [heq, h.unnamed]
    rfl

/-- What is held under a key is the only stored route that has it. -/
theorem held?_eq_some_iff (h : table.WellFormed) {route held : Route} :
    table.held? route = some held ↔ held ∈ table.routes ∧ held.key = route.key := by
  constructor
  · intro hheld
    obtain ⟨hmem, hkey⟩ := mem_of_held? hheld
    exact ⟨mem_routes_iff.2 ⟨_, hmem⟩, hkey⟩
  · rintro ⟨hmem, hkey⟩
    have hbucket : held ∈ table.bucket route.service := by
      have hservice : held.service = route.service := congrArg RouteKey.service hkey
      exact hservice ▸ h.mem_bucket_service hmem
    have hfilter := filter_sameKey (h.distinct route.service) route
    have hheld : held ∈ (table.bucket route.service).filter (·.sameKey route) :=
      List.mem_filter.2 ⟨hbucket, Route.sameKey_iff.2 hkey⟩
    rw [hfilter, Option.mem_toList] at hheld
    exact hheld

/-- To store a route that is held as it is changes nothing. -/
theorem store_of_held (h : table.WellFormed) {route : Route}
    (hheld : table.held? route = some route) : table.store route = table := by
  obtain ⟨hmem, _⟩ := mem_of_held? hheld
  rw [RouteTable.store, place_of_mem (h.distinct _) hmem, h.setBucket_bucket]

/-- To withdraw a key without a route changes nothing. -/
theorem withdraw_of_absent (h : table.WellFormed) {route : Route}
    (habsent : table.held? route = none) : table.withdraw route = table := by
  have hkept : (table.bucket route.service).filter (·.key ≠ route.key) =
      table.bucket route.service := by
    simpa only [List.filter_eq_self, decide_eq_true_eq] using key_ne_of_held? habsent
  rw [RouteTable.withdraw, hkept, h.setBucket_bucket]

/-- A named route is always stored. -/
theorem create_eq (h : table.WellFormed) {route : Route} (hnamed : route.service ≠ "") :
    table.create route =
      .ok (table.store route, storeEvents route (table.held? route)) := by
  have hfind : (table.bucket route.service).filter (·.sameKey route) =
      (table.held? route).toList := filter_sameKey (h.distinct _) route
  simp only [create, String.isEmpty_iff, hnamed, if_false, hfind]
  cases hheld : table.held? route with
  | none =>
    simp only [Option.toList_none, RouteTable.store, place_of_absent (key_ne_of_held? hheld),
      storeEvents]
  | some held =>
    obtain ⟨hmem, hkey⟩ := mem_of_held? hheld
    simp only [Option.toList_some, storeEvents]
    split
    · next heq =>
      rw [h.store_of_held (heq ▸ hheld)]
    · rw [RouteTable.store, place_of_present hmem hkey]

/-- The event of a deletion tells the route that was held, not the one that was given. -/
theorem delete_eq (h : table.WellFormed) (route : Route) :
    table.delete route = (table.withdraw route, withdrawEvents (table.held? route)) := by
  have hfind : (table.bucket route.service).find? (·.sameKey route) = table.held? route := rfl
  simp only [delete, hfind]
  cases hheld : table.held? route with
  | none =>
    rw [h.withdraw_of_absent hheld]
    rfl
  | some held =>
    simp only [RouteTable.withdraw, eraseP_sameKey (h.distinct route.service), withdrawEvents]

end WellFormed

theorem size_eq_length (table : RouteTable) : table.size = table.routes.length :=
  List.length_flatten.symm

/-- The query that constrains nothing lists all routes. -/
@[simp] theorem query_all (table : RouteTable) : table.query {} = table.routes :=
  List.filter_eq_self.2 fun _ _ ↦ rfl

theorem bucket_of_mem_entries {table : RouteTable} {service : String} {held : List Route}
    (h : (service, held) ∈ table.buckets.entries) : table.bucket service = held :=
  bucket_of_get? (NameMap.get?_eq_some_iff.2 h)

/-- Of ascending buckets of named routes, the routes of one service are one bucket. -/
theorem filter_service_flatten {entries : List (String × List Route)}
    (hascending : entries.Pairwise (fun a b ↦ a.1 < b.1))
    (hservice : ∀ entry ∈ entries, ∀ route ∈ entry.2, route.service = entry.1) (service : String) :
    (entries.map Prod.snd).flatten.filter (·.service = service) =
      (entries.lookup service).getD [] := by
  induction entries with
  | nil => rfl
  | cons head rest ih =>
    obtain ⟨first, held⟩ := head
    obtain ⟨hfirst, hrest⟩ := List.pairwise_cons.1 hascending
    have hheld : ∀ route ∈ held, route.service = first :=
      hservice (first, held) List.mem_cons_self
    have hrest := ih hrest fun entry hmem ↦ hservice entry (List.mem_cons_of_mem _ hmem)
    rw [List.map_cons, List.flatten_cons, List.filter_append, hrest]
    by_cases hname : service = first
    · have hall : held.filter (·.service = service) = held := by
        simp only [List.filter_eq_self, decide_eq_true_eq]
        exact fun route hmem ↦ (hheld route hmem).trans hname.symm
      have hnone : rest.lookup service = none := by
        rw [List.lookup_eq_none_iff]
        intro entry hmem
        refine bne_iff_ne.2 fun heq ↦ String.lt_irrefl first ?_
        have hlt : first < entry.1 := hfirst entry hmem
        rwa [← heq, hname] at hlt
      rw [hall, hnone, hname, List.lookup_cons_self]
      exact List.append_nil held
    · have hnil : held.filter (·.service = service) = [] := by
        simp only [List.filter_eq_nil_iff, decide_eq_true_eq]
        exact fun route hmem heq ↦ hname (heq.symm.trans (hheld route hmem))
      rw [hnil, NameMap.lookup_cons_of_ne hname]
      rfl

namespace WellFormed

variable {table : RouteTable}

/-- Among all routes those of one service are its bucket, in the same order. -/
theorem filter_service (h : table.WellFormed) (service : String) :
    table.routes.filter (·.service = service) = table.bucket service := by
  refine filter_service_flatten table.buckets.ascending (fun entry hmem route hroute ↦ ?_) service
  refine h.service_eq entry.1 route ?_
  rwa [bucket_of_mem_entries hmem]

/-- A relation within each bucket that also holds from lower to higher services holds between each
route and those listed after it. -/
theorem pairwise_routes (h : table.WellFormed) {relation : Route → Route → Prop}
    (hwithin : ∀ service, (table.bucket service).Pairwise relation)
    (hbetween : ∀ route other : Route, route.service < other.service → relation route other) :
    table.routes.Pairwise relation := by
  refine List.pairwise_flatten.2 ⟨fun held hmem ↦ ?_, List.pairwise_map.2 ?_⟩
  · obtain ⟨entry, hentry, rfl⟩ := List.mem_map.1 hmem
    exact bucket_of_mem_entries hentry ▸ hwithin entry.1
  · refine table.buckets.ascending.imp_of_mem fun {one other} hone hother hlt ↦ ?_
    intro route hroute route' hroute'
    rw [← bucket_of_mem_entries hone] at hroute
    rw [← bucket_of_mem_entries hother] at hroute'
    apply hbetween
    rwa [h.service_eq _ _ hroute, h.service_eq _ _ hroute']

theorem distinctKeys_routes (h : table.WellFormed) : DistinctKeys table.routes := by
  refine h.pairwise_routes h.distinct fun route other hlt hkey ↦ ?_
  have hservice : route.service = other.service := congrArg RouteKey.service hkey
  exact String.lt_irrefl other.service (hservice ▸ hlt)

/-- As no bucket is empty, a table without routes has no buckets. -/
theorem isEmpty_iff (h : table.WellFormed) : table.isEmpty = true ↔ table.size = 0 := by
  rw [size_eq_length, List.length_eq_zero_iff, isEmpty, NameMap.isEmpty, List.isEmpty_iff]
  constructor
  · intro hnil
    simp [routes, NameMap.values, hnil]
  · intro hnil
    rw [List.eq_nil_iff_forall_not_mem]
    rintro ⟨service, held⟩ hmem
    have hbucket := bucket_of_mem_entries hmem
    have hne := h.nonempty service (NameMap.contains_iff.2 ⟨held, hmem⟩)
    obtain ⟨route, hroute⟩ := List.exists_mem_of_ne_nil _ hne
    have hroutes := mem_routes_iff.2 ⟨service, hroute⟩
    rw [hnil] at hroutes
    cases hroutes

/-- The services told are those that have routes, but for the wildcard. -/
theorem mem_services_iff (h : table.WellFormed) (service : String) :
    service ∈ table.services ↔
      service ≠ wildcardService ∧ ∃ route ∈ table.routes, route.service = service := by
  simp only [services, List.mem_filter, decide_eq_true_eq, NameMap.mem_names_iff, and_comm]
  refine and_congr_right fun _ ↦ ⟨fun hcontains ↦ ?_, ?_⟩
  · obtain ⟨route, hroute⟩ := List.exists_mem_of_ne_nil _ (h.nonempty service hcontains)
    exact ⟨route, h.service_eq service route hroute, mem_routes_iff.2 ⟨service, hroute⟩⟩
  · rintro ⟨route, rfl, hroute⟩
    exact contains_of_mem_bucket (h.mem_bucket_service hroute)

end WellFormed

theorem services_ascending (table : RouteTable) : table.services.Pairwise (· < ·) :=
  (NameMap.names_ascending _).filter _

end ServiceMesh.RouteTable

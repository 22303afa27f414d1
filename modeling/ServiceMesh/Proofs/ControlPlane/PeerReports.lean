import ServiceMesh.ControlPlane
import ServiceMesh.Proofs.ControlPlane.Anchor

/-!
# The last report of a peer wins

A control plane whose nodes come from reports of peers only, with adverts in between, is known from
the last report of each address.  An address whose last report is that it is up is registered under
itself, at the metric of that report; no other is registered but the local node.
-/

namespace ServiceMesh

namespace PeerEvent

def address : PeerEvent → String
  | .up address _ => address
  | .down address _ => address

def latency? : PeerEvent → Option ℕ
  | .up _ latency => some latency
  | .down _ _ => none

end PeerEvent

theorem toInt_latencyMetric (latency : ℕ) :
    (latencyMetric latency).toInt = min (latency / 1000000) (2 ^ 63 - 1) := by
  rw [latencyMetric, Int64.toInt_ofNat_of_lt]
  · push_cast
    rfl
  · simp only [Nat.pow_eq]
    omega

/-- However long a dial takes, its metric does not wrap around. -/
theorem latencyMetric_nonneg (latency : ℕ) : 0 ≤ latencyMetric latency := by
  rw [Int64.le_iff_toInt_le, toInt_latencyMetric, Int64.toInt_zero]
  omega

/-- What a control plane hears of its peers. -/
inductive PeerNews where
  | report (event : PeerEvent)
  | advert (advert : Advert)

def PeerNews.report? : PeerNews → Option PeerEvent
  | .report event => some event
  | .advert _ => none

/-- The last report of an address. -/
def lastReport? (news : List PeerNews) (address : String) : Option PeerEvent :=
  ((news.filterMap PeerNews.report?).filter (·.address = address)).getLast?

theorem address_of_lastReport? {news : List PeerNews} {address : String} {event : PeerEvent}
    (h : lastReport? news address = some event) : event.address = address := by
  have hmem := List.mem_of_getLast? h
  simpa using (List.mem_filter.1 hmem).2

/-- A report is the last one of its address, and the last of no other. -/
theorem lastReport?_concat_report (news : List PeerNews) (event : PeerEvent) (address : String) :
    lastReport? (news ++ [.report event]) address =
      if event.address = address then some event else lastReport? news address := by
  unfold lastReport?
  rw [List.filterMap_append, List.filter_append]
  by_cases haddress : event.address = address
  · simp [PeerNews.report?, haddress]
  · simp [PeerNews.report?, haddress]

theorem lastReport?_concat_advert (news : List PeerNews) (advert : Advert) (address : String) :
    lastReport? (news ++ [.advert advert]) address = lastReport? news address := by
  unfold lastReport?
  rw [List.filterMap_append, show [PeerNews.advert advert].filterMap PeerNews.report? = [] from rfl,
    List.append_nil]

namespace ControlPlane

/-- Follows a report, or takes in a whole advert. -/
def hear (plane : ControlPlane) : PeerNews → ControlPlane
  | .report event => plane.follow event
  | .advert advert => (plane.process advert).1

def hearAll (plane : ControlPlane) (news : List PeerNews) : ControlPlane :=
  news.foldl hear plane

/-- The registered nodes are the local one and the peers that are up, each under its address, with no
links but those of the local node to the peers.  All routes have their routers among them. -/
structure Mirrors (plane : ControlPlane) (localId address : String) (up : String → Option ℕ) :
    Prop where
  localId_eq : plane.localId = localId
  home : ∃ links, plane.registry.get? localId = some { address, links }
  peer : ∀ id, id ≠ localId →
    plane.registry.get? id = (up id).map fun _ ↦ { address := id }
  link : ∀ id, plane.registry.linkMetric? localId id = (up id).map latencyMetric
  refused : ∀ id, id = "" ∨ id = localId → up id = none
  owned : ∀ route ∈ plane.routes.table.routes, plane.registry.contains route.router = true

namespace Mirrors

variable {plane : ControlPlane} {localId address : String} {up : String → Option ℕ}

theorem start (localId address : String) :
    (ControlPlane.start localId address).Mirrors localId address fun _ ↦ none where
  localId_eq := rfl
  home := ⟨∅, Registry.get?_insert_self _ _ _ _⟩
  peer id hother := Registry.get?_insert_of_ne _ hother _ _
  link id := Registry.linkMetric?_insert _ _ _ _ _ _
  refused _ _ := rfl
  owned route hmem := by cases hmem

theorem contains_local (h : plane.Mirrors localId address up) :
    plane.registry.contains localId = true := by
  obtain ⟨links, hhome⟩ := h.home
  exact Option.isSome_iff_exists.2 ⟨_, hhome⟩

/-- Registered are the local node and the peers that are up. -/
theorem contains_iff (h : plane.Mirrors localId address up) (id : String) :
    plane.registry.contains id = true ↔ id = localId ∨ (up id).isSome = true := by
  by_cases hlocal : id = localId
  · simp only [hlocal, h.contains_local, true_or]
  · change (plane.registry.get? id).isSome = true ↔ _
    rw [h.peer id hlocal, Option.isSome_map, or_iff_right hlocal]

/-- Reports about the local node and about no address change nothing. -/
theorem follow_refused (h : plane.Mirrors localId address up) {event : PeerEvent}
    (hrefused : event.address = "" ∨ event.address = localId) : plane.follow event = plane := by
  cases event with
  | up peer latency =>
    have hrefused : peer = "" ∨ peer = plane.localId := h.localId_eq ▸ hrefused
    obtain ⟨cause, hregister⟩ := register_refused hrefused peer ∅ (latencyMetric latency)
    rw [follow, hregister]
  | down peer reason =>
    rw [follow]
    split
    · next hcontains =>
      have hlocal : peer = plane.localId := by
        have hnone : up peer = none := h.refused peer hrefused
        simpa [hnone, h.localId_eq] using (h.contains_iff peer).1 hcontains
      rw [hlocal, remove_local]
    · rfl

/-- A peer that is up may have been registered before; then its link gets the new metric. -/
theorem register (h : plane.Mirrors localId address up) {id : String} (hnamed : id ≠ "")
    (hother : id ≠ localId) (latency : ℕ) :
    (plane.register id id ∅ (latencyMetric latency)).1.Mirrors localId address fun other ↦
      if id = other then some latency else up other := by
  have hlocal := h.contains_local
  obtain rfl := h.localId_eq
  constructor
  · rw [register_eq hlocal hnamed hother]
    rfl
  · obtain ⟨links, hhome⟩ := h.home
    refine ⟨links.insert id (latencyMetric latency), ?_⟩
    rw [get?_register hlocal hnamed hother, if_neg hother.symm, hhome, Option.map_some, if_pos rfl]
    rfl
  · intro other hne
    rw [get?_register hlocal hnamed hother]
    by_cases hsame : other = id
    · rw [if_pos hsame, if_pos hsame.symm, h.peer id hother, hsame]
      cases up id <;> rfl
    · rw [if_neg hsame, if_neg (Ne.symm hsame), h.peer other hne]
      cases up other <;> simp [hne]
  · intro other
    rw [linkMetric?_register hlocal hnamed hother, h.link other]
    by_cases hsame : other = id
    · simp [hsame]
    · simp [hsame, Ne.symm hsame]
  · intro other hrefused
    have hne : id ≠ other := by
      rintro rfl
      exact hrefused.elim hnamed hother
    rw [if_neg hne, h.refused other hrefused]
  · intro route hmem
    rw [contains_register hlocal hnamed hother]
    rw [register_eq hlocal hnamed hother] at hmem
    exact .inr (h.owned route hmem)

/-- A removal takes the peer, the link to it and its routes away, and nothing of the other peers. -/
theorem remove (h : plane.Mirrors localId address up) {id : String} (hother : id ≠ localId)
    (hregistered : plane.registry.contains id = true) :
    (plane.remove id).1.Mirrors localId address fun other ↦
      if id = other then none else up other := by
  obtain rfl := h.localId_eq
  have hregistry := registry_remove hother
  constructor
  · exact localId_remove hother
  · obtain ⟨links, hhome⟩ := h.home
    refine ⟨links.erase id, ?_⟩
    rw [hregistry, Registry.get?_remove hregistered, if_neg hother.symm, hhome]
    rfl
  · intro other hne
    rw [hregistry, Registry.get?_remove hregistered]
    by_cases hsame : other = id
    · simp [hsame]
    · rw [if_neg hsame, if_neg (Ne.symm hsame), h.peer other hne]
      cases up other <;> rfl
  · intro other
    rw [hregistry, Registry.linkMetric?_remove hregistered]
    by_cases hsame : other = id
    · simp [hsame]
    · rw [if_neg (not_or.2 ⟨hother.symm, hsame⟩), if_neg (Ne.symm hsame), h.link other]
  · intro other hrefused
    rw [h.refused other hrefused, ite_self]
  · intro route hmem
    rw [remove_eq hother] at hmem
    obtain ⟨hstored, hrouter⟩ := RouteTable.mem_routes_deleteByRouter.1 hmem
    rw [hregistry]
    exact (Registry.contains_remove _ _ _).2 ⟨hrouter, h.owned route hstored⟩

/-- A report of an address that may be registered decides about this address, and about no other. -/
theorem follow (h : plane.Mirrors localId address up) {event : PeerEvent}
    (hnamed : event.address ≠ "") (hother : event.address ≠ localId) :
    (plane.follow event).Mirrors localId address fun id ↦
      if event.address = id then event.latency? else up id := by
  cases event with
  | up peer latency => exact h.register hnamed hother latency
  | down peer reason =>
    rw [ControlPlane.follow]
    split
    · next hregistered => exact h.remove hother hregistered
    · next habsent =>
      have hnone : up peer = none := by
        rw [h.contains_iff, not_or] at habsent
        simpa using habsent.2
      have hsame : up = fun id ↦ if peer = id then none else up id := by
        funext id
        split
        · next heq => rw [← heq, hnone]
        · rfl
      rwa [hsame] at h

/-- Adverts do not touch the nodes, and leave no route without its router. -/
theorem process (h : plane.Mirrors localId address up) (advert : Advert) :
    (plane.process advert).1.Mirrors localId address up := by
  have hframe := process_frame plane advert
  have hregistry : (plane.process advert).1.registry = plane.registry := by rw [hframe]
  constructor
  · rw [hframe]
    exact h.localId_eq
  · rw [hregistry]
    exact h.home
  · rw [hregistry]
    exact h.peer
  · rw [hregistry]
    exact h.link
  · exact h.refused
  · intro route hmem
    rw [hregistry]
    exact (mem_process hmem).elim (h.owned route) id

/-- The listed nodes are the local one and then the peers that are up. -/
theorem nodes_eq (h : plane.Mirrors localId address up) :
    plane.nodes = ⟨localId, address⟩ ::
      (plane.registry.ids.filter (· ≠ localId)).map fun id ↦ ⟨id, id⟩ := by
  have hanchored : plane.registry.Anchored localId := by
    refine ⟨h.contains_local, fun id hcontains hother ↦ ?_⟩
    rw [h.link id, Option.isSome_map]
    exact ((h.contains_iff id).1 hcontains).resolve_left hother
  obtain ⟨links, hhome⟩ := h.home
  have hlocal : plane.registry.view? localId = some ⟨localId, address⟩ :=
    Registry.view?_eq_some_iff.2 ⟨rfl, _, hhome, rfl⟩
  have hpeers : ∀ id ∈ plane.registry.ids.filter (· ≠ localId),
      plane.registry.view? id = some ⟨id, id⟩ := by
    intro id hmem
    obtain ⟨hcontains, hother⟩ : plane.registry.contains id = true ∧ id ≠ localId := by
      simpa [Registry.mem_ids_iff] using hmem
    have hup := ((h.contains_iff id).1 hcontains).resolve_left hother
    obtain ⟨latency, hlatency⟩ := Option.isSome_iff_exists.1 hup
    apply Registry.view?_eq_some_iff.2
    refine ⟨rfl, { address := id }, ?_, rfl⟩
    rw [h.peer id hother, hlatency]
    rfl
  calc plane.nodes
    _ = (localId :: plane.registry.ids.filter (· ≠ localId)).filterMap plane.registry.view? := by
      rw [nodes, Registry.flatten, h.localId_eq, hanchored.reachableIds_eq]
    _ = ⟨localId, address⟩ ::
        (plane.registry.ids.filter (· ≠ localId)).filterMap plane.registry.view? :=
      List.filterMap_cons_some hlocal
    _ = _ := by rw [List.filterMap_congr hpeers, List.filterMap_eq_map']

end Mirrors

/-- The latency of a peer that its last report tells to be up. -/
def upLatency? (localId : String) (news : List PeerNews) (id : String) : Option ℕ :=
  if id = "" ∨ id = localId then none else (lastReport? news id).bind PeerEvent.latency?

/-- A peer is up if its last report says so, and the empty address and the local id never count. -/
theorem upLatency?_eq_some_iff {localId : String} {news : List PeerNews} {id : String}
    {latency : ℕ} :
    upLatency? localId news id = some latency ↔
      id ≠ "" ∧ id ≠ localId ∧ lastReport? news id = some (.up id latency) := by
  rw [upLatency?]
  split
  · next hrefused =>
    refine ⟨nofun, fun ⟨hnamed, hother, _⟩ ↦ ?_⟩
    exact (hrefused.elim hnamed hother).elim
  · next hrefused =>
    rw [← and_assoc, and_iff_right (not_or.1 hrefused), Option.bind_eq_some_iff]
    constructor
    · rintro ⟨event, hlast, hlatency⟩
      cases event with
      | up peer taken =>
        have hpeer : peer = id := address_of_lastReport? hlast
        cases hlatency
        rw [hlast, hpeer]
      | down peer reason => cases hlatency
    · exact fun hlast ↦ ⟨_, hlast, rfl⟩

theorem upLatency?_concat_advert (localId : String) (news : List PeerNews) (advert : Advert) :
    upLatency? localId (news ++ [.advert advert]) = upLatency? localId news := by
  funext id
  rw [upLatency?, lastReport?_concat_advert, upLatency?]

theorem upLatency?_concat_of_refused {localId : String} {event : PeerEvent}
    (hrefused : event.address = "" ∨ event.address = localId) (news : List PeerNews) :
    upLatency? localId (news ++ [.report event]) = upLatency? localId news := by
  funext id
  rw [upLatency?, lastReport?_concat_report, upLatency?]
  by_cases hid : id = "" ∨ id = localId
  · rw [if_pos hid, if_pos hid]
  · have haddress : event.address ≠ id := by
      rintro rfl
      exact hid hrefused
    rw [if_neg haddress]

theorem upLatency?_concat_report {localId : String} {event : PeerEvent}
    (hnamed : event.address ≠ "") (hother : event.address ≠ localId) (news : List PeerNews) :
    upLatency? localId (news ++ [.report event]) = fun id ↦
      if event.address = id then event.latency? else upLatency? localId news id := by
  funext id
  rw [upLatency?, lastReport?_concat_report, upLatency?]
  by_cases haddress : event.address = id
  · subst haddress
    rw [if_neg (not_or.2 ⟨hnamed, hother⟩), if_pos rfl, if_pos rfl]
    rfl
  · rw [if_neg haddress, if_neg haddress]

/-- The control plane mirrors the last reports, whatever it has heard. -/
theorem mirrors_hearAll (localId address : String) (news : List PeerNews) :
    ((start localId address).hearAll news).Mirrors localId address (upLatency? localId news) := by
  induction news using List.reverseRecOn with
  | nil =>
    have hnone : upLatency? localId [] = fun _ ↦ none := funext fun _ ↦ ite_self _
    rw [hnone]
    exact .start localId address
  | append_singleton news latest ih =>
    let plane := (start localId address).hearAll news
    have hnext : (start localId address).hearAll (news ++ [latest]) = plane.hear latest :=
      List.foldl_concat _ _ _ _
    rw [hnext]
    cases latest with
    | advert advert =>
      rw [upLatency?_concat_advert]
      exact ih.process advert
    | report event =>
      by_cases hrefused : event.address = "" ∨ event.address = localId
      · have hsame : plane.hear (.report event) = plane := ih.follow_refused hrefused
        rw [upLatency?_concat_of_refused hrefused, hsame]
        exact ih
      · obtain ⟨hnamed, hother⟩ := not_or.1 hrefused
        rw [upLatency?_concat_report hnamed hother]
        exact ih.follow hnamed hother

/-- Let a new control plane follow any reports of its peers and take in any adverts in between.  The
nodes registered are the local one and the peers whose last report tells that they are up; each of
these has itself as its address, no links, and a link from the local node at the metric of that
report.  The nodes listed are the local one and then these peers in ascending order, no route has
lost its router, and reports about the local node or no address change nothing. -/
theorem last_report_wins (localId address : String) (news : List PeerNews) :
    let plane := (start localId address).hearAll news
    (∀ id, plane.registry.contains id = true ↔ id = localId ∨
      id ≠ "" ∧ id ≠ localId ∧ ∃ latency, lastReport? news id = some (.up id latency)) ∧
    (∀ id latency, id ≠ "" → id ≠ localId → lastReport? news id = some (.up id latency) →
      plane.registry.get? id = some { address := id, metadata := ∅, links := ∅ } ∧
      ∃ metric, plane.registry.linkMetric? localId id = some metric ∧
        metric.toInt = min (latency / 1000000) (2 ^ 63 - 1) ∧ 0 ≤ metric) ∧
    (∃ peers : List String, plane.nodes = ⟨localId, address⟩ :: peers.map (fun id ↦ ⟨id, id⟩) ∧
      peers.Pairwise (· < ·) ∧
      ∀ id, id ∈ peers ↔ plane.registry.contains id = true ∧ id ≠ localId) ∧
    (∀ route ∈ plane.routes.table.routes, plane.registry.contains route.router = true) ∧
    ∀ event : PeerEvent, event.address = "" ∨ event.address = localId →
      plane.follow event = plane := by
  intro plane
  have h : plane.Mirrors localId address (upLatency? localId news) :=
    mirrors_hearAll localId address news
  refine ⟨fun id ↦ ?_, fun id latency hnamed hother hlast ↦ ?_, ⟨_, h.nodes_eq, ?_, fun id ↦ ?_⟩,
    h.owned, fun event ↦ h.follow_refused⟩
  · simp only [h.contains_iff, Option.isSome_iff_exists, upLatency?_eq_some_iff, exists_and_left]
  · have hup : upLatency? localId news id = some latency :=
      upLatency?_eq_some_iff.2 ⟨hnamed, hother, hlast⟩
    refine ⟨?_, latencyMetric latency, ?_, toInt_latencyMetric latency,
      latencyMetric_nonneg latency⟩
    · rw [h.peer id hother, hup]
      rfl
    · rw [h.link id, hup]
      rfl
  · exact (NameMap.names_ascending plane.registry.nodes).filter _
  · simp [Registry.mem_ids_iff]

theorem last_report_wins_flapping :
    let plane := (start "n" "n:1").hearAll [.report (.up "a:1" 5000000), .report (.up "b:1" 1),
      .advert ⟨"a:1", [⟨.create, { service := "s", router := "a:1" }⟩]⟩,
      .report (.down "a:1" "timeout"), .report (.up "" 1), .report (.up "b:1" 2500000)]
    plane.registry.contains "a:1" = false ∧
      plane.routes.table.routes = [] ∧
      plane.registry.get? "b:1" = some { address := "b:1" } ∧
      plane.follow (.down "n" "timeout") = plane := by
  intro plane
  obtain ⟨hcontains, hpeer, _, _, hrefused⟩ := last_report_wins "n" "n:1"
    [.report (.up "a:1" 5000000), .report (.up "b:1" 1),
      .advert ⟨"a:1", [⟨.create, { service := "s", router := "a:1" }⟩]⟩,
      .report (.down "a:1" "timeout"), .report (.up "" 1), .report (.up "b:1" 2500000)]
  refine ⟨?_, by decide +kernel, ?_, hrefused _ (.inr rfl)⟩
  · rw [Bool.eq_false_iff]
    intro hregistered
    rcases (hcontains _).1 hregistered with hlocal | ⟨_, _, latency, hlast⟩
    · exact absurd hlocal (by decide)
    · cases hlast
  · exact (hpeer "b:1" 2500000 (by decide) (by decide) (by decide +kernel)).1

end ControlPlane

end ServiceMesh

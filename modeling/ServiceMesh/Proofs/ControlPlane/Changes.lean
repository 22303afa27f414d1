import ServiceMesh.ControlPlane
import ServiceMesh.Proofs.Registered
import ServiceMesh.Proofs.Table.Invariant

/-!
# What a change of a control plane touches

Links, registrations and connects leave the routes alone, and adverts and connects the registry.  An
advert adds no routes but those of its router, and only while that is registered.  A removal takes a
node out of the registry and, whether it was there or not, withdraws its routes.
-/

namespace ServiceMesh.ControlPlane

/-- Only the routes of the router are withdrawn, and all of them. -/
theorem mem_withdrawRoutes {plane : ControlPlane} {router : String} {route : Route} :
    route ∈ (plane.withdrawRoutes router).1.routes.table.routes ↔
      route ∈ plane.routes.table.routes ∧ route.router ≠ router :=
  RouteTable.mem_routes_deleteByRouter

/-- A link changes the registry only. -/
theorem link_frame (plane : ControlPlane) (source target : String) (metric : Int64) :
    (plane.link source target metric).1 =
      { plane with registry := (plane.link source target metric).1.registry } := by
  unfold link
  split <;> rfl

theorem contains_link (plane : ControlPlane) (source target : String) (metric : Int64)
    (id : String) :
    (plane.link source target metric).1.registry.contains id = plane.registry.contains id := by
  unfold link
  split
  · exact Registry.contains_modify _ _ _ _
  · rfl

/-- An event changes the routes only. -/
theorem applyEvent_frame (plane : ControlPlane) (router : String) (event : TableEvent) :
    (plane.applyEvent router event).1 =
      { plane with routes := (plane.applyEvent router event).1.routes } := by
  unfold applyEvent
  split
  · rfl
  · split <;> rfl

/-- Whether a route is refused, updated or new, no other route comes in with it. -/
theorem mem_live_create {live : LiveTable} {route other : Route}
    (h : other ∈ (live.create route).1.table.routes) :
    other = route ∨ other ∈ live.table.routes := by
  unfold LiveTable.create at h
  split at h
  · next hcreate => exact RouteTable.mem_routes_create hcreate h
  · exact .inr h

/-- An event adds no routes but those of the router that advertises it. -/
theorem mem_applyEvent {plane : ControlPlane} {router : String} {event : TableEvent} {route : Route}
    (h : route ∈ (plane.applyEvent router event).1.routes.table.routes) :
    route ∈ plane.routes.table.routes ∨ route.router = router := by
  unfold applyEvent at h
  split at h
  · exact .inl h
  · next hrouter =>
    split at h
    · rcases mem_live_create h with rfl | hmem
      · exact .inr (not_not.1 hrouter)
      · exact .inl hmem
    · rcases mem_live_create h with rfl | hmem
      · exact .inr (not_not.1 hrouter)
      · exact .inl hmem
    · exact .inl (RouteTable.mem_routes_delete h)

variable {plane : ControlPlane} {id : String}

/-- A registration begins unless the id is empty or the local one. -/
theorem beginRegister_eq_ok_iff {address : String} {metadata : NameMap String}
    {begun : ControlPlane} :
    plane.beginRegister id address metadata = .ok begun ↔ id ≠ "" ∧ id ≠ plane.localId ∧
      { plane with registry := plane.registry.insert id address metadata } = begun := by
  simp only [beginRegister, String.isEmpty_iff]
  split_ifs with hnamed hlocal
  · simp [hnamed]
  · simp [hlocal]
  · simp [hnamed, hlocal]

/-- The second half of a registration changes the registry and the gauge of nodes only. -/
theorem finishRegister_frame (plane : ControlPlane) (id : String) (metric : Int64) :
    (plane.finishRegister id metric).1 =
      { plane with
        registry := (plane.finishRegister id metric).1.registry
        metrics := { plane.metrics with
          nodes := (plane.finishRegister id metric).1.metrics.nodes } } := by
  unfold finishRegister link
  split
  · next hlink =>
    split at hlink <;> cases hlink
    rfl
  · split <;> rfl

theorem contains_finishRegister (plane : ControlPlane) (id : String) (metric : Int64)
    (other : String) :
    (plane.finishRegister id metric).1.registry.contains other = plane.registry.contains other := by
  rw [← contains_link plane plane.localId id metric other]
  unfold finishRegister
  split
  · next hlink => rw [hlink]; rfl
  · rfl

/-- A node that is not refused is registered, and the local node gets its link to it, because the
local node is registered. -/
theorem register_eq (hlocal : plane.registry.contains plane.localId = true) (hnamed : id ≠ "")
    (hother : id ≠ plane.localId) (address : String) (metadata : NameMap String) (metric : Int64) :
    plane.register id address metadata metric =
      (gaugeNodes { plane with
        registry := (plane.registry.insert id address metadata).modify plane.localId
          (·.addLink id metric) }, none) := by
  have hcontains : (plane.registry.insert id address metadata).contains plane.localId = true := by
    rw [Registry.contains_insert]
    exact .inr hlocal
  have hbegin : plane.beginRegister id address metadata = .ok _ := beginRegister_eq_ok_iff.2
    ⟨hnamed, hother, rfl⟩
  simp only [register, hbegin, finishRegister, link, if_pos hcontains]

section Register

variable (hlocal : plane.registry.contains plane.localId = true) (hnamed : id ≠ "")
  (hother : id ≠ plane.localId) (address : String) (metadata : NameMap String) (metric : Int64)

include hlocal hnamed hother

theorem contains_register (other : String) :
    (plane.register id address metadata metric).1.registry.contains other = true ↔
      other = id ∨ plane.registry.contains other = true := by
  rw [register_eq hlocal hnamed hother, gaugeNodes, Registry.contains_modify,
    Registry.contains_insert]

/-- The node that is registered keeps the links of the one before it, if there was one. -/
theorem get?_register (other : String) :
    (plane.register id address metadata metric).1.registry.get? other =
      if other = id then
        some { address, metadata, links := ((plane.registry.get? id).map Node.links).getD ∅ }
      else (plane.registry.get? other).map fun node ↦
        if other = plane.localId then node.addLink id metric else node := by
  rw [register_eq hlocal hnamed hother, gaugeNodes, Registry.get?_modify]
  by_cases hsame : other = id
  · simp only [hsame, Registry.get?_insert_self, Option.map_some, if_neg hother, if_true]
  · rw [Registry.get?_insert_of_ne _ hsame, if_neg hsame]

theorem linkMetric?_register (source target : String) :
    (plane.register id address metadata metric).1.registry.linkMetric? source target =
      if source = plane.localId ∧ target = id then some metric
      else plane.registry.linkMetric? source target := by
  have hcontains : (plane.registry.insert id address metadata).contains plane.localId = true :=
    (Registry.contains_insert _ _ _ _ _).2 (.inr hlocal)
  rw [register_eq hlocal hnamed hother, gaugeNodes, Registry.linkMetric?_addLink hcontains,
    Registry.linkMetric?_insert]

end Register

/-- The empty id and the local one are refused. -/
theorem register_refused (h : id = "" ∨ id = plane.localId) (address : String)
    (metadata : NameMap String) (metric : Int64) :
    ∃ cause, plane.register id address metadata metric = (plane, some cause) := by
  cases hbegin : plane.beginRegister id address metadata with
  | error cause => exact ⟨cause, by rw [register, hbegin]⟩
  | ok begun =>
    obtain ⟨hnamed, hother, -⟩ := beginRegister_eq_ok_iff.1 hbegin
    exact absurd h (not_or.2 ⟨hnamed, hother⟩)

/-- A registration changes nothing, or registers the node together with the link to it. -/
theorem register_cases (hlocal : plane.registry.contains plane.localId = true) (id address : String)
    (metadata : NameMap String) (metric : Int64) :
    (plane.register id address metadata metric).1 = plane ∨
      id ≠ "" ∧ id ≠ plane.localId ∧
        (plane.register id address metadata metric).1 = gaugeNodes { plane with
          registry := (plane.registry.insert id address metadata).modify plane.localId
            (·.addLink id metric) } := by
  by_cases hrefused : id = "" ∨ id = plane.localId
  · obtain ⟨cause, hregister⟩ := register_refused hrefused address metadata metric
    exact .inl (congrArg Prod.fst hregister)
  · obtain ⟨hnamed, hother⟩ := not_or.1 hrefused
    have hregister := register_eq hlocal hnamed hother address metadata metric
    exact .inr ⟨hnamed, hother, congrArg Prod.fst hregister⟩

/-- Whether the local node is registered or not, a registration changes the registry and the gauge
of nodes only. -/
theorem register_frame (plane : ControlPlane) (id address : String) (metadata : NameMap String)
    (metric : Int64) :
    (plane.register id address metadata metric).1 =
      { plane with
        registry := (plane.register id address metadata metric).1.registry
        metrics := { plane.metrics with
          nodes := (plane.register id address metadata metric).1.metrics.nodes } } := by
  cases hbegin : plane.beginRegister id address metadata with
  | error cause =>
    rw [register, hbegin]
  | ok begun =>
    obtain ⟨-, -, rfl⟩ := beginRegister_eq_ok_iff.1 hbegin
    rw [register, hbegin]
    exact finishRegister_frame _ id metric

/-- A removal begins for every id but the local one, registered or not. -/
theorem beginRemove_eq_ok_iff {begun : ControlPlane} :
    plane.beginRemove id = .ok begun ↔ id ≠ plane.localId ∧ plane.unregister id = begun := by
  by_cases hlocal : id = plane.localId
  · simp [beginRemove, hlocal]
  · simp [beginRemove, hlocal]

/-- Both gauges are set after a removal, also if there was nothing to remove. -/
theorem remove_eq (hother : id ≠ plane.localId) :
    plane.remove id =
      (gaugeRoutes (gaugeNodes { plane with
        registry := plane.registry.remove id
        routes := (plane.routes.deleteByRouter id).1 }), .ok (plane.routes.table.routesOf id)) := by
  rw [remove, beginRemove_eq_ok_iff.2 ⟨hother, rfl⟩]
  rfl

theorem localId_remove (hother : id ≠ plane.localId) :
    (plane.remove id).1.localId = plane.localId := by
  rw [remove_eq hother]
  rfl

theorem registry_remove (hother : id ≠ plane.localId) :
    (plane.remove id).1.registry = plane.registry.remove id := by
  rw [remove_eq hother]
  rfl

theorem remove_local (plane : ControlPlane) :
    plane.remove plane.localId = (plane, .error .localNodeStays) := by
  rw [remove, beginRemove, if_pos rfl]

/-- The events of an advert change the routes only. -/
theorem advanceBy_frame (plane : ControlPlane) (intake : Intake) (count : ℕ) :
    (plane.advanceBy intake count).1 =
      { plane with routes := (plane.advanceBy intake count).1.routes } ∧
    (plane.advanceBy intake count).2.router = intake.router := by
  induction count generalizing plane intake with
  | zero => exact ⟨rfl, rfl⟩
  | succ count ih =>
    obtain ⟨router, pending, failure⟩ := intake
    cases pending with
    | nil => exact ih plane ⟨router, [], failure⟩
    | cons event pending =>
      let next := (plane.applyEvent router event).1
      let intake : Intake := ⟨router, pending, failure.or (plane.applyEvent router event).2⟩
      obtain ⟨hplane, hrouter⟩ := ih next intake
      have hnext : next = { plane with routes := next.routes } := applyEvent_frame plane router event
      refine ⟨?_, hrouter⟩
      calc (next.advanceBy intake count).1
        _ = { next with routes := (next.advanceBy intake count).1.routes } := hplane
        _ = { plane with routes := (next.advanceBy intake count).1.routes } := by rw [hnext]

/-- However far an advert has come, it has added no routes but those of its router. -/
theorem mem_advanceBy {intake : Intake} {count : ℕ} {route : Route}
    (h : route ∈ (plane.advanceBy intake count).1.routes.table.routes) :
    route ∈ plane.routes.table.routes ∨ route.router = intake.router := by
  induction count generalizing plane intake with
  | zero => exact .inl h
  | succ count ih =>
    obtain ⟨router, pending, failure⟩ := intake
    cases pending with
    | nil => exact ih h
    | cons event pending =>
      rcases ih h with hmem | hrouter
      · exact mem_applyEvent hmem
      · exact .inr hrouter

/-- An advert of a registered router is taken in event by event, and the router is then found. -/
theorem process_of_registered {advert : Advert} (hlocal : advert.id ≠ plane.localId)
    (hregistered : plane.registry.contains advert.id = true) :
    (plane.process advert).1 =
      gaugeRoutes (plane.advanceBy ⟨advert.id, advert.events, none⟩ advert.events.length).1 := by
  obtain ⟨hframe, hrouter⟩ :=
    plane.advanceBy_frame ⟨advert.id, advert.events, none⟩ advert.events.length
  have hfound : (plane.advanceBy ⟨advert.id, advert.events, none⟩
      advert.events.length).1.registry.contains advert.id = true := by
    rw [hframe]
    exact hregistered
  simp only [process, receive, if_neg hlocal, if_pos hregistered, complete, settle, hrouter,
    if_pos hfound]

/-- Any other advert changes nothing. -/
theorem process_of_not_registered {advert : Advert}
    (h : ¬(advert.id ≠ plane.localId ∧ plane.registry.contains advert.id = true)) :
    (plane.process advert).1 = plane := by
  by_cases hlocal : advert.id = plane.localId
  · simp only [process, receive, if_pos hlocal]
  · have hregistered : ¬plane.registry.contains advert.id = true := fun hcontains ↦
      h ⟨hlocal, hcontains⟩
    simp only [process, receive, if_neg hlocal, if_neg hregistered]

/-- An advert changes nothing, or the routes and afterwards their gauge. -/
theorem process_cases (plane : ControlPlane) (advert : Advert) :
    (plane.process advert).1 = plane ∨
      (plane.process advert).1 =
        gaugeRoutes { plane with routes := (plane.process advert).1.routes } := by
  by_cases hadmitted : advert.id ≠ plane.localId ∧ plane.registry.contains advert.id = true
  · rw [process_of_registered hadmitted.1 hadmitted.2,
      (plane.advanceBy_frame ⟨advert.id, advert.events, none⟩ advert.events.length).1]
    exact .inr rfl
  · exact .inl (process_of_not_registered hadmitted)

/-- An advert touches the routes and their gauge, and nothing else. -/
theorem process_frame (plane : ControlPlane) (advert : Advert) :
    (plane.process advert).1 =
      { plane with
        routes := (plane.process advert).1.routes
        metrics := (plane.process advert).1.metrics } := by
  rcases plane.process_cases advert with hsame | hgauged
  · rw [hsame]
  · rw [hgauged]
    rfl

/-- An advert adds no routes but those of its router, which is registered then. -/
theorem mem_process {advert : Advert} {route : Route}
    (h : route ∈ (plane.process advert).1.routes.table.routes) :
    route ∈ plane.routes.table.routes ∨ plane.registry.contains route.router = true := by
  by_cases hadmitted : advert.id ≠ plane.localId ∧ plane.registry.contains advert.id = true
  · rw [process_of_registered hadmitted.1 hadmitted.2] at h
    apply (mem_advanceBy h).imp_right
    rintro hrouter
    rw [hrouter]
    exact hadmitted.2
  · rw [process_of_not_registered hadmitted] at h
    exact .inl h

/-- A connect changes neither the registry nor the routes. -/
theorem connect_frame (plane : ControlPlane) (request : ConnectRequest)
    (answer : Except TransportError Unit) :
    (plane.connect request answer).1 =
      { plane with
        peers := (plane.connect request answer).1.peers
        state := (plane.connect request answer).1.state
        metrics := (plane.connect request answer).1.metrics } := by
  cases answer <;> rfl

end ServiceMesh.ControlPlane

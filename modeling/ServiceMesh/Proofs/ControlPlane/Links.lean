import ServiceMesh.Proofs.ControlPlane.Anchor
import ServiceMesh.Proofs.Topology.Edges

/-!
# Links between registered nodes

A link may be made to an id that is not registered.  Where this is not done, no link leads to an
unregistered id later either: a registration makes its link once the node is there, and a removal
takes the links from and to the node away with it.  From the local node, which reaches every other
one, a walk then meets all the links there are.
-/

namespace ServiceMesh

namespace Registry

def LinksRegistered (registry : Registry) : Prop :=
  ∀ source target, (registry.linkMetric? source target).isSome = true →
    registry.contains target = true

namespace LinksRegistered

variable {registry : Registry}

theorem start (id address : String) (metadata : NameMap String) :
    (insert {} id address metadata).LinksRegistered := by
  intro source target hlink
  rw [linkMetric?_insert] at hlink
  cases hlink

theorem addLink (h : registry.LinksRegistered) {source target : String}
    (hsource : registry.contains source = true) (htarget : registry.contains target = true)
    (metric : Int64) : (registry.modify source (·.addLink target metric)).LinksRegistered := by
  intro one other hlink
  rw [contains_modify]
  rw [linkMetric?_addLink hsource] at hlink
  split at hlink
  · next hends =>
    rw [hends.2]
    exact htarget
  · exact h one other hlink

/-- A new node has no links, and makes no others lead astray. -/
theorem insert (h : registry.LinksRegistered) (id address : String) (metadata : NameMap String) :
    (registry.insert id address metadata).LinksRegistered := by
  intro source target hlink
  rw [linkMetric?_insert] at hlink
  exact (contains_insert _ _ _ _ _).2 (.inr (h source target hlink))

/-- A removed node takes the links to it with it. -/
theorem remove (h : registry.LinksRegistered) (id : String) :
    (registry.remove id).LinksRegistered := by
  cases hregistered : registry.contains id with
  | false => rwa [remove_of_not_contains hregistered]
  | true =>
    intro source target hlink
    rw [linkMetric?_remove hregistered] at hlink
    split at hlink
    · cases hlink
    · next hends =>
      exact (contains_remove _ _ _).2 ⟨(not_or.1 hends).2, h source target hlink⟩

end LinksRegistered

/-- If all links lead to registered nodes, a walk from the anchor inspects them all. -/
theorem Anchored.mem_edges_iff {registry : Registry} {anchor : String}
    (h : registry.Anchored anchor) (hlinks : registry.LinksRegistered) {edge : Edge} :
    edge ∈ registry.edges anchor ↔
      registry.linkMetric? edge.source edge.target = some edge.metric := by
  rw [Registry.mem_edges_iff h.registered, mem_liveLinks_iff]
  constructor
  · rintro ⟨-, hlink, -⟩
    exact hlink
  · intro hlink
    have htarget := hlinks edge.source edge.target (hlink ▸ rfl)
    refine ⟨?_, hlink, htarget⟩
    by_cases hsource : edge.source = anchor
    · rw [hsource]
      exact .refl
    · obtain ⟨node, hnode, -⟩ := Option.bind_eq_some_iff.1 hlink
      have hcontains : registry.contains edge.source = true :=
        Option.isSome_iff_exists.2 ⟨node, hnode⟩
      exact .single (h.hop hcontains hsource)

end Registry

namespace ControlPlane

variable {plane : ControlPlane}

/-- An operation makes no link to an unregistered id, unless it is just this link. -/
theorem linksRegistered_perform (hlocal : plane.registry.contains plane.localId = true)
    (h : plane.registry.LinksRegistered) {operation : Operation}
    (hlink : ∀ source target metric, operation = .link source target metric →
      (plane.link source target metric).2 = none → plane.registry.contains target = true) :
    (plane.perform operation).registry.LinksRegistered := by
  cases operation with
  | register id address metadata metric =>
    rcases register_cases hlocal id address metadata metric with hsame | ⟨-, -, hregister⟩
    · rwa [perform, hsame]
    · rw [perform, hregister]
      have hcontains := Registry.contains_insert plane.registry id address metadata
      exact (h.insert id address metadata).addLink ((hcontains _).2 (.inr hlocal))
        ((hcontains _).2 (.inl rfl)) metric
  | link source target metric =>
    have hmade := hlink source target metric rfl
    rw [perform]
    unfold link at hmade ⊢
    split
    · next hsource =>
      rw [if_pos hsource] at hmade
      exact h.addLink hsource (hmade rfl) metric
    · exact h
  | remove id =>
    by_cases hother : id = plane.localId
    · rwa [perform, hother, remove_local]
    · rw [perform, remove_eq hother]
      exact h.remove id
  | advert advert =>
    rw [perform, process_frame]
    exact h
  | connect request answer =>
    rw [perform, connect_frame]
    exact h

/-- As long as every link that is made leads to a registered node, all links do. -/
theorem linksRegistered_run (hanchored : plane.registry.Anchored plane.localId)
    (h : plane.registry.LinksRegistered) {operations : List Operation}
    (hlinks : ∀ index source target metric,
      operations[index]? = some (.link source target metric) →
      ((plane.run (operations.take index)).link source target metric).2 = none →
      (plane.run (operations.take index)).registry.contains target = true) :
    (plane.run operations).registry.LinksRegistered := by
  induction operations generalizing plane with
  | nil => exact h
  | cons operation operations ih =>
    refine ih (anchored_perform hanchored operation)
      (linksRegistered_perform hanchored.registered h ?_) fun index ↦ ?_
    · rintro source target metric rfl
      exact hlinks 0 source target metric rfl
    · exact hlinks (index + 1)

/-- Let a new control plane be driven by any operations, among which each link that is made leads to
a node that is registered then.  Then every link of every registered node leads to a registered node,
and a walk from the local node inspects each link there is, with its metric, and none twice. -/
theorem links_lead_to_nodes (id address : String) (operations : List Operation)
    (hlinks : ∀ index source target metric,
      operations[index]? = some (.link source target metric) →
      let before := (start id address).run (operations.take index)
      (before.link source target metric).2 = none → before.registry.contains target = true) :
    let plane := (start id address).run operations
    (∀ source target metric, plane.registry.linkMetric? source target = some metric →
      plane.registry.contains target = true) ∧
    (∀ edge, edge ∈ plane.registry.edges id ↔
      plane.registry.linkMetric? edge.source edge.target = some edge.metric) ∧
    ((plane.registry.edges id).map fun edge ↦ (edge.source, edge.target)).Nodup := by
  intro plane
  have hlinked : plane.registry.LinksRegistered :=
    linksRegistered_run (anchored_start id address) (.start id address ∅) hlinks
  have hanchored : plane.registry.Anchored id := (anchored_start_run id address operations).2
  refine ⟨fun source target metric hlink ↦ ?_, fun edge ↦ hanchored.mem_edges_iff hlinked,
    Registry.nodup_edges _ _⟩
  exact hlinked source target (hlink ▸ rfl)

/-- A node has a link to itself, is linked to and from, and goes and comes back. -/
def rejoining : List Operation :=
  [.register "a" "a:1" ∅ 1, .register "b" "b:1" ∅ 2, .link "a" "a" 3, .link "a" "b" 4,
    .link "b" "n" 5, .link "c" "d" 6, .remove "b", .register "b" "b:2" ∅ 7, .link "b" "a" 8]

theorem links_lead_to_nodes_rejoining :
    let plane := (start "n" "n:1").run rejoining
    plane.registry.edges "n" =
        [⟨"n", "a", 1⟩, ⟨"n", "b", 7⟩, ⟨"a", "a", 3⟩, ⟨"b", "a", 8⟩] ∧
      plane.registry.linkMetric? "a" "b" = none := by
  intro plane
  have hedges : plane.registry.edges "n" =
      [⟨"n", "a", 1⟩, ⟨"n", "b", 7⟩, ⟨"a", "a", 3⟩, ⟨"b", "a", 8⟩] := by
    decide +kernel
  obtain ⟨-, hmem, -⟩ := links_lead_to_nodes "n" "n:1" rejoining (by
    intro index source target metric hlink
    match index with
    | 0 | 1 | 6 | 7 => cases hlink
    | 2 | 3 | 4 | 8 =>
      cases hlink
      exact fun _ ↦ by decide +kernel
    | 5 =>
      -- the source is not registered, so no link is made
      cases hlink
      exact fun hmade ↦ absurd hmade (by decide +kernel)
    | _ + 9 => cases hlink)
  refine ⟨hedges, Option.eq_none_iff_forall_ne_some.2 fun metric hlink ↦ ?_⟩
  have hedge := (hmem ⟨"a", "b", metric⟩).2 hlink
  rw [hedges] at hedge
  simp at hedge

end ControlPlane

end ServiceMesh

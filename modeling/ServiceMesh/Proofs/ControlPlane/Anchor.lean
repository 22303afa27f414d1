import ServiceMesh.Proofs.ControlPlane.Operations
import ServiceMesh.Proofs.Topology.Tree
import ServiceMesh.Proofs.Topology.Walk

/-!
# The local node anchors the topology

The local node is registered at the start and never removed.  A node is registered together with a
link to it from the local node, and that link goes only when the node goes.  So a walk from the local
node meets all registered nodes in its first step.
-/

namespace ServiceMesh

namespace Registry

/-- The anchor is registered and has a link to every other registered node. -/
structure Anchored (registry : Registry) (anchor : String) : Prop where
  registered : registry.contains anchor = true
  linked : ∀ id, registry.contains id = true → id ≠ anchor →
    (registry.linkMetric? anchor id).isSome = true

namespace Anchored

variable {registry registry' : Registry} {anchor : String}

theorem start (anchor address : String) (metadata : NameMap String) :
    (insert {} anchor address metadata).Anchored anchor where
  registered := (contains_insert _ _ _ _ _).2 (.inl rfl)
  linked id hcontains hother := by
    rw [contains_insert] at hcontains
    rcases hcontains with heq | hcontains
    · exact absurd heq hother
    · cases hcontains

/-- A link from any node takes none of the anchor's away. -/
theorem addLink (h : registry.Anchored anchor) {source : String}
    (hsource : registry.contains source = true) (target : String) (metric : Int64) :
    (registry.modify source (·.addLink target metric)).Anchored anchor where
  registered := by rw [contains_modify, h.registered]
  linked id hcontains hother := by
    rw [contains_modify] at hcontains
    rw [linkMetric?_addLink hsource]
    split
    · rfl
    · exact h.linked id hcontains hother

/-- A new node is linked to as soon as it is registered. -/
theorem register (h : registry.Anchored anchor) (id address : String)
    (metadata : NameMap String) (metric : Int64) :
    ((registry.insert id address metadata).modify anchor (·.addLink id metric)).Anchored anchor := by
  have hanchor : (registry.insert id address metadata).contains anchor = true :=
    (contains_insert _ _ _ _ _).2 (.inr h.registered)
  constructor
  · rw [contains_modify, hanchor]
  · intro other hcontains hother
    rw [contains_modify, contains_insert] at hcontains
    rw [linkMetric?_addLink hanchor, linkMetric?_insert]
    split
    · rfl
    · next hlink =>
      have hne : other ≠ id := fun heq ↦ hlink ⟨rfl, heq⟩
      exact h.linked other (hcontains.resolve_left hne) hother

/-- With a node goes the link to it, and the anchor itself is never removed. -/
theorem remove (h : registry.Anchored anchor) {id : String} (hother : id ≠ anchor) :
    (registry.remove id).Anchored anchor := by
  cases hregistered : registry.contains id with
  | false => rwa [remove_of_not_contains hregistered]
  | true =>
    constructor
    · exact (contains_remove _ _ _).2 ⟨hother.symm, h.registered⟩
    · intro other hcontains hne
      obtain ⟨hkept, hcontains⟩ := (contains_remove _ _ _).1 hcontains
      rw [linkMetric?_remove hregistered, if_neg (not_or.2 ⟨hother.symm, hkept⟩)]
      exact h.linked other hcontains hne

/-- No change that an operation can make to the registry moves the anchor. -/
theorem change (h : registry.Anchored anchor) (hchange : RegistryChange anchor registry registry') :
    registry'.Anchored anchor := by
  cases hchange with
  | nothing => exact h
  | registered id address metadata metric _ _ => exact h.register id address metadata metric
  | linked source target metric hsource => exact h.addLink hsource target metric
  | removed id hother => exact h.remove hother

/-- From the anchor every other registered node is one hop away. -/
theorem hop (h : registry.Anchored anchor) {id : String} (hcontains : registry.contains id = true)
    (hother : id ≠ anchor) : registry.Hop anchor id :=
  hop_iff.2 ⟨h.linked id hcontains hother, hcontains⟩

/-- The first step discovers all registered nodes but the anchor. -/
theorem undiscovered_eq (h : registry.Anchored anchor) :
    undiscovered [anchor] (registry.liveLinks anchor) = registry.ids.filter (· ≠ anchor) := by
  have hids : (registry.ids.filter (· ≠ anchor)).Pairwise (· < ·) :=
    (NameMap.names_ascending registry.nodes).filter _
  apply (undiscovered_ascending registry [anchor] anchor).eq_of_mem_iff hids
  intro id
  simp only [mem_undiscovered_iff, List.mem_singleton, List.mem_filter, decide_eq_true_eq,
    mem_ids_iff]
  apply and_congr_left
  intro hother
  exact ⟨Hop.registered, fun hcontains ↦ h.hop hcontains hother⟩

end Anchored

variable {registry : Registry}

/-- Once all registered nodes are seen, nothing more is discovered. -/
theorem discovered_expand_of_seen {seen : List String}
    (h : ∀ id, registry.contains id = true → id ∈ seen) (fuel : ℕ) (stack : List String) :
    (registry.expand fuel stack seen).flatMap Expansion.discovered = [] := by
  induction fuel generalizing stack with
  | zero => rfl
  | succ fuel ih =>
    cases stack with
    | nil => rfl
    | cons id stack =>
      have hnone : undiscovered seen (registry.liveLinks id) = [] := by
        rw [List.eq_nil_iff_forall_not_mem]
        intro target hmem
        obtain ⟨hhop, hfresh⟩ := mem_undiscovered_iff.1 hmem
        exact hfresh (h target hhop.registered)
      rw [expand, List.flatMap_cons, hnone, List.append_nil]
      exact ih _

/-- A walk from the anchor discovers all nodes at once, in ascending order. -/
theorem Anchored.reachableIds_eq {anchor : String} (h : registry.Anchored anchor) :
    registry.reachableIds anchor = anchor :: registry.ids.filter (· ≠ anchor) := by
  have hsize : 1 ≤ registry.size :=
    length_le_size (List.nodup_singleton anchor) fun id hmem ↦
      List.mem_singleton.1 hmem ▸ h.registered
  have hseen : ∀ id, registry.contains id = true →
      id ∈ [anchor] ++ registry.ids.filter (· ≠ anchor) := by
    intro id hcontains
    by_cases hanchor : id = anchor
    · simp [hanchor]
    · simp [hanchor, mem_ids_iff, hcontains]
  obtain ⟨fuel, hfuel⟩ := Nat.exists_eq_add_of_le' hsize
  rw [reachableIds_eq_cons h.registered, hfuel, expand, List.flatMap_cons, h.undiscovered_eq,
    discovered_expand_of_seen hseen, List.append_nil]

end Registry

namespace ControlPlane

variable {plane : ControlPlane}

theorem anchored_start (id address : String) :
    (start id address).registry.Anchored (start id address).localId :=
  .start id address ∅

theorem anchored_perform (h : plane.registry.Anchored plane.localId) (operation : Operation) :
    (plane.perform operation).registry.Anchored (plane.perform operation).localId := by
  obtain ⟨hlocal, hchange⟩ := perform_spec h.registered operation
  exact hlocal ▸ h.change hchange

/-- Operations keep the local node, and keep it the anchor. -/
theorem anchored_run (h : plane.registry.Anchored plane.localId) (operations : List Operation) :
    (plane.run operations).localId = plane.localId ∧
      (plane.run operations).registry.Anchored plane.localId := by
  induction operations generalizing plane with
  | nil => exact ⟨rfl, h⟩
  | cons operation operations ih =>
    have hlocal := (perform_spec h.registered operation).1
    obtain ⟨hid, hanchored⟩ := ih (anchored_perform h operation)
    exact ⟨hid.trans hlocal, hlocal ▸ hanchored⟩

/-- After any operations on a new control plane its local node is the anchor. -/
theorem anchored_start_run (id address : String) (operations : List Operation) :
    ((start id address).run operations).localId = id ∧
      ((start id address).run operations).registry.Anchored id :=
  anchored_run (anchored_start id address) operations

theorem graph_of_registered (h : plane.registry.contains plane.localId = true)
    (request : GraphRequest) : ∃ tree, plane.graph request = .ok tree ∧ tree.id = plane.localId := by
  have htree := Registry.tree_eq_outline h request.depth.toNat
  exact ⟨_, by rw [graph, htree], Registry.id_outline _ _ _ _⟩

/-- Registrations are refused for no other reasons than these two. -/
theorem register_fails_iff (h : plane.registry.contains plane.localId = true)
    (id address : String) (metadata : NameMap String) (metric : Int64) :
    (plane.register id address metadata metric).2.isSome = true ↔ id = "" ∨ id = plane.localId := by
  by_cases hrefused : id = "" ∨ id = plane.localId
  · obtain ⟨cause, hregister⟩ := register_refused hrefused address metadata metric
    simp [hregister, hrefused]
  · obtain ⟨hnamed, hother⟩ := not_or.1 hrefused
    simp [register_eq h hnamed hother, hnamed, hother]

/-- Let a new control plane be driven by any operations.  Its local node stays registered and has a
link to every other registered node.  So a topology tree can always be had and has the local node at
its root, the nodes listed are the local one and then all others, each once, and a registration is
refused only for the empty id and the local one. -/
theorem local_node_anchors (id address : String) (operations : List Operation) :
    let plane := (start id address).run operations
    plane.localId = id ∧
    plane.registry.contains id = true ∧
    (∀ other, plane.registry.contains other = true → other ≠ id →
      ∃ node, plane.registry.get? id = some node ∧ node.hasLink other = true) ∧
    (∀ request, ∃ tree, plane.graph request = .ok tree ∧ tree.id = id) ∧
    (∃ rest, plane.nodes.map NodeView.id = id :: rest) ∧
    (plane.nodes.map NodeView.id).Nodup ∧
    (∀ other, other ∈ plane.nodes.map NodeView.id ↔ plane.registry.contains other = true) ∧
    ∀ other address metadata metric,
      (plane.register other address metadata metric).2.isSome = true ↔ other = "" ∨ other = id := by
  intro plane
  obtain ⟨hlocal, hanchored⟩ := anchored_start_run id address operations
  have hregistered : plane.registry.contains plane.localId = true := by
    rw [hlocal]
    exact hanchored.registered
  have hnodes : plane.nodes.map NodeView.id = id :: plane.registry.ids.filter (· ≠ id) := by
    rw [nodes, Registry.map_id_flatten hregistered, hlocal]
    exact hanchored.reachableIds_eq
  refine ⟨hlocal, hanchored.registered, fun other hcontains hother ↦ ?_, fun request ↦ ?_,
    ⟨_, hnodes⟩, ?_, fun other ↦ ?_, fun other address metadata metric ↦ ?_⟩
  · exact (hanchored.hop hcontains hother).1
  · rw [← hlocal]
    exact graph_of_registered hregistered request
  · rw [nodes, Registry.map_id_flatten hregistered]
    exact (Registry.frontier_reachableIds hregistered).nodup
  · simp only [hnodes, List.mem_cons, List.mem_filter, decide_eq_true_eq, Registry.mem_ids_iff]
    by_cases hother : other = id
    · simp only [hother, true_or, true_iff]
      exact hanchored.registered
    · simp only [hother, false_or, not_false_eq_true, and_true, ne_eq]
  · rw [← hlocal]
    exact register_fails_iff hregistered other address metadata metric

end ControlPlane

end ServiceMesh

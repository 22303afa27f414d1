import Mathlib.Data.List.Nodup
import Mathlib.Data.List.Perm.Subperm
import Mathlib.Logic.Relation
import ServiceMesh.Proofs.Registered
import ServiceMesh.Registry

/-!
# Hops between registered nodes

A hop follows a link of a registered node to a registered target; links to other targets lead
nowhere.  Walks and trees look at the targets of a node's hops in ascending order and take those
that they have not seen.
-/

namespace ServiceMesh.Registry

/-- A registered node has a link to another one, or to itself. -/
def Hop (registry : Registry) (source target : String) : Prop :=
  (∃ node, registry.get? source = some node ∧ node.hasLink target = true) ∧
    registry.contains target = true

def Reaches (registry : Registry) : String → String → Prop :=
  Relation.ReflTransGen registry.Hop

def ofLinks (ids : List String) (links : List (String × String)) : Registry :=
  let nodes := ids.foldl (fun registry id ↦ registry.insert id (id ++ ":1") ∅) {}
  links.foldl (fun registry link ↦ registry.modify link.1 (·.addLink link.2 1)) nodes

variable {registry : Registry}

theorem hop_iff {source target : String} :
    registry.Hop source target ↔
      (registry.linkMetric? source target).isSome = true ∧ registry.contains target = true := by
  apply and_congr_left'
  unfold linkMetric? Node.hasLink NameMap.contains
  cases registry.get? source <;> simp

/-- The live links of a node are its hops. -/
theorem mem_liveTargets_iff {source target : String} :
    target ∈ (registry.liveLinks source).map Prod.fst ↔ registry.Hop source target := by
  unfold liveLinks Hop
  cases hget : registry.get? source with
  | none => simp
  | some node =>
    simp only [List.mem_map, List.mem_filter, Prod.exists, exists_and_right, exists_eq_right,
      Option.some_inj, exists_eq_left', Node.hasLink, NameMap.contains_iff]

theorem liveTargets_ascending (registry : Registry) (id : String) :
    ((registry.liveLinks id).map Prod.fst).Pairwise (· < ·) := by
  unfold liveLinks
  cases registry.get? id with
  | none => exact .nil
  | some node => exact List.pairwise_map.2 (node.links.ascending.filter _)

section Undiscovered

variable {seen : List String} {id target : String}

/-- A node discovers the targets of its hops that are not seen yet. -/
theorem mem_undiscovered_iff :
    target ∈ undiscovered seen (registry.liveLinks id) ↔
      registry.Hop id target ∧ target ∉ seen := by
  rw [undiscovered, List.mem_filter, mem_liveTargets_iff, decide_eq_true_iff]

/-- Targets are discovered in ascending order, as names are. -/
theorem undiscovered_ascending (registry : Registry) (seen : List String) (id : String) :
    (undiscovered seen (registry.liveLinks id)).Pairwise (· < ·) :=
  (registry.liveTargets_ascending id).filter _

theorem nodup_undiscovered (registry : Registry) (seen : List String) (id : String) :
    (undiscovered seen (registry.liveLinks id)).Nodup :=
  (undiscovered_ascending registry seen id).nodup

/-- What is seen stays free of duplicates. -/
theorem nodup_append_undiscovered (h : seen.Nodup) (id : String) :
    (seen ++ undiscovered seen (registry.liveLinks id)).Nodup :=
  h.append (nodup_undiscovered registry seen id) fun _ hseen hmem ↦
    (mem_undiscovered_iff.1 hmem).2 hseen

end Undiscovered

theorem Hop.registered {source target : String} (h : registry.Hop source target) :
    registry.contains target = true :=
  h.2

/-- What a registered root reaches is registered. -/
theorem Reaches.registered {root id : String} (h : registry.Reaches root id)
    (hroot : registry.contains root = true) : registry.contains id = true := by
  cases h with
  | refl => exact hroot
  | tail _ hhop => exact hhop.registered

/-- There are no more registered ids than the registry is large. -/
theorem length_le_size {ids : List String} (hnodup : ids.Nodup)
    (h : ∀ id ∈ ids, registry.contains id = true) : ids.length ≤ registry.size := by
  have hsubset : ids ⊆ registry.nodes.names := fun id hmem ↦ NameMap.mem_names_iff.2 (h id hmem)
  have hlength := (hnodup.subperm hsubset).length_le
  rwa [NameMap.names, List.length_map] at hlength

theorem view?_eq_some_iff {id : String} {view : NodeView} :
    registry.view? id = some view ↔
      id = view.id ∧ ∃ node, registry.get? id = some node ∧ node.address = view.address := by
  rw [view?, Option.map_eq_some_iff]
  constructor
  · rintro ⟨node, hget, rfl⟩
    exact ⟨rfl, node, hget, rfl⟩
  · rintro ⟨rfl, node, hget, haddress⟩
    exact ⟨node, hget, by rw [haddress]⟩

/-- The views of registered nodes are views of just these nodes. -/
theorem map_id_filterMap_view? {ids : List String}
    (h : ∀ id ∈ ids, registry.contains id = true) :
    (ids.filterMap registry.view?).map NodeView.id = ids := by
  induction ids with
  | nil => rfl
  | cons id ids ih =>
    obtain ⟨node, hget⟩ := exists_get?_of_contains (h id List.mem_cons_self)
    have hview : registry.view? id = some ⟨id, node.address⟩ :=
      view?_eq_some_iff.2 ⟨rfl, node, hget, rfl⟩
    rw [List.filterMap_cons_some hview, List.map_cons,
      ih fun other hmem ↦ h other (List.mem_cons_of_mem _ hmem)]

end ServiceMesh.Registry

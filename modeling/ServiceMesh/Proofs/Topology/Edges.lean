import Mathlib.Data.List.Nodup
import ServiceMesh.Proofs.Topology.Walk

/-!
# The links that a walk inspects

A node is put on the stack when it is discovered, and only then, so a walk expands each node that it
reaches once.  It inspects the links of the nodes that it expands, and of these all that lead to a
registered node, whether that was seen before or not.
-/

namespace ServiceMesh.Registry

variable {registry : Registry} {root : String} {stack seen : List String} {fuel : ℕ}

/-- A live link leads to a registered node. -/
theorem mem_liveLinks_iff {source target : String} {metric : Int64} :
    (target, metric) ∈ registry.liveLinks source ↔
      registry.linkMetric? source target = some metric ∧ registry.contains target = true := by
  unfold liveLinks linkMetric?
  cases registry.get? source with
  | none => simp
  | some node => simp [NameMap.get?_eq_some_iff]

theorem links_of_mem_expand {expansion : Expansion}
    (h : expansion ∈ registry.expand fuel stack seen) :
    expansion.links = registry.liveLinks expansion.id := by
  induction fuel generalizing stack seen with
  | zero => cases h
  | succ fuel ih =>
    cases stack with
    | nil => cases h
    | cons id stack =>
      rcases List.mem_cons.1 h with rfl | h
      · rfl
      · exact ih h

/-- What is expanded is what waits at the start and what is discovered later. -/
theorem Frontier.expanded_perm (h : Frontier registry stack seen)
    (hfuel : registry.size + stack.length ≤ fuel + seen.length) :
    ((registry.expand fuel stack seen).map Expansion.id).Perm
      (stack ++ (registry.expand fuel stack seen).flatMap Expansion.discovered) := by
  apply h.walk_induction hfuel (motive := fun fuel stack seen ↦
    ((registry.expand fuel stack seen).map Expansion.id).Perm
      (stack ++ (registry.expand fuel stack seen).flatMap Expansion.discovered))
  · intro fuel seen _
    rw [expand_nil]
    exact .refl _
  · intro fuel id stack seen _ hnext
    let found := undiscovered seen (registry.liveLinks id)
    let later := registry.expand fuel (found ++ stack) (seen ++ found)
    have hmoved : ((found ++ stack) ++ later.flatMap Expansion.discovered).Perm
        (stack ++ (found ++ later.flatMap Expansion.discovered)) := by
      rw [← List.append_assoc stack]
      exact List.perm_append_comm.append_right _
    exact (hnext.trans hmoved).cons id

/-- Each node that is reached is expanded, and none twice. -/
theorem expanded_perm (h : registry.contains root = true) :
    ((registry.walk root).map Expansion.id).Perm (registry.reachableIds root) := by
  rw [reachableIds_eq_cons h, walk, if_pos h]
  exact (Frontier.start h).expanded_perm (Nat.le_refl _)

theorem links_of_mem_walk {expansion : Expansion} (h : expansion ∈ registry.walk root) :
    expansion.links = registry.liveLinks expansion.id := by
  unfold walk at h
  split at h
  · exact links_of_mem_expand h
  · cases h

theorem nodup_expanded (registry : Registry) (root : String) :
    ((registry.walk root).map Expansion.id).Nodup := by
  by_cases h : registry.contains root = true
  · exact (expanded_perm h).nodup_iff.2 (frontier_reachableIds h).nodup
  · rw [walk, if_neg h]
    exact List.nodup_nil

theorem mem_edges_iff (h : registry.contains root = true) {edge : Edge} :
    edge ∈ registry.edges root ↔
      registry.Reaches root edge.source ∧
        (edge.target, edge.metric) ∈ registry.liveLinks edge.source := by
  have hexpanded (id : String) :
      (∃ expansion ∈ registry.walk root, expansion.id = id) ↔ registry.Reaches root id := by
    rw [← mem_reachableIds_iff h, ← (expanded_perm h).mem_iff, List.mem_map]
  rw [edges, List.mem_flatMap, ← hexpanded]
  constructor
  · rintro ⟨expansion, hmem, hedge⟩
    obtain ⟨link, hlink, rfl⟩ := List.mem_map.1 hedge
    rw [links_of_mem_walk hmem] at hlink
    exact ⟨⟨expansion, hmem, rfl⟩, hlink⟩
  · rintro ⟨⟨expansion, hmem, hid⟩, hlink⟩
    refine ⟨expansion, hmem, List.mem_map.2 ⟨(edge.target, edge.metric), ?_, ?_⟩⟩
    · rwa [links_of_mem_walk hmem, hid]
    · rw [hid]

/-- The links of a node are inspected together, the lower targets first. -/
theorem edges_ascending (registry : Registry) (root : String) :
    (registry.edges root).Pairwise fun one other ↦
      one.source = other.source → one.target < other.target := by
  refine List.pairwise_flatMap.2 ⟨fun expansion hmem ↦ ?_, ?_⟩
  · have htargets := registry.liveTargets_ascending expansion.id
    rw [← links_of_mem_walk hmem] at htargets
    refine List.pairwise_map.2 ((List.pairwise_map.1 htargets).imp fun {_ _} hlt ↦ ?_)
    exact fun _ ↦ hlt
  · refine (List.pairwise_map.1 (nodup_expanded registry root)).imp fun {one other} hne ↦ ?_
    -- links of different nodes differ in their sources
    intro edge hone edge' hother heq
    obtain ⟨_, -, rfl⟩ := List.mem_map.1 hone
    obtain ⟨_, -, rfl⟩ := List.mem_map.1 hother
    exact absurd heq hne

/-- No link is inspected twice. -/
theorem nodup_edges (registry : Registry) (root : String) :
    ((registry.edges root).map fun edge ↦ (edge.source, edge.target)).Nodup := by
  refine List.pairwise_map.2 ((registry.edges_ascending root).imp fun {one other} hlt heq ↦ ?_)
  obtain ⟨hsource, htarget⟩ := Prod.mk.inj heq
  exact String.lt_irrefl other.target (htarget ▸ hlt hsource)

/-- From a registered root the walk inspects just the links of the nodes that the root reaches, as
far as they lead to registered nodes: each once, with its metric, whether its target was seen before
or not, and those of one node by ascending targets.  From any other root it inspects none. -/
theorem edges_list_links (registry : Registry) (root : String) :
    (registry.contains root = true →
      (∀ source target metric, ⟨source, target, metric⟩ ∈ registry.edges root ↔
        registry.Reaches root source ∧ registry.linkMetric? source target = some metric ∧
          registry.contains target = true) ∧
      (registry.edges root).Nodup ∧
      (registry.edges root).Pairwise fun one other ↦
        one.source = other.source → one.target < other.target) ∧
    (registry.contains root = false → registry.edges root = []) := by
  refine ⟨fun h ↦ ⟨fun source target metric ↦ ?_, (registry.nodup_edges root).of_map _,
    registry.edges_ascending root⟩, fun h ↦ ?_⟩
  · rw [mem_edges_iff h, mem_liveLinks_iff]
  · rw [edges, walk, h]
    rfl

/-- The link of a node to itself is inspected, the one into nowhere is not, and neither is that of a
node outside the ring. -/
theorem edges_list_links_ring :
    ringMesh.contains "a" = true ∧
    ringMesh.edges "a" = [⟨"a", "a", 1⟩, ⟨"a", "c", 1⟩, ⟨"c", "b", 1⟩, ⟨"b", "a", 1⟩] ∧
    ringMesh.Reaches "a" "b" ∧ ringMesh.linkMetric? "d" "a" = some 1 ∧
    ¬ ringMesh.Reaches "a" "d" := by
  have hroot : ringMesh.contains "a" = true := by decide +kernel
  have hlisted : ringMesh.edges "a" =
      [⟨"a", "a", 1⟩, ⟨"a", "c", 1⟩, ⟨"c", "b", 1⟩, ⟨"b", "a", 1⟩] := by
    decide +kernel
  have houtside : ringMesh.linkMetric? "d" "a" = some 1 := by decide +kernel
  obtain ⟨hmem, -, -⟩ := (edges_list_links ringMesh "a").1 hroot
  rw [hlisted] at hmem
  refine ⟨hroot, hlisted, ((hmem "b" "a" 1).1 (by decide)).1, houtside, fun hreaches ↦ ?_⟩
  exact absurd ((hmem "d" "a" 1).2 ⟨hreaches, houtside, hroot⟩) (by decide)

end ServiceMesh.Registry

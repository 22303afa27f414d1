import Mathlib.Data.Set.Card
import Mathlib.Order.Bounds.Basic
import ServiceMesh.Proofs.Topology.Build
import ServiceMesh.Proofs.Topology.Search

/-!
# What a topology tree holds

The generations of a tree are the levels around its root, down to the depth asked for.  So a tree
holds the nodes within this many hops, each once and at its distance, under the first node of the
generation above that links to it.
-/

namespace ServiceMesh.Registry

open GraphNode (generation)

variable {registry : Registry} {root : String} {children : Children}

/-- Below each node at less than a distance stand those that are found there. -/
def Placed (registry : Registry) (root : String) (depth : ℕ) (children : Children) : Prop :=
  ∀ hops < depth, (registry.levels root hops).level.map children.below =
    registry.nextLevel (registry.levels root hops).level (registry.levels root hops).seen

section Placed

variable {depth : ℕ} (h : registry.Placed root depth children)

include h

/-- What stands below a level is the next one. -/
theorem Placed.flatMap_below {hops : ℕ} (hlt : hops < depth) :
    (registry.levels root hops).level.flatMap children.below =
      (registry.levels root (hops + 1)).level := by
  rw [List.flatMap_def, h hops hlt]
  rfl

/-- The generations of a tree are outlined from the levels around its root. -/
theorem generation_outline {hops : ℕ} (hle : hops ≤ depth) :
    generation [registry.outline children depth root] hops =
      (registry.levels root hops).level.map (registry.outline children (depth - hops)) := by
  induction hops with
  | zero => rfl
  | succ hops ih =>
    have hlevels : depth - hops = depth - (hops + 1) + 1 := by omega
    rw [generation, ih (Nat.le_of_succ_le hle), hlevels, flatMap_children_outline_succ,
      h.flatMap_below hle]

theorem generation_outline_eq_nil {hops : ℕ} (hlt : depth < hops) :
    generation [registry.outline children depth root] hops = [] := by
  induction hops with
  | zero => exact absurd hlt (Nat.not_lt_zero depth)
  | succ hops ih =>
    rw [generation]
    rcases Nat.lt_or_eq_of_le (Nat.le_of_lt_succ hlt) with hlt | rfl
    · rw [ih hlt]
      rfl
    · rw [generation_outline h (Nat.le_refl depth), Nat.sub_self, flatMap_children_outline_zero]

/-- The nodes of a generation are those at its distance, down to the depth of the tree. -/
theorem mem_generation_iff (hops : ℕ) (id : String) :
    id ∈ (generation [registry.outline children depth root] hops).map GraphNode.id ↔
      hops ≤ depth ∧ registry.AtDistance root hops id := by
  by_cases hle : hops ≤ depth
  · rw [generation_outline h hle, map_id_outline, (registry.mem_levels_iff root hops).2]
    exact (and_iff_right hle).symm
  · rw [generation_outline_eq_nil h (Nat.lt_of_not_le hle)]
    simp [hle]

theorem ids_outline_perm_above {hops : ℕ} (hle : hops ≤ depth) :
    (registry.outline children depth root).ids.Perm
      ((registry.levels root hops).above ++ GraphNode.forestIds
        ((registry.levels root hops).level.map (registry.outline children (depth - hops)))) := by
  induction hops with
  | zero => exact .of_eq (List.append_nil _).symm
  | succ hops ih =>
    have hroots := GraphNode.forestIds_perm
      ((registry.levels root hops).level.map (registry.outline children (depth - hops)))
    have hlevels : depth - hops = depth - (hops + 1) + 1 := by omega
    rw [map_id_outline, hlevels, flatMap_children_outline_succ, h.flatMap_below hle, ← hlevels]
      at hroots
    refine ((ih (Nat.le_of_succ_le hle)).trans (hroots.append_left _)).trans (.of_eq ?_)
    rw [← List.append_assoc]
    rfl

/-- The ids of a tree are those that are seen down to its depth. -/
theorem ids_outline_perm :
    (registry.outline children depth root).ids.Perm (registry.levels root depth).seen := by
  have hleaves := GraphNode.forestIds_perm
    ((registry.levels root depth).level.map (registry.outline children 0))
  rw [map_id_outline, flatMap_children_outline_zero, GraphNode.forestIds, List.append_nil]
    at hleaves
  have hperm := ids_outline_perm_above h (Nat.le_refl depth)
  rw [Nat.sub_self] at hperm
  exact hperm.trans (hleaves.append_left _)

theorem nodup_ids_outline : (registry.outline children depth root).ids.Nodup :=
  (ids_outline_perm h).nodup_iff.2 (registry.nodup_seen_levels root depth)

/-- A tree holds the nodes within its depth. -/
theorem mem_ids_outline_iff (id : String) :
    id ∈ (registry.outline children depth root).ids ↔
      ∃ hops ≤ depth, registry.AtDistance root hops id :=
  (ids_outline_perm h).mem_iff.trans (registry.mem_seen_levels_iff root depth id)

theorem size_outline :
    (registry.outline children depth root).size =
      {id | ∃ hops ≤ depth, registry.AtDistance root hops id}.ncard := by
  have hset : {id | ∃ hops ≤ depth, registry.AtDistance root hops id} =
      ↑(registry.outline children depth root).ids.toFinset := by
    ext id
    rw [Set.mem_ofPred_eq, List.coe_toFinset, Set.mem_ofPred_eq, mem_ids_outline_iff h]
  rw [hset, Set.ncard_coe_finset, List.toFinset_card_of_nodup (nodup_ids_outline h),
    GraphNode.size_eq_length_ids]

/-- A tree is as deep as the mesh allows, within the depth asked for. -/
theorem isGreatest_depth_outline :
    IsGreatest {hops | hops ≤ depth ∧ ∃ id, registry.AtDistance root hops id}
      (registry.outline children depth root).depth := by
  constructor
  · have hdeepest := (GraphNode.generation_singleton_ne_nil_iff
      (registry.outline children depth root) _).2 (Nat.le_refl _)
    obtain ⟨node, hnode⟩ := List.exists_mem_of_ne_nil _ hdeepest
    obtain ⟨hle, hdistance⟩ := (mem_generation_iff h _ node.id).1 (List.mem_map_of_mem hnode)
    exact ⟨hle, node.id, hdistance⟩
  · rintro hops ⟨hle, id, hdistance⟩
    have hmem := (mem_generation_iff h hops id).2 ⟨hle, hdistance⟩
    rw [← GraphNode.generation_singleton_ne_nil_iff]
    rintro hnil
    rw [hnil] at hmem
    cases hmem

theorem address_of_mem_generation (hroot : registry.contains root = true) {hops : ℕ}
    {node : GraphNode} (hnode : node ∈ generation [registry.outline children depth root] hops) :
    ∃ held, registry.get? node.id = some held ∧ held.address = node.address := by
  obtain ⟨hle, way, -⟩ := (mem_generation_iff h hops node.id).1 (List.mem_map_of_mem hnode)
  obtain ⟨held, hheld⟩ := exists_get?_of_contains (way.registered hroot)
  rw [generation_outline h hle] at hnode
  obtain ⟨id, -, rfl⟩ := List.mem_map.1 hnode
  rw [id_outline] at hheld ⊢
  exact ⟨held, hheld, by rw [address_outline, addressOf, hheld]; rfl⟩

/-- The children of a node stand in ascending order below the first node of its generation that has
links to them. -/
theorem children_spec {hops : ℕ} {before after : List GraphNode} {parent : GraphNode}
    (hparent : generation [registry.outline children depth root] hops = before ++ parent :: after) :
    (parent.children.map GraphNode.id).Pairwise (· < ·) ∧
    ∀ child ∈ parent.children, registry.Hop parent.id child.id ∧
      ∀ other ∈ before, ¬ registry.Hop other.id child.id := by
  rcases Nat.lt_or_ge hops depth with hlt | hge
  · rw [generation_outline h hlt.le] at hparent
    obtain ⟨left, right, hlevel, rfl, hright⟩ := List.map_eq_append_iff.1 hparent
    obtain ⟨id, right, rfl, rfl, -⟩ := List.map_eq_cons_iff.1 hright
    have hfound := h hops hlt
    rw [hlevel, List.map_append, List.map_cons] at hfound
    obtain ⟨hascending, hhops⟩ := nextLevel_eq_append hfound.symm (List.length_map _)
    have hchildren : (registry.outline children (depth - hops) id).children =
        (children.below id).map (registry.outline children (depth - (hops + 1))) := by
      rw [← Nat.sub_sub, ← Nat.sub_one_add_one (Nat.sub_ne_zero_of_lt hlt)]
      rfl
    rw [hchildren, map_id_outline, id_outline]
    refine ⟨hascending, fun child hchild ↦ ?_⟩
    obtain ⟨target, htarget, rfl⟩ := List.mem_map.1 hchild
    obtain ⟨hhop, hfirst⟩ := hhops target htarget
    rw [id_outline]
    refine ⟨hhop, fun other hother ↦ ?_⟩
    obtain ⟨source, hsource, rfl⟩ := List.mem_map.1 hother
    rw [id_outline]
    exact hfirst source hsource
  · have hnil := generation_outline_eq_nil h (Nat.lt_succ_of_le hge)
    have hchildren : parent.children = [] := by
      rw [generation, List.flatMap_eq_nil_iff] at hnil
      exact hnil parent (by simp [hparent])
    simp [hchildren]

end Placed

theorem clampDepth_le_maxDepth (requested : ℕ) : clampDepth requested ≤ maxDepth := by
  unfold clampDepth
  split
  · exact Nat.le_refl _
  · next h => exact Nat.le_of_not_lt fun hlt ↦ h (.inr hlt)

theorem clampDepth_eq_maxDepth {requested : ℕ} (h : requested = 0 ∨ maxDepth < requested) :
    clampDepth requested = maxDepth :=
  if_pos h

/-- A depth in range is taken as it is. -/
theorem clampDepth_eq_self {requested : ℕ} (hpos : 1 ≤ requested) (hle : requested ≤ maxDepth) :
    clampDepth requested = requested :=
  if_neg (not_or.2 ⟨Nat.ne_of_gt hpos, Nat.not_lt.2 hle⟩)

/-- A search places children as a tree needs them. -/
theorem placed_after (registry : Registry) (root : String) (depth : ℕ) :
    registry.Placed root depth (Search.after registry root depth).children :=
  fun _ ↦ Search.map_below_after

/-- The tree is the outline of what the search has placed. -/
theorem tree_eq_outline (h : registry.contains root = true) (requested : ℕ) :
    registry.tree root requested =
      some (registry.outline (Search.after registry root (clampDepth requested)).children
        (clampDepth requested) root) := by
  let depth := clampDepth requested
  let children := (Search.after registry root depth).children
  have hnodup := nodup_ids_outline (registry.placed_after root depth)
  obtain ⟨_, hrun, -⟩ := registry.yields_build children depth root hnodup children fun _ _ ↦ rfl
  calc registry.tree root requested
    _ = some ((registry.build depth root).run children).1 := by
      simp only [tree, if_pos h, Search.descend_start, depth, children]
    _ = some (registry.outline children depth root) := congrArg (some ∘ Prod.fst) hrun

theorem depth_le_of_tree {root : String} {requested : ℕ} {tree : GraphNode}
    (h : registry.tree root requested = some tree) : tree.depth ≤ maxDepth := by
  cases hroot : registry.contains root with
  | false =>
    rw [Registry.tree, hroot] at h
    cases h
  | true =>
    rw [tree_eq_outline hroot] at h
    cases h
    have hdepth := isGreatest_depth_outline (registry.placed_after root (clampDepth requested))
    exact hdepth.1.1.trans (clampDepth_le_maxDepth requested)

/-- Let a tree of a registered root be asked for, and let the depth be the one that this is clamped
to.  The generations of the tree are the nodes at their distances, down to this depth, with the
addresses that they are registered with; each node is in the tree once, under the first node of the
generation above that links to it, and siblings are in ascending order.  So the size of the tree is
the number of nodes within this depth, and its depth the greatest distance among them.  A root that
is not registered has no tree.  A depth of zero or above the greatest one asks for the greatest, and
any other depth for just itself. -/
theorem tree_is_ball (registry : Registry) (root : String) (requested : ℕ) :
    let depth := clampDepth requested
    (registry.contains root = true → ∃ tree, registry.tree root requested = some tree ∧
      tree.ids.Nodup ∧
      (∀ id, id ∈ tree.ids ↔ ∃ hops ≤ depth, registry.AtDistance root hops id) ∧
      (∀ hops id, id ∈ (generation [tree] hops).map GraphNode.id ↔
        hops ≤ depth ∧ registry.AtDistance root hops id) ∧
      (∀ hops, ∀ node ∈ generation [tree] hops,
        ∃ held, registry.get? node.id = some held ∧ held.address = node.address) ∧
      (∀ hops before parent after, generation [tree] hops = before ++ parent :: after →
        (parent.children.map GraphNode.id).Pairwise (· < ·) ∧
        ∀ child ∈ parent.children, registry.Hop parent.id child.id ∧
          ∀ other ∈ before, ¬ registry.Hop other.id child.id) ∧
      tree.size = {id | ∃ hops ≤ depth, registry.AtDistance root hops id}.ncard ∧
      IsGreatest {hops | hops ≤ depth ∧ ∃ id, registry.AtDistance root hops id} tree.depth ∧
      tree.depth ≤ maxDepth) ∧
    (registry.contains root = false → registry.tree root requested = none) ∧
    (requested = 0 ∨ maxDepth < requested → depth = maxDepth ∧
      registry.tree root requested = registry.tree root maxDepth) ∧
    (1 ≤ requested → requested ≤ maxDepth → depth = requested) := by
  intro depth
  refine ⟨fun h ↦ ?_, fun h ↦ ?_, fun h ↦ ⟨clampDepth_eq_maxDepth h, ?_⟩, clampDepth_eq_self⟩
  · have hplaced := registry.placed_after root depth
    have hdepth := isGreatest_depth_outline hplaced
    exact ⟨_, tree_eq_outline h requested, nodup_ids_outline hplaced, mem_ids_outline_iff hplaced,
      mem_generation_iff hplaced, fun _ _ ↦ address_of_mem_generation hplaced h,
      fun _ _ _ _ ↦ children_spec hplaced, size_outline hplaced, hdepth,
      hdepth.1.1.trans (clampDepth_le_maxDepth requested)⟩
  · rw [tree, h]
    rfl
  · rw [tree, tree, clampDepth_eq_maxDepth h]
    rfl

/-- A node with two nodes above it that link to it, hops back and into nowhere, and a node that is
too far away. -/
def diamondMesh : Registry :=
  ofLinks ["a", "b", "c", "d", "e", "f"]
    [("a", "b"), ("a", "c"), ("b", "d"), ("b", "ghost"), ("c", "a"), ("c", "d"), ("d", "d"),
      ("d", "e"), ("e", "f")]

/-- A depth of nine is clamped to three, which leaves one node out; a depth of one is not clamped,
and leaves out all but the neighbours. -/
theorem tree_is_ball_diamond :
    diamondMesh.contains "a" = true ∧
    (diamondMesh.tree "a" 9).map GraphNode.ids = some ["a", "b", "d", "e", "c"] ∧
    (∃ hops ≤ 3, diamondMesh.AtDistance "a" hops "e") ∧
    (¬ ∃ hops ≤ 3, diamondMesh.AtDistance "a" hops "f") ∧
    (diamondMesh.tree "a" 1).map GraphNode.ids = some ["a", "b", "c"] ∧
    clampDepth 1 = 1 ∧
    (∃ hops ≤ 1, diamondMesh.AtDistance "a" hops "c") ∧
    ¬ ∃ hops ≤ 1, diamondMesh.AtDistance "a" hops "d" := by
  have hroot : diamondMesh.contains "a" = true := by decide +kernel
  have hlisted : (diamondMesh.tree "a" 9).map GraphNode.ids = some ["a", "b", "d", "e", "c"] := by
    decide +kernel
  have hlistedNear : (diamondMesh.tree "a" 1).map GraphNode.ids = some ["a", "b", "c"] := by
    decide +kernel
  obtain ⟨hball, -, hclamped, -⟩ := tree_is_ball diamondMesh "a" 9
  obtain ⟨hballNear, -, -, hkept⟩ := tree_is_ball diamondMesh "a" 1
  have hdepth : clampDepth 9 = 3 := (hclamped (.inr (by decide))).1
  have hdepthNear : clampDepth 1 = 1 := hkept (by decide) (by decide)
  obtain ⟨tree, htree, -, hmem, -⟩ := hball hroot
  obtain ⟨near, hnear, -, hmemNear, -⟩ := hballNear hroot
  have hids : tree.ids = ["a", "b", "d", "e", "c"] := by simpa [htree] using hlisted
  have hidsNear : near.ids = ["a", "b", "c"] := by simpa [hnear] using hlistedNear
  rw [hids, hdepth] at hmem
  rw [hidsNear, hdepthNear] at hmemNear
  exact ⟨hroot, hlisted, (hmem "e").1 (by decide), mt (hmem "f").2 (by decide), hlistedNear,
    hdepthNear, (hmemNear "c").1 (by decide), mt (hmemNear "d").2 (by decide)⟩

end ServiceMesh.Registry

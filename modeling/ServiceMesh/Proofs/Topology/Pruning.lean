import ServiceMesh.Proofs.Topology.Tree

/-!
# Shallower trees

To cut a tree off is to drop all that is too far below its root and to leave the rest as it stands.
Searches of different depths place the same children below the nodes that both of them visit, so a
shallower tree of a root is what is left of a deeper one.
-/

namespace ServiceMesh

namespace GraphNode

/-- The tree without the nodes that stand more than so many hops below its root. -/
def cutOff : (depth : ℕ) → GraphNode → GraphNode
  | 0, tree => { tree with children := [] }
  | depth + 1, tree => { tree with children := tree.children.map (cutOff depth) }

theorem id_cutOff (depth : ℕ) (tree : GraphNode) : (tree.cutOff depth).id = tree.id := by
  cases depth <;> rfl

theorem address_cutOff (depth : ℕ) (tree : GraphNode) :
    (tree.cutOff depth).address = tree.address := by
  cases depth <;> rfl

theorem children_cutOff_succ (depth : ℕ) (tree : GraphNode) :
    (tree.cutOff (depth + 1)).children = tree.children.map (cutOff depth) := rfl

theorem flatMap_children_cutOff_succ (depth : ℕ) (trees : List GraphNode) :
    (trees.map (cutOff (depth + 1))).flatMap children =
      (trees.flatMap children).map (cutOff depth) := by
  rw [List.flatMap_map, List.map_flatMap]
  rfl

/-- Down to the depth of the cut, a generation keeps all of its nodes, themselves cut off. -/
theorem generation_map_cutOff (trees : List GraphNode) {depth hops : ℕ} (hle : hops ≤ depth) :
    generation (trees.map (cutOff depth)) hops =
      (generation trees hops).map (cutOff (depth - hops)) := by
  induction hops with
  | zero => rfl
  | succ hops ih =>
    have hdepth : depth - hops = depth - (hops + 1) + 1 := by omega
    rw [generation, ih (Nat.le_of_succ_le hle), hdepth, flatMap_children_cutOff_succ]
    rfl

/-- Below the cut there is nothing. -/
theorem generation_map_cutOff_eq_nil (trees : List GraphNode) {depth hops : ℕ}
    (hlt : depth < hops) : generation (trees.map (cutOff depth)) hops = [] := by
  induction hops with
  | zero => exact absurd hlt (Nat.not_lt_zero depth)
  | succ hops ih =>
    rw [generation]
    rcases Nat.lt_or_eq_of_le (Nat.le_of_lt_succ hlt) with hlt | rfl
    · rw [ih hlt]
      rfl
    · rw [generation_map_cutOff trees (Nat.le_refl depth), Nat.sub_self, List.flatMap_map]
      exact List.flatMap_eq_nil_iff.2 fun _ _ ↦ rfl

end GraphNode

namespace Registry

open GraphNode (generation)

variable {registry : Registry} {root : String} {children children' : Children}

/-- An outline cut off is the outline of the smaller depth. -/
theorem cutOff_outline {depth deeper : ℕ} (hle : depth ≤ deeper) (id : String) :
    (registry.outline children deeper id).cutOff depth = registry.outline children depth id := by
  induction depth generalizing deeper id with
  | zero => cases deeper <;> rfl
  | succ depth ih =>
    obtain ⟨deeper, rfl⟩ := Nat.exists_eq_add_of_le' (Nat.one_le_of_lt hle)
    rw [outline, GraphNode.cutOff, outline, List.map_map]
    exact congrArg _ (List.map_congr_left fun child _ ↦ ih (Nat.le_of_succ_le_succ hle) child)

/-- What is placed for a depth is placed for every smaller one. -/
theorem Placed.mono {depth deeper : ℕ} (h : registry.Placed root deeper children)
    (hle : depth ≤ deeper) : registry.Placed root depth children :=
  fun hops hlt ↦ h hops (hlt.trans_le hle)

/-- Nothing but what is placed above a depth shows in an outline of this depth. -/
theorem Placed.outline_eq {depth : ℕ} (h : registry.Placed root depth children)
    (h' : registry.Placed root depth children') :
    registry.outline children depth root = registry.outline children' depth root := by
  -- By induction on the levels that are left, from the lowest level upwards.
  have hlevel (left hops : ℕ) (hdepth : hops + left = depth) :
      ∀ id ∈ (registry.levels root hops).level,
        registry.outline children left id = registry.outline children' left id := by
    induction left generalizing hops with
    | zero => exact fun _ _ ↦ rfl
    | succ left ih =>
      intro id hid
      have hlt : hops < depth := by omega
      have hbelow : children.below id = children'.below id :=
        List.map_inj_left.1 ((h hops hlt).trans (h' hops hlt).symm) id hid
      have hchildren : ∀ child ∈ children'.below id,
          registry.outline children left child = registry.outline children' left child := by
        intro child hchild
        refine ih (hops + 1) (by omega) child ?_
        rw [← h'.flatMap_below hlt]
        exact List.mem_flatMap.2 ⟨id, hid, hchild⟩
      rw [outline, outline, hbelow, List.map_congr_left hchildren]
  exact hlevel depth 0 (Nat.zero_add depth) root (List.mem_singleton_self root)

/-- Let trees of two depths be asked for, of a registered root, and let the depths that they are
clamped to be in ascending order.  Then the first tree is the second one cut off at its own depth.
Down to this depth their generations list the same nodes with the same addresses; above it, each of
these nodes has the same children in the same order; and below it the first tree has nothing. -/
theorem shallower_tree_is_cut_off {registry : Registry} {root : String}
    (hroot : registry.contains root = true) {requested deeper : ℕ}
    (hle : clampDepth requested ≤ clampDepth deeper) :
    let depth := clampDepth requested
    ∃ tree shallow, registry.tree root deeper = some tree ∧
      registry.tree root requested = some shallow ∧
      shallow = tree.cutOff depth ∧
      (∀ hops ≤ depth, (generation [shallow] hops).map (fun node ↦ (node.id, node.address)) =
        (generation [tree] hops).map fun node ↦ (node.id, node.address)) ∧
      (∀ hops < depth, (generation [shallow] hops).map (·.children.map GraphNode.id) =
        (generation [tree] hops).map (·.children.map GraphNode.id)) ∧
      ∀ hops, depth < hops → generation [shallow] hops = [] := by
  intro depth
  let placed := (Search.after registry root depth).children
  let placed' := (Search.after registry root (clampDepth deeper)).children
  have hplaced : registry.Placed root depth placed := registry.placed_after root depth
  have hplaced' : registry.Placed root depth placed' :=
    (registry.placed_after root (clampDepth deeper)).mono hle
  let tree := registry.outline placed' (clampDepth deeper) root
  have hcut : registry.outline placed depth root = tree.cutOff depth := by
    rw [hplaced.outline_eq hplaced', cutOff_outline hle]
  refine ⟨tree, tree.cutOff depth, tree_eq_outline hroot deeper, ?_, rfl, fun hops hhops ↦ ?_,
    fun hops hhops ↦ ?_, fun hops ↦ GraphNode.generation_map_cutOff_eq_nil [tree]⟩
  · rw [tree_eq_outline hroot, hcut]
  · have hgeneration := GraphNode.generation_map_cutOff [tree] hhops
    rw [List.map_singleton] at hgeneration
    rw [hgeneration, List.map_map]
    refine List.map_congr_left fun node _ ↦ ?_
    exact Prod.ext (node.id_cutOff _) (node.address_cutOff _)
  · have hgeneration := GraphNode.generation_map_cutOff [tree] hhops.le
    have hleft : depth - hops = depth - (hops + 1) + 1 := by omega
    rw [List.map_singleton] at hgeneration
    rw [hgeneration, List.map_map, hleft]
    refine List.map_congr_left fun node _ ↦ ?_
    rw [Function.comp_apply, GraphNode.children_cutOff_succ, List.map_map]
    exact List.map_congr_left fun child _ ↦ child.id_cutOff _

/-- A depth of zero asks for more than a depth of two. -/
theorem shallower_tree_is_cut_off_diamond :
    diamondMesh.contains "a" = true ∧ clampDepth 2 ≤ clampDepth 0 ∧
    ∃ tree shallow, diamondMesh.tree "a" 0 = some tree ∧ diamondMesh.tree "a" 2 = some shallow ∧
      tree.ids = ["a", "b", "d", "e", "c"] ∧ shallow.ids = ["a", "b", "d", "c"] ∧
      shallow = tree.cutOff 2 := by
  have hroot : diamondMesh.contains "a" = true := by decide +kernel
  have hle : clampDepth 2 ≤ clampDepth 0 := by decide
  have hids : (diamondMesh.tree "a" 0).map GraphNode.ids = some ["a", "b", "d", "e", "c"] := by
    decide +kernel
  have hids' : (diamondMesh.tree "a" 2).map GraphNode.ids = some ["a", "b", "d", "c"] := by
    decide +kernel
  obtain ⟨tree, shallow, htree, hshallow, hcut, -⟩ := shallower_tree_is_cut_off hroot hle
  rw [htree, Option.map_some, Option.some_inj] at hids
  rw [hshallow, Option.map_some, Option.some_inj] at hids'
  exact ⟨hroot, hle, tree, shallow, htree, hshallow, hids, hids', hcut⟩

end Registry

end ServiceMesh

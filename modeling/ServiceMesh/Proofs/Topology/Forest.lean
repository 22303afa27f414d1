import Mathlib.Data.List.Basic
import ServiceMesh.Topology

/-!
# Generations of trees

The nodes of trees are looked at from left to right, one generation after the other.  The ids of
trees are those of all their generations, and the depth tells how many generations there are.
-/

namespace ServiceMesh.GraphNode

/-- The nodes so many hops below the roots of trees, from left to right. -/
def generation (trees : List GraphNode) : ℕ → List GraphNode
  | 0 => trees
  | hops + 1 => (generation trees hops).flatMap children

theorem generation_flatMap_children (trees : List GraphNode) (hops : ℕ) :
    generation (trees.flatMap children) hops = generation trees (hops + 1) := by
  induction hops with
  | zero => rfl
  | succ hops ih => rw [generation, ih, ← generation]

mutual

theorem size_eq_length_ids : ∀ tree : GraphNode, tree.size = tree.ids.length
  | ⟨_, _, children⟩ => by
    rw [size, ids, List.length_cons, forestSize_eq_length_forestIds children, Nat.add_comm]

theorem forestSize_eq_length_forestIds :
    ∀ trees : List GraphNode, forestSize trees = (forestIds trees).length
  | [] => rfl
  | tree :: rest => by
    rw [forestSize, forestIds, List.length_append, size_eq_length_ids tree,
      forestSize_eq_length_forestIds rest]

end

/-- The ids of trees are those of one tree after another. -/
theorem forestIds_eq_flatMap (trees : List GraphNode) : forestIds trees = trees.flatMap ids := by
  induction trees with
  | nil => rfl
  | cons tree rest ih => rw [forestIds, ih, List.flatMap_cons]

theorem forestIds_append (trees trees' : List GraphNode) :
    forestIds (trees ++ trees') = forestIds trees ++ forestIds trees' := by
  simp only [forestIds_eq_flatMap, List.flatMap_append]

/-- The ids of trees are those of the roots and those below them. -/
theorem forestIds_perm (trees : List GraphNode) :
    (forestIds trees).Perm (trees.map GraphNode.id ++ forestIds (trees.flatMap children)) := by
  induction trees with
  | nil => exact .nil
  | cons tree rest ih =>
    obtain ⟨id, address, below⟩ := tree
    rw [forestIds, ids, List.flatMap_cons, forestIds_append, List.map_cons]
    refine .cons id ?_
    calc forestIds below ++ forestIds rest
      _ |>.Perm (forestIds below ++
          (rest.map GraphNode.id ++ forestIds (rest.flatMap children))) := ih.append_left _
      _ |>.Perm (rest.map GraphNode.id ++
          (forestIds below ++ forestIds (rest.flatMap children))) :=
        List.perm_append_comm_assoc _ _ _

theorem forestDepth_append (trees trees' : List GraphNode) :
    forestDepth (trees ++ trees') = max (forestDepth trees) (forestDepth trees') := by
  induction trees with
  | nil => rw [List.nil_append, forestDepth, Nat.zero_max]
  | cons tree rest ih => rw [List.cons_append, forestDepth, forestDepth, ih, Nat.max_assoc]

theorem forestDepth_cons (tree : GraphNode) (rest : List GraphNode) :
    forestDepth (tree :: rest) = max (forestDepth tree.children + 1) (forestDepth rest) := by
  obtain ⟨id, address, below⟩ := tree
  rw [forestDepth, depth, Nat.add_comm]

/-- Trees are no deeper than the deepest of them. -/
theorem forestDepth_le_iff {trees : List GraphNode} {hops : ℕ} :
    forestDepth trees ≤ hops ↔ ∀ tree ∈ trees, tree.depth < hops := by
  induction trees with
  | nil => simp [forestDepth]
  | cons tree rest ih =>
    rw [forestDepth, Nat.max_le, ih, List.forall_mem_cons, Nat.add_comm, Nat.succ_le_iff]

/-- The roots of trees are one hop above what is below them. -/
theorem forestDepth_eq_succ {trees : List GraphNode} (h : trees ≠ []) :
    forestDepth trees = forestDepth (trees.flatMap children) + 1 := by
  induction trees with
  | nil => exact absurd rfl h
  | cons tree rest ih =>
    rw [forestDepth_cons, List.flatMap_cons, forestDepth_append]
    by_cases hnil : rest = []
    · subst hnil
      simp [forestDepth]
    · rw [ih hnil]
      omega

theorem generation_ne_nil_iff (trees : List GraphNode) (hops : ℕ) :
    generation trees hops ≠ [] ↔ hops < forestDepth trees := by
  induction hops generalizing trees with
  | zero =>
    cases trees with
    | nil => simp [generation, forestDepth]
    | cons tree rest => simp [generation, forestDepth_eq_succ]
  | succ hops ih =>
    rw [← generation_flatMap_children, ih]
    cases trees with
    | nil => simp [forestDepth]
    | cons tree rest => rw [forestDepth_eq_succ (List.cons_ne_nil tree rest), Nat.succ_lt_succ_iff]

/-- A tree has nodes down to its depth. -/
theorem generation_singleton_ne_nil_iff (tree : GraphNode) (hops : ℕ) :
    generation [tree] hops ≠ [] ↔ hops ≤ tree.depth := by
  rw [generation_ne_nil_iff, forestDepth, forestDepth, Nat.max_zero, Nat.add_comm, Nat.lt_succ_iff]

end ServiceMesh.GraphNode

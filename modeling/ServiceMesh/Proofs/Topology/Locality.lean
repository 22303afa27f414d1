import ServiceMesh.Proofs.Topology.Edges
import ServiceMesh.Proofs.Topology.Tree

/-!
# Walks read only what they reach

A walk or a search looks up the nodes that its root reaches, and asks of their links whether the
targets are registered.  Registries that agree on this give the same walk and the same trees,
whatever else they hold.
-/

namespace ServiceMesh

namespace Registry

/-- The other registry holds the nodes that a root reaches here, with the same addresses and links,
and none of the targets that these links miss here. -/
structure AgreesFrom (registry : Registry) (root : String) (other : Registry) : Prop where
  contains_root : other.contains root = registry.contains root
  held : ∀ id, registry.Reaches root id → ∀ node ∈ registry.get? id,
    ∃ node' ∈ other.get? id, node'.address = node.address ∧ node'.links = node.links
  missing : ∀ id, registry.Reaches root id → ∀ node ∈ registry.get? id, ∀ target,
    node.hasLink target = true → registry.contains target = false → other.contains target = false

variable {registry other : Registry} {root id : String}

namespace AgreesFrom

section Registered

variable (h : registry.AgreesFrom root other) (hroot : registry.contains root = true)
  (hreaches : registry.Reaches root id)

include h hroot hreaches

theorem exists_get? : ∃ node node', registry.get? id = some node ∧ other.get? id = some node' ∧
    node'.address = node.address ∧ node'.links = node.links := by
  obtain ⟨node, hnode⟩ := exists_get?_of_contains (hreaches.registered hroot)
  obtain ⟨node', hnode', hsame⟩ := h.held id hreaches node hnode
  exact ⟨node, node', hnode, hnode', hsame⟩

theorem contains_eq : other.contains id = registry.contains id := by
  obtain ⟨_, _, hnode, hnode', -⟩ := h.exists_get? hroot hreaches
  rw [contains, contains, NameMap.contains_of_get? hnode, NameMap.contains_of_get? hnode']

/-- Links lead to registered targets in both registries, or in neither. -/
theorem contains_target {node : Node} (hnode : registry.get? id = some node) {target : String}
    (hlink : node.hasLink target = true) : other.contains target = registry.contains target := by
  by_cases htarget : registry.contains target = true
  · exact h.contains_eq hroot (hreaches.tail ⟨⟨node, hnode, hlink⟩, htarget⟩)
  · rw [Bool.not_eq_true] at htarget
    rw [htarget, h.missing id hreaches node hnode target hlink htarget]

/-- A node that is reached has the same live links in both registries. -/
theorem liveLinks_eq : other.liveLinks id = registry.liveLinks id := by
  obtain ⟨node, node', hnode, hnode', -, hlinks⟩ := h.exists_get? hroot hreaches
  rw [liveLinks, liveLinks, hnode, hnode']
  simp only [hlinks]
  refine List.filter_congr fun link hmem ↦ ?_
  exact h.contains_target hroot hreaches hnode (NameMap.contains_iff.2 ⟨link.2, hmem⟩)

theorem view?_eq : other.view? id = registry.view? id := by
  obtain ⟨node, node', hnode, hnode', haddress, -⟩ := h.exists_get? hroot hreaches
  rw [view?, view?, hnode, hnode', Option.map_some, Option.map_some, haddress]

theorem addressOf_eq : other.addressOf id = registry.addressOf id := by
  obtain ⟨node, node', hnode, hnode', haddress, -⟩ := h.exists_get? hroot hreaches
  rw [addressOf, addressOf, hnode, hnode', Option.map_some, Option.map_some, haddress]

end Registered

end AgreesFrom

/-- A walk or a search starts at its root alone. -/
theorem reaches_start (registry : Registry) (root : String) :
    ∀ id ∈ [root], registry.Reaches root id := by
  intro id hmem
  rw [List.mem_singleton.1 hmem]
  exact .refl

/-- The same steps over the same links: what is discovered is reached again. -/
theorem expand_congr
    (hlinks : ∀ id, registry.Reaches root id → other.liveLinks id = registry.liveLinks id)
    {stack : List String} (hstack : ∀ id ∈ stack, registry.Reaches root id) (fuel : ℕ)
    (seen : List String) :
    other.expand fuel stack seen = registry.expand fuel stack seen := by
  induction fuel generalizing stack seen with
  | zero => rfl
  | succ fuel ih =>
    cases stack with
    | nil => rfl
    | cons id stack =>
      have hid : registry.Reaches root id := hstack id List.mem_cons_self
      have hnext : ∀ next ∈ undiscovered seen (registry.liveLinks id) ++ stack,
          registry.Reaches root next := by
        intro next hmem
        rcases List.mem_append.1 hmem with hmem | hmem
        · exact hid.tail (mem_undiscovered_iff.1 hmem).1
        · exact hstack next (List.mem_cons_of_mem _ hmem)
      rw [expand, expand, hlinks id hid, ih hnext]

/-- Registries may differ in size, and so in the number of steps they allow; each allows enough. -/
theorem walk_congr (hcontains : other.contains root = registry.contains root)
    (hlinks : ∀ id, registry.contains root = true → registry.Reaches root id →
      other.liveLinks id = registry.liveLinks id) :
    other.walk root = registry.walk root := by
  by_cases hroot : registry.contains root = true
  · have hroot' : other.contains root = true := hcontains.trans hroot
    rw [walk, walk, if_pos hroot, if_pos hroot']
    calc other.expand other.size [root] [root]
      _ = other.expand (other.size + registry.size) [root] [root] :=
        ((Frontier.start hroot').expand_add (Nat.le_refl _) _).symm
      _ = registry.expand (registry.size + other.size) [root] [root] := by
        rw [Nat.add_comm]
        exact expand_congr (fun id ↦ hlinks id hroot) (reaches_start registry root) _ _
      _ = registry.expand registry.size [root] [root] :=
        (Frontier.start hroot).expand_add (Nat.le_refl _) _
  · rw [walk, walk, hcontains, if_neg hroot, if_neg hroot]

namespace AgreesFrom

/-- A walk cannot tell the registries apart. -/
theorem walk_eq (h : registry.AgreesFrom root other) : other.walk root = registry.walk root :=
  walk_congr h.contains_root fun _ ↦ h.liveLinks_eq

theorem reachableIds_eq (h : registry.AgreesFrom root other) :
    other.reachableIds root = registry.reachableIds root := by
  rw [reachableIds, reachableIds, h.contains_root, h.walk_eq]

theorem flatten_eq (h : registry.AgreesFrom root other) :
    other.flatten root = registry.flatten root := by
  rw [flatten, flatten, h.reachableIds_eq]
  by_cases hroot : registry.contains root = true
  · exact List.filterMap_congr fun id hmem ↦
      h.view?_eq hroot ((mem_reachableIds_iff hroot).1 hmem)
  · rw [reachableIds, if_neg hroot]
    rfl

theorem edges_eq (h : registry.AgreesFrom root other) : other.edges root = registry.edges root := by
  rw [edges, edges, h.walk_eq]

end AgreesFrom

end Registry

namespace Search

variable {registry other : Registry} {root : String}

theorem visitAll_congr {level : List String}
    (hlinks : ∀ id ∈ level, other.liveLinks id = registry.liveLinks id) (search : Search) :
    search.visitAll other level = search.visitAll registry level := by
  induction level generalizing search with
  | nil => rfl
  | cons id level ih =>
    have hvisit : search.visit other id = search.visit registry id := by
      rw [visit, visit, hlinks id List.mem_cons_self]
    have hrest := ih fun next hmem ↦ hlinks next (List.mem_cons_of_mem _ hmem)
    simp only [visitAll, hvisit, hrest]

/-- Every level of a search is reached from the root. -/
theorem descend_congr
    (hlinks : ∀ id, registry.Reaches root id → other.liveLinks id = registry.liveLinks id)
    {level : List String} (hlevel : ∀ id ∈ level, registry.Reaches root id) (depth : ℕ)
    (search : Search) : search.descend other depth level = search.descend registry depth level := by
  induction depth generalizing search level with
  | zero => rfl
  | succ depth ih =>
    have hvisited := visitAll_congr (fun id hmem ↦ hlinks id (hlevel id hmem)) search
    have hnext : ∀ id ∈ (search.visitAll registry level).2, registry.Reaches root id := by
      intro id hmem
      rw [visitAll_snd, Registry.mem_below_iff] at hmem
      obtain ⟨-, source, hsource, hhop⟩ := hmem
      exact (hlevel source hsource).tail hhop
    rw [descend_succ, descend_succ, hvisited, ih hnext]

/-- Searches cannot tell registries apart that have the same live links where the root reaches. -/
theorem after_congr
    (hlinks : ∀ id, registry.Reaches root id → other.liveLinks id = registry.liveLinks id)
    (depth : ℕ) : after other root depth = after registry root depth := by
  rw [← descend_start, ← descend_start]
  exact descend_congr hlinks (Registry.reaches_start registry root) _ _

end Search

namespace Registry.AgreesFrom

variable {registry other : Registry} {root : String}

theorem tree_eq (h : registry.AgreesFrom root other) (requested : ℕ) :
    other.tree root requested = registry.tree root requested := by
  by_cases hroot : registry.contains root = true
  · let depth := clampDepth requested
    have hsearch : Search.after other root depth = Search.after registry root depth :=
      Search.after_congr (fun _ ↦ h.liveLinks_eq hroot) depth
    have hreached : ∀ id ∈ (registry.outline (Search.after registry root depth).children
        depth root).ids, registry.Reaches root id := by
      intro id hmem
      obtain ⟨hops, -, way, -⟩ := (mem_ids_outline_iff (registry.placed_after root depth) id).1 hmem
      exact way.reaches
    rw [tree_eq_outline hroot, tree_eq_outline (h.contains_root.trans hroot), hsearch,
      outline_congr fun id hmem ↦ h.addressOf_eq hroot (hreached id hmem)]
  · rw [tree, tree, h.contains_root, if_neg hroot, if_neg hroot]

end Registry.AgreesFrom

namespace Registry

/-- If another registry agrees with this one on what a root reaches here, then all walks from the
root and all trees of it are the same in both, each list and each generation in the same order. -/
theorem walks_read_reached {registry other : Registry} {root : String}
    (h : registry.AgreesFrom root other) :
    registry.flatten root = other.flatten root ∧
    registry.edges root = other.edges root ∧
    ∀ requested, registry.tree root requested = other.tree root requested :=
  ⟨h.flatten_eq.symm, h.edges_eq.symm, fun requested ↦ (h.tree_eq requested).symm⟩

/-- The ring of `ringMesh` with other nodes around it, and with metadata of a node on it. -/
def ringMeshElsewhere : Registry :=
  let mesh := ofLinks ["a", "b", "c", "e", "f"]
    [("a", "a"), ("a", "c"), ("b", "a"), ("c", "b"), ("c", "ghost"), ("e", "a"), ("f", "b")]
  mesh.insert "c" "c:1" (.ofList [("zone", "north")])

/-- Foreign nodes, their links into the ring and metadata on it change no answer. -/
theorem walks_read_reached_ring :
    ringMesh.AgreesFrom "a" ringMeshElsewhere ∧
    ringMesh.size ≠ ringMeshElsewhere.size ∧ ringMesh.get? "c" ≠ ringMeshElsewhere.get? "c" ∧
    ringMeshElsewhere.flatten "a" = [⟨"a", "a:1"⟩, ⟨"c", "c:1"⟩, ⟨"b", "b:1"⟩] ∧
    ringMesh.tree "a" 0 = ringMeshElsewhere.tree "a" 0 := by
  have hroot : ringMesh.contains "a" = true := by decide +kernel
  have hids : ringMesh.reachableIds "a" = ["a", "c", "b"] := by decide +kernel
  have hheld : ∀ id ∈ ["a", "c", "b"], ∀ node ∈ ringMesh.get? id,
      ∃ node' ∈ ringMeshElsewhere.get? id,
        node'.address = node.address ∧ node'.links = node.links := by
    decide +kernel
  have hmissing : ∀ id ∈ ["a", "c", "b"], ∀ node ∈ ringMesh.get? id, ∀ target ∈ node.links.names,
      ringMesh.contains target = false → ringMeshElsewhere.contains target = false := by
    decide +kernel
  have hreached : ∀ id, ringMesh.Reaches "a" id → id ∈ ["a", "c", "b"] := fun id hreaches ↦
    hids ▸ (mem_reachableIds_iff hroot).2 hreaches
  have hagrees : ringMesh.AgreesFrom "a" ringMeshElsewhere :=
    ⟨by decide +kernel, fun id hreaches ↦ hheld id (hreached id hreaches),
      fun id hreaches node hnode target hlink ↦
        hmissing id (hreached id hreaches) node hnode target (NameMap.mem_names_iff.2 hlink)⟩
  obtain ⟨hflatten, -, htree⟩ := walks_read_reached hagrees
  refine ⟨hagrees, by decide +kernel, by decide +kernel, hflatten ▸ ?_, htree 0⟩
  decide +kernel

end Registry

end ServiceMesh

import ServiceMesh.Proofs.NameMap
import ServiceMesh.Registry

/-!
# Registered nodes and their links

Registering adds one id, removing takes one away, and no change of a node's links or metadata adds
or takes away any.  A node that is registered again keeps its links; one that is removed loses its
own, and is taken off those of all others.
-/

namespace ServiceMesh.Registry

@[simp] theorem contains_insert (registry : Registry) (id address : String)
    (metadata : NameMap String) (other : String) :
    (registry.insert id address metadata).contains other ↔
      other = id ∨ registry.contains other :=
  NameMap.contains_insert _ _ _ _

/-- A removal takes away one id at most. -/
@[simp] theorem contains_remove (registry : Registry) (id other : String) :
    (registry.remove id).contains other ↔ other ≠ id ∧ registry.contains other := by
  unfold remove
  split
  · simp [contains, NameMap.contains_erase]
  · next habsent =>
    constructor
    · exact fun hother ↦ ⟨fun heq ↦ habsent (heq ▸ hother), hother⟩
    · exact And.right

@[simp] theorem contains_modify (registry : Registry) (id : String) (change : Node → Node)
    (other : String) : (registry.modify id change).contains other = registry.contains other :=
  NameMap.contains_modify _ _ _ _

@[simp] theorem size_modify (registry : Registry) (id : String) (change : Node → Node) :
    (registry.modify id change).size = registry.size :=
  NameMap.size_modify _ _ _

theorem get?_eq_none_iff {registry : Registry} {id : String} :
    registry.get? id = none ↔ registry.contains id = false := by
  rw [contains, NameMap.contains, Option.isSome_eq_false_iff, Option.isNone_iff_eq_none, get?]

theorem mem_ids_iff {registry : Registry} {id : String} :
    id ∈ registry.ids ↔ registry.contains id = true :=
  NameMap.mem_names_iff

theorem exists_get?_of_contains {registry : Registry} {id : String}
    (h : registry.contains id = true) : ∃ node, registry.get? id = some node :=
  Option.isSome_iff_exists.1 h

theorem get?_insert_of_ne (registry : Registry) {id other : String} (h : other ≠ id)
    (address : String) (metadata : NameMap String) :
    (registry.insert id address metadata).get? other = registry.get? other := by
  unfold insert get?
  rw [NameMap.get?_insert, if_neg h]

/-- A registration refreshes address and metadata, and keeps the links that are there. -/
theorem get?_insert_self (registry : Registry) (id address : String) (metadata : NameMap String) :
    (registry.insert id address metadata).get? id =
      some { address, metadata, links := ((registry.get? id).map Node.links).getD ∅ } := by
  unfold insert get?
  rw [NameMap.get?_insert, if_pos rfl]
  cases registry.nodes.get? id <;> rfl

theorem get?_modify (registry : Registry) (id : String) (change : Node → Node) (other : String) :
    (registry.modify id change).get? other =
      (registry.get? other).map fun node ↦ if other = id then change node else node :=
  NameMap.get?_modify _ _ _ _

/-- The nodes that stay lose their links to the removed one, and nothing else. -/
theorem get?_remove {registry : Registry} {id : String} (h : registry.contains id = true)
    (other : String) :
    (registry.remove id).get? other =
      if other = id then none else (registry.get? other).map (·.removeLink id) := by
  rw [remove, if_pos h]
  unfold get?
  rw [NameMap.get?_map, NameMap.get?_erase]
  split <;> rfl

/-- To remove an id that is not registered changes nothing, not even the links to it. -/
theorem remove_of_not_contains {registry : Registry} {id : String}
    (h : registry.contains id = false) : registry.remove id = registry := by
  simp [remove, h]

/-- The metric of the link from a registered node to another id, if there is such a link. -/
def linkMetric? (registry : Registry) (source target : String) : Option Int64 :=
  (registry.get? source).bind (·.links.get? target)

/-- A node that is registered anew has no links, and one that was registered before keeps its. -/
@[simp] theorem linkMetric?_insert (registry : Registry) (id address : String)
    (metadata : NameMap String) (source target : String) :
    (registry.insert id address metadata).linkMetric? source target =
      registry.linkMetric? source target := by
  unfold linkMetric?
  by_cases hsource : source = id
  · rw [hsource, get?_insert_self]
    cases registry.get? id <;> rfl
  · rw [get?_insert_of_ne registry hsource]

/-- A link that is made takes the place of the one to the same id. -/
theorem linkMetric?_addLink {registry : Registry} {id : String} (h : registry.contains id = true)
    (peer : String) (metric : Int64) (source target : String) :
    (registry.modify id (·.addLink peer metric)).linkMetric? source target =
      if source = id ∧ target = peer then some metric else registry.linkMetric? source target := by
  unfold linkMetric?
  rw [get?_modify]
  by_cases hsource : source = id
  · obtain ⟨node, hnode⟩ := exists_get?_of_contains h
    simp [hnode, hsource, Node.addLink, NameMap.get?_insert]
  · simp [hsource]

/-- The links from a removed node go with it, and so do those to it. -/
theorem linkMetric?_remove {registry : Registry} {id : String} (h : registry.contains id = true)
    (source target : String) :
    (registry.remove id).linkMetric? source target =
      if source = id ∨ target = id then none else registry.linkMetric? source target := by
  unfold linkMetric?
  rw [get?_remove h]
  by_cases hsource : source = id
  · simp [hsource]
  · cases registry.get? source <;> simp [hsource, Node.removeLink, NameMap.get?_erase]

end ServiceMesh.Registry

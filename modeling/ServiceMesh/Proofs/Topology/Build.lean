import Mathlib.Data.List.Nodup
import ServiceMesh.Proofs.NameMap
import ServiceMesh.Proofs.Topology.Forest
import ServiceMesh.Registry

/-!
# Trees built from placed children

A build takes the children of a node out when it comes to the node.  Subtrees without a common id
leave each other's children alone, so a tree in which no id comes twice is built as if no children
were ever taken out.
-/

namespace ServiceMesh

namespace Children

variable {α β : Type} {children : Children}

theorem below_erase (children : Children) {id other : String} (h : other ≠ id) :
    below (children.erase id) other = children.below other := by
  rw [below, NameMap.get?_erase, if_neg h, below]

/-- If the children below some ids are those placed at first, the action gives a value, and leaves
the children below all other ids alone. -/
def Yields (children : Children) (action : StateM Children α) (ids : List String) (value : α) :
    Prop :=
  ∀ held : Children, (∀ id ∈ ids, held.below id = children.below id) →
    ∃ rest : Children, action.run held = (value, rest) ∧ ∀ id ∉ ids, rest.below id = held.below id

/-- An action that touches no children yields what it yields. -/
theorem yields_pure (children : Children) (ids : List String) (value : α) :
    children.Yields (pure value) ids value :=
  fun held _ ↦ ⟨held, rfl, fun _ _ ↦ rfl⟩

theorem yields_take (children : Children) (id : String) :
    children.Yields (take id) [id] (children.below id) := by
  intro held hheld
  refine ⟨held.erase id, ?_, fun other hother ↦ ?_⟩
  · rw [← hheld id (List.mem_singleton_self id)]
    rfl
  · exact below_erase held (mt List.mem_singleton.2 hother)

/-- What the second action needs, the first one has left alone. -/
theorem Yields.bind {action : StateM Children α} {next : α → StateM Children β}
    {ids ids' : List String} {value : α} {value' : β} (h : children.Yields action ids value)
    (h' : children.Yields (next value) ids' value') (hdisjoint : ids.Disjoint ids') :
    children.Yields (action >>= next) (ids ++ ids') value' := by
  intro held hheld
  obtain ⟨middle, hrun, hmiddle⟩ := h held fun id hmem ↦ hheld id (List.mem_append_left _ hmem)
  have hkept : ∀ id ∈ ids', middle.below id = children.below id := fun id hmem ↦ by
    rw [hmiddle id fun hids ↦ hdisjoint hids hmem, hheld id (List.mem_append_right _ hmem)]
  obtain ⟨rest, hrun', hrest⟩ := h' middle hkept
  refine ⟨rest, ?_, fun id hnot ↦ ?_⟩
  · rw [StateT.run_bind, hrun]
    exact hrun'
  · rw [List.mem_append, not_or] at hnot
    rw [hrest id hnot.2, hmiddle id hnot.1]

theorem Yields.map {action : StateM Children α} {ids : List String} {value : α}
    (h : children.Yields action ids value) (f : α → β) :
    children.Yields (do return f (← action)) ids (f value) := by
  have hbind : children.Yields (do return f (← action)) (ids ++ []) (f value) :=
    h.bind (children.yields_pure _ _) (List.disjoint_nil_right ids)
  rwa [List.append_nil] at hbind

/-- Actions on items with no id in common leave each other what they need. -/
theorem yields_mapM {action : α → StateM Children β} {value : α → β} {ids : α → List String}
    (h : ∀ item, (ids item).Nodup → children.Yields (action item) (ids item) (value item))
    {items : List α} (hnodup : (items.flatMap ids).Nodup) :
    children.Yields (items.mapM action) (items.flatMap ids) (items.map value) := by
  induction items with
  | nil => exact children.yields_pure [] []
  | cons item items ih =>
    rw [List.flatMap_cons] at hnodup ⊢
    rw [List.mapM_cons]
    exact (h item hnodup.of_append_left).bind ((ih hnodup.of_append_right).map (value item :: ·))
      (List.disjoint_of_nodup_append hnodup)

end Children

namespace Registry

variable {registry : Registry} {children : Children}

/-- The tree of a node, to the given depth, when no children are taken out. -/
def outline (registry : Registry) (children : Children) : (depth : ℕ) → (id : String) → GraphNode
  | 0, id => ⟨id, registry.addressOf id, []⟩
  | depth + 1, id =>
    ⟨id, registry.addressOf id, (children.below id).map (registry.outline children depth)⟩

theorem id_outline (registry : Registry) (children : Children) (depth : ℕ) (id : String) :
    (registry.outline children depth id).id = id := by
  cases depth <;> rfl

theorem address_outline (registry : Registry) (children : Children) (depth : ℕ) (id : String) :
    (registry.outline children depth id).address = registry.addressOf id := by
  cases depth <;> rfl

theorem map_id_outline (registry : Registry) (children : Children) (depth : ℕ)
    (ids : List String) :
    (ids.map (registry.outline children depth)).map GraphNode.id = ids := by
  rw [List.map_map]
  exact List.map_id'' (registry.id_outline children depth) ids

theorem flatMap_children_outline_zero (registry : Registry) (children : Children)
    (ids : List String) :
    (ids.map (registry.outline children 0)).flatMap GraphNode.children = [] := by
  rw [List.flatMap_map]
  exact List.flatMap_eq_nil_iff.2 fun _ _ ↦ rfl

theorem flatMap_children_outline_succ (registry : Registry) (children : Children) (depth : ℕ)
    (ids : List String) :
    (ids.map (registry.outline children (depth + 1))).flatMap GraphNode.children =
      (ids.flatMap children.below).map (registry.outline children depth) := by
  rw [List.flatMap_map, List.map_flatMap]
  rfl

/-- The ids of an outline are the root and the ids of the outlines below it. -/
theorem ids_outline_succ (registry : Registry) (children : Children) (depth : ℕ) (id : String) :
    (registry.outline children (depth + 1) id).ids =
      id :: (children.below id).flatMap fun child ↦ (registry.outline children depth child).ids := by
  rw [outline, GraphNode.ids, GraphNode.forestIds_eq_flatMap, List.flatMap_map]

/-- Of a registry, an outline shows the addresses of its ids and nothing else. -/
theorem outline_congr {other : Registry} {depth : ℕ} {id : String}
    (h : ∀ held ∈ (registry.outline children depth id).ids,
      other.addressOf held = registry.addressOf held) :
    other.outline children depth id = registry.outline children depth id := by
  induction depth generalizing id with
  | zero =>
    have haddress : other.addressOf id = registry.addressOf id := h id (List.mem_singleton_self id)
    rw [outline, outline, haddress]
  | succ depth ih =>
    rw [ids_outline_succ] at h
    have hchildren : ∀ child ∈ children.below id,
        other.outline children depth child = registry.outline children depth child :=
      fun child hchild ↦ ih fun held hheld ↦
        h held (List.mem_cons_of_mem _ (List.mem_flatMap.2 ⟨child, hchild, hheld⟩))
    rw [outline, outline, h id List.mem_cons_self, List.map_congr_left hchildren]

/-- A tree in which no id comes twice is built as its outline. -/
theorem yields_build (registry : Registry) (children : Children) (depth : ℕ) (id : String)
    (hnodup : (registry.outline children depth id).ids.Nodup) :
    children.Yields (registry.build depth id) (registry.outline children depth id).ids
      (registry.outline children depth id) := by
  induction depth generalizing id with
  | zero => exact children.yields_pure _ _
  | succ depth ih =>
    rw [ids_outline_succ, ← List.singleton_append] at hnodup ⊢
    have hchildren := Children.yields_mapM ih hnodup.of_append_right
    exact (children.yields_take id).bind
      (hchildren.map fun trees ↦ GraphNode.mk id (registry.addressOf id) trees)
      (List.disjoint_of_nodup_append hnodup)

end Registry

end ServiceMesh

import ServiceMesh.Proofs.Topology.Locality

/-!
# Refreshed nodes

To insert an id that is registered only tells where its node is now.  The links of all nodes are the
graph of a registry: what an edit does to the graph, and whether it succeeds, depends on the graph
alone, and so do the walks, but for the addresses that they show.  So a history without such an
insert is a history of the same graph.
-/

namespace ServiceMesh

namespace GraphNode

mutual

/-- The ids of a tree in their places. -/
def unaddressed : GraphNode → GraphNode
  | ⟨id, _, children⟩ => ⟨id, "", unaddressedForest children⟩

def unaddressedForest : List GraphNode → List GraphNode
  | [] => []
  | tree :: rest => tree.unaddressed :: unaddressedForest rest

end

theorem unaddressedForest_eq_map (trees : List GraphNode) :
    unaddressedForest trees = trees.map unaddressed := by
  induction trees with
  | nil => rfl
  | cons tree rest ih => rw [unaddressedForest, ih, List.map_cons]

end GraphNode

namespace Registry

/-- An empty registry knows no address. -/
theorem unaddressed_outline (registry : Registry) (children : Children) (depth : ℕ) (id : String) :
    (registry.outline children depth id).unaddressed = outline {} children depth id := by
  induction depth generalizing id with
  | zero => rfl
  | succ depth ih =>
    rw [outline, outline, GraphNode.unaddressed, GraphNode.unaddressedForest_eq_map, List.map_map]
    exact congrArg (GraphNode.mk id "") (List.map_congr_left fun child _ ↦ ih child)

def graph (registry : Registry) : NameMap (NameMap Int64) := registry.nodes.map Node.links

variable {registry other : Registry}

/-- The graph forgets addresses and metadata. -/
theorem get?_graph (registry : Registry) (id : String) :
    registry.graph.get? id = (registry.get? id).map Node.links :=
  NameMap.get?_map _ _ _

theorem contains_graph (registry : Registry) (id : String) :
    registry.graph.contains id = registry.contains id :=
  NameMap.contains_map _ _ _

theorem names_graph (registry : Registry) : registry.graph.names = registry.ids :=
  NameMap.names_map _ _

theorem linkMetric?_eq (registry : Registry) (source target : String) :
    registry.linkMetric? source target =
      (registry.graph.get? source).bind (·.get? target) := by
  rw [get?_graph, Option.bind_map]
  rfl

/-- Live links can be told from the graph, as it knows what is registered. -/
theorem liveLinks_eq (registry : Registry) (id : String) :
    registry.liveLinks id =
      ((registry.graph.get? id).map fun links ↦
        links.entries.filter fun link ↦ registry.graph.contains link.1).getD [] := by
  rw [get?_graph, liveLinks]
  simp only [contains_graph]
  cases registry.get? id <;> rfl

section SameGraph

variable (h : other.graph = registry.graph)

include h

theorem contains_of_graph (id : String) : other.contains id = registry.contains id := by
  rw [← contains_graph, h, contains_graph]

theorem liveLinks_of_graph (id : String) : other.liveLinks id = registry.liveLinks id := by
  rw [liveLinks_eq, h, ← liveLinks_eq]

theorem walk_of_graph (root : String) : other.walk root = registry.walk root :=
  walk_congr (contains_of_graph h root) fun id _ _ ↦ liveLinks_of_graph h id

theorem edges_of_graph (root : String) : other.edges root = registry.edges root := by
  rw [edges, edges, walk_of_graph h]

theorem map_id_flatten_of_graph (root : String) :
    (other.flatten root).map NodeView.id = (registry.flatten root).map NodeView.id := by
  have hcontains := contains_of_graph h root
  have hids : other.reachableIds root = registry.reachableIds root := by
    rw [reachableIds, reachableIds, hcontains, walk_of_graph h]
  by_cases hroot : registry.contains root = true
  · rw [map_id_flatten (hcontains.trans hroot), map_id_flatten hroot, hids]
  · rw [flatten, flatten, hids, reachableIds, if_neg hroot]
    rfl

/-- Trees of one graph differ in addresses at most. -/
theorem unaddressed_tree_of_graph (root : String) (requested : ℕ) :
    (other.tree root requested).map GraphNode.unaddressed =
      (registry.tree root requested).map GraphNode.unaddressed := by
  have hcontains := contains_of_graph h root
  by_cases hroot : registry.contains root = true
  · rw [tree_eq_outline (hcontains.trans hroot), tree_eq_outline hroot, Option.map_some,
      Option.map_some, unaddressed_outline, unaddressed_outline,
      Search.after_congr fun id _ ↦ liveLinks_of_graph h id]
  · rw [tree, tree, hcontains, if_neg hroot, if_neg hroot]

end SameGraph

/-- What may be done to a registry and to the nodes in it. -/
inductive Edit where
  | insert (id address : String) (metadata : NameMap String)
  | remove (id : String)
  | addLink (id peer : String) (metric : Int64)
  | removeLink (id peer : String)
  | updateLink (id peer : String) (metric : Int64)

def edit (registry : Registry) : Edit → Registry
  | .insert id address metadata => registry.insert id address metadata
  | .remove id => registry.remove id
  | .addLink id peer metric => registry.modify id (·.addLink peer metric)
  | .removeLink id peer => registry.modify id (·.removeLink peer)
  | .updateLink id peer metric => registry.modify id (·.updateLink peer metric)

def editAll (registry : Registry) (edits : List Edit) : Registry := edits.foldl edit registry

/-- What an edit tells of its success: a removal, whether there was a node to remove; a change of
the links of a registered node, whether the link is new, or was there to be removed or updated. -/
def success? (registry : Registry) : Edit → Option Bool
  | .insert .. => none
  | .remove id => some (registry.contains id)
  | .addLink id peer _ => (registry.get? id).map fun node ↦ !node.hasLink peer
  | .removeLink id peer => (registry.get? id).map (·.hasLink peer)
  | .updateLink id peer _ => (registry.get? id).map (·.hasLink peer)

def successes (registry : Registry) : List Edit → List (Option Bool)
  | [] => []
  | edit :: edits => registry.success? edit :: (registry.edit edit).successes edits

/-- What an edit tells of a node: its address and its metadata. -/
def Edit.told? (id : String) : Edit → Option (String × NameMap String)
  | .insert inserted address metadata => if inserted = id then some (address, metadata) else none
  | _ => none

/-- An edit that inserts or removes no node changes the links of one, and tells nothing of it. -/
theorem edit_cases (edit : Edit) :
    (∃ id address metadata, edit = .insert id address metadata) ∨ (∃ id, edit = .remove id) ∨
      (∀ id, edit.told? id = none) ∧ ∃ id, ∃ relink : NameMap Int64 → NameMap Int64,
        ∀ registry : Registry, registry.edit edit =
          registry.modify id fun node ↦ { node with links := relink node.links } := by
  cases edit with
  | insert id address metadata => exact .inl ⟨id, address, metadata, rfl⟩
  | remove id => exact .inr (.inl ⟨id, rfl⟩)
  | addLink id peer metric =>
    exact .inr (.inr ⟨fun _ ↦ rfl, id, (·.insert peer metric), fun _ ↦ rfl⟩)
  | removeLink id peer => exact .inr (.inr ⟨fun _ ↦ rfl, id, (·.erase peer), fun _ ↦ rfl⟩)
  | updateLink id peer metric =>
    exact .inr (.inr ⟨fun _ ↦ rfl, id, (·.modify peer fun _ ↦ metric), fun _ ↦ rfl⟩)

theorem editAll_append (registry : Registry) (before later : List Edit) :
    registry.editAll (before ++ later) = (registry.editAll before).editAll later :=
  List.foldl_append

/-- A node that is inserted keeps the links that it had, or has none. -/
theorem graph_insert (registry : Registry) (id address : String) (metadata : NameMap String) :
    (registry.insert id address metadata).graph =
      registry.graph.insert id ((registry.graph.get? id).getD ∅) := by
  apply NameMap.ext_get?
  intro held
  rw [NameMap.get?_insert, get?_graph, get?_graph]
  split
  · next hheld =>
    rw [hheld, get?_insert_self]
    rfl
  · next hheld => rw [get?_insert_of_ne registry hheld, get?_graph]

/-- A node that is registered keeps its links when it is inserted again. -/
theorem graph_insert_of_contains {id : String} (h : registry.contains id = true) (address : String)
    (metadata : NameMap String) :
    (registry.insert id address metadata).graph = registry.graph := by
  obtain ⟨node, hnode⟩ := exists_get?_of_contains h
  have hlinks : registry.graph.get? id = some node.links := by
    rw [get?_graph, hnode, Option.map_some]
  apply NameMap.ext_get?
  intro held
  rw [graph_insert, NameMap.get?_insert, hlinks]
  split
  · next hheld =>
    rw [hheld, hlinks]
    rfl
  · rfl

/-- A removal takes out the node and every link to it, but links to a node that is not there
stay. -/
theorem graph_remove (registry : Registry) (id : String) :
    (registry.remove id).graph =
      if registry.graph.contains id then (registry.graph.erase id).map (·.erase id)
      else registry.graph := by
  rw [contains_graph]
  split
  · next hregistered =>
    apply NameMap.ext_get?
    intro held
    rw [get?_graph, get?_remove hregistered, NameMap.get?_map, NameMap.get?_erase, get?_graph]
    split
    · rfl
    · rw [Option.map_map, Option.map_map]
      rfl
  · next habsent => rw [remove_of_not_contains (Bool.not_eq_true _ ▸ habsent)]

theorem graph_modify (registry : Registry) (id : String)
    (relink : NameMap Int64 → NameMap Int64) :
    (registry.modify id fun node ↦ { node with links := relink node.links }).graph =
      registry.graph.modify id relink := by
  apply NameMap.ext_get?
  intro held
  rw [get?_graph, get?_modify, NameMap.get?_modify, get?_graph, Option.map_map, Option.map_map]
  congr 1
  funext node
  simp only [Function.comp_apply]
  split <;> rfl

/-- What becomes of the graph depends on nothing but the graph. -/
theorem graph_edit (h : other.graph = registry.graph) (edit : Edit) :
    (other.edit edit).graph = (registry.edit edit).graph := by
  rcases edit_cases edit with ⟨id, address, metadata, rfl⟩ | ⟨id, rfl⟩ | ⟨-, id, relink, hrelink⟩
  · rw [Registry.edit, Registry.edit, graph_insert, graph_insert, h]
  · rw [Registry.edit, Registry.edit, graph_remove, graph_remove, h]
  · rw [hrelink, hrelink, graph_modify, graph_modify, h]

/-- What is asked of a node's links is the same where the graph is. -/
theorem map_hasLink_of_graph (h : other.graph = registry.graph) (id peer : String) :
    (other.get? id).map (·.hasLink peer) = (registry.get? id).map (·.hasLink peer) := by
  have hlinks (registry : Registry) : (registry.get? id).map (·.hasLink peer) =
      (registry.graph.get? id).map (·.contains peer) := by
    rw [get?_graph, Option.map_map]
    rfl
  rw [hlinks, hlinks, h]

theorem success?_of_graph (h : other.graph = registry.graph) (edit : Edit) :
    other.success? edit = registry.success? edit := by
  cases edit with
  | insert id address metadata => rfl
  | remove id => exact congrArg some (contains_of_graph h id)
  | addLink id peer metric =>
    have hnot := congrArg (Option.map not) (map_hasLink_of_graph h id peer)
    rwa [Option.map_map, Option.map_map] at hnot
  | removeLink id peer => exact map_hasLink_of_graph h id peer
  | updateLink id peer metric => exact map_hasLink_of_graph h id peer

/-- A history succeeds and fails alike on one graph, and leads to one graph. -/
theorem graph_editAll (h : other.graph = registry.graph) (edits : List Edit) :
    (other.editAll edits).graph = (registry.editAll edits).graph ∧
      other.successes edits = registry.successes edits := by
  induction edits generalizing registry other with
  | nil => exact ⟨h, rfl⟩
  | cons edit edits ih =>
    obtain ⟨hgraph, hsuccesses⟩ := ih (graph_edit h edit)
    exact ⟨hgraph, by rw [successes, successes, success?_of_graph h, hsuccesses]⟩

def lastTold? (edits : List Edit) (id : String) : Option (String × NameMap String) :=
  edits.reverse.findSome? (Edit.told? id)

/-- The later of two histories decides, if it tells anything of the node. -/
theorem lastTold?_append (before later : List Edit) (id : String) :
    lastTold? (before ++ later) id = (lastTold? later id).or (lastTold? before id) := by
  rw [lastTold?, List.reverse_append, List.findSome?_append]
  rfl

theorem lastTold?_cons (edit : Edit) (later : List Edit) (id : String) :
    lastTold? (edit :: later) id = (lastTold? later id).or (edit.told? id) := by
  rw [← List.singleton_append, lastTold?_append, lastTold?.eq_def [edit], List.reverse_singleton,
    List.findSome?_singleton]

theorem lastTold?_isSome_of_mem {edits : List Edit} {id address : String}
    {metadata : NameMap String} (h : .insert id address metadata ∈ edits) :
    (lastTold? edits id).isSome = true := by
  rw [lastTold?, List.findSome?_isSome_iff]
  exact ⟨_, List.mem_reverse.2 h, by rw [Edit.told?, if_pos rfl]; rfl⟩

/-- A node keeps what was told of it until the next insert of its id. -/
theorem told_edit {edit : Edit} {id : String} {node : Node}
    (h : (registry.edit edit).get? id = some node) :
    edit.told? id = some (node.address, node.metadata) ∨
      edit.told? id = none ∧ ∃ held, registry.get? id = some held ∧
        held.address = node.address ∧ held.metadata = node.metadata := by
  rcases edit_cases edit with
    ⟨inserted, address, metadata, rfl⟩ | ⟨removed, rfl⟩ | ⟨htold, changed, relink, hrelink⟩
  · rw [Registry.edit] at h
    by_cases hid : inserted = id
    · subst hid
      rw [get?_insert_self, Option.some_inj] at h
      subst h
      exact .inl (if_pos rfl)
    · rw [get?_insert_of_ne registry (Ne.symm hid)] at h
      exact .inr ⟨if_neg hid, node, h, rfl, rfl⟩
  · refine .inr ⟨rfl, ?_⟩
    rw [Registry.edit] at h
    cases hregistered : registry.contains removed with
    | false =>
      rw [remove_of_not_contains hregistered] at h
      exact ⟨node, h, rfl, rfl⟩
    | true =>
      rw [get?_remove hregistered] at h
      split at h
      · cases h
      · obtain ⟨held, hheld, rfl⟩ := Option.map_eq_some_iff.1 h
        exact ⟨held, hheld, rfl, rfl⟩
  · rw [hrelink, get?_modify] at h
    obtain ⟨held, hheld, rfl⟩ := Option.map_eq_some_iff.1 h
    refine .inr ⟨htold id, held, hheld, ?_⟩
    split <;> exact ⟨rfl, rfl⟩

/-- A node is as its last insert has told. -/
theorem lastTold?_editAll (edits : List Edit) {id : String} {node : Node}
    (h : (editAll {} edits).get? id = some node) :
    lastTold? edits id = some (node.address, node.metadata) := by
  induction edits using List.reverseRecOn generalizing node with
  | nil => cases h
  | append_singleton edits edit ih =>
    rw [editAll_append] at h
    rw [lastTold?_append, lastTold?_cons]
    rcases told_edit h with htold | ⟨htold, held, hheld, haddress, hmetadata⟩
    · rw [htold]
      rfl
    · rw [htold, ih hheld, haddress, hmetadata]
      rfl

/-! ## A refresh left out -/

/-- Links and what is told make up a node. -/
theorem get?_eq_of_graph (h : other.graph = registry.graph) {id : String}
    (htold : ∀ node ∈ registry.get? id, ∀ node' ∈ other.get? id,
      node'.address = node.address ∧ node'.metadata = node.metadata) :
    other.get? id = registry.get? id := by
  have hlinks : (other.get? id).map Node.links = (registry.get? id).map Node.links := by
    rw [← get?_graph, h, get?_graph]
  cases hnode : registry.get? id with
  | none =>
    rw [hnode] at hlinks
    exact Option.map_eq_none_iff.1 hlinks
  | some node =>
    rw [hnode] at hlinks
    obtain ⟨node', hnode', hsame⟩ := Option.map_eq_some_iff.1 hlinks
    obtain ⟨haddress, hmetadata⟩ := htold node hnode node' hnode'
    rw [hnode']
    obtain ⟨_, _, _⟩ := node
    obtain ⟨_, _, _⟩ := node'
    simp only at hsame haddress hmetadata
    rw [hsame, haddress, hmetadata]

/-- Let an insert of an id that is registered by then be left out of a history.  The same ids are
registered at the end, with the same links and metrics; all later edits succeed or fail alike; and
from every root the walks inspect the same links and list the same ids, and the trees have the same
ids in the same places.  Every registered node has the address and the metadata of the last insert
of its id, so the only node that may differ is that of the insert left out, and only if it was not
inserted later. -/
theorem refresh_leaves_graph {before : List Edit} {id : String}
    (hregistered : (editAll {} before).contains id = true) (address : String)
    (metadata : NameMap String) (later : List Edit) :
    let refreshed := editAll {} (before ++ .insert id address metadata :: later)
    let plain := editAll {} (before ++ later)
    refreshed.ids = plain.ids ∧
    (∀ source target, refreshed.linkMetric? source target = plain.linkMetric? source target) ∧
    ((editAll {} before).insert id address metadata).successes later =
      (editAll {} before).successes later ∧
    (∀ root, refreshed.edges root = plain.edges root ∧
      (refreshed.flatten root).map NodeView.id = (plain.flatten root).map NodeView.id ∧
      ∀ requested, (refreshed.tree root requested).map GraphNode.unaddressed =
        (plain.tree root requested).map GraphNode.unaddressed) ∧
    (∀ edits held node, (editAll {} edits).get? held = some node →
      lastTold? edits held = some (node.address, node.metadata)) ∧
    ∀ held, refreshed.get? held ≠ plain.get? held →
      held = id ∧ ∀ address metadata, .insert id address metadata ∉ later := by
  intro refreshed plain
  have hstart := graph_insert_of_contains hregistered address metadata
  obtain ⟨hgraph, hsuccesses⟩ := graph_editAll hstart later
  have hrefreshed : refreshed =
      ((editAll {} before).insert id address metadata).editAll later :=
    editAll_append {} before _
  have hplain : plain = (editAll {} before).editAll later := editAll_append {} before later
  rw [← hrefreshed, ← hplain] at hgraph
  refine ⟨?ids, ?links, hsuccesses, fun root ↦ ⟨edges_of_graph hgraph root,
    map_id_flatten_of_graph hgraph root, unaddressed_tree_of_graph hgraph root⟩,
    fun edits _ _ ↦ lastTold?_editAll edits, fun held hdiffers ↦ ?_⟩
  case ids => rw [← names_graph, hgraph, names_graph]
  case links =>
    intro source target
    rw [linkMetric?_eq, hgraph, ← linkMetric?_eq]
  by_contra hother
  have htold : lastTold? (before ++ .insert id address metadata :: later) held =
      lastTold? (before ++ later) held := by
    rw [lastTold?_append, lastTold?_append, lastTold?_cons, Edit.told?]
    split
    · next hheld =>
      subst hheld
      simp only [true_and, not_forall, not_not] at hother
      obtain ⟨address', metadata', hmem⟩ := hother
      obtain ⟨told, hlater⟩ := Option.isSome_iff_exists.1 (lastTold?_isSome_of_mem hmem)
      rw [hlater]
      rfl
    · rw [Option.or_none]
  refine hdiffers (get?_eq_of_graph hgraph fun node hnode node' hnode' ↦ ?_)
  have hsame := ((lastTold?_editAll _ hnode').symm.trans htold).trans (lastTold?_editAll _ hnode)
  exact Prod.mk.inj (Option.some_inj.1 hsame)

/-- One node is removed and registered again, which takes away its links and those to it; the other
one, which was refreshed before, keeps what is left of its own. -/
theorem refresh_leaves_graph_moved :
    let before : List Edit :=
      [.insert "a" "a:1" ∅, .insert "b" "b:1" ∅, .addLink "a" "b" 5, .addLink "a" "ghost" 2]
    let later : List Edit :=
      [.addLink "b" "a" 4, .remove "b", .insert "b" "b:2" ∅, .updateLink "a" "b" 3,
        .updateLink "a" "ghost" 7, .addLink "b" "a" 1]
    let refreshed := editAll {} (before ++ .insert "a" "a:2" (.ofList [("zone", "north")]) :: later)
    let plain := editAll {} (before ++ later)
    (editAll {} before).contains "a" = true ∧
    ((editAll {} before).insert "a" "a:2" (.ofList [("zone", "north")])).successes later =
      [some true, some true, none, some false, some true, some true] ∧
    refreshed.ids = ["a", "b"] ∧
    refreshed.linkMetric? "a" "ghost" = some 7 ∧
    refreshed.edges "b" = [⟨"b", "a", 1⟩] ∧
    (refreshed.get? "a").map Node.address = some "a:2" ∧
    (plain.get? "a").map Node.address = some "a:1" ∧ refreshed.get? "b" = plain.get? "b" := by
  intro before later refreshed plain
  have hregistered : (editAll {} before).contains "a" = true := by decide +kernel
  obtain ⟨hids, hlinks, hsuccesses, hwalks, -, hdiffers⟩ :=
    refresh_leaves_graph hregistered "a:2" (.ofList [("zone", "north")]) later
  have hsame : refreshed.get? "b" = plain.get? "b" := by
    by_contra hne
    exact absurd (hdiffers "b" hne).1 (by decide)
  refine ⟨hregistered, hsuccesses.trans ?_, hids.trans ?_, (hlinks "a" "ghost").trans ?_,
    (hwalks "b").1.trans ?_, ?_, ?_, hsame⟩ <;> decide +kernel

end Registry

end ServiceMesh

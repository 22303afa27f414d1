import ServiceMesh.Proofs.Json.Parts
import ServiceMesh.Proofs.Topology.Tree
import ServiceMesh.Proofs.Wire.RoundTrip
import ServiceMesh.Wire.Topology

/-!
# Trees on the wire

A tree opens one object for its root and two brackets more for every hop below it, so how deep its
text nests is told by its depth.  A reader that may open that many accepts the text and gives the
tree back, and one that may not refuses it.  Whatever a reader accepts as a tree, in whatever form,
nests so deep at least.
-/

namespace ServiceMesh.GraphNode

open Wire (member)

/-- The number of arrays and objects that are nested in one another in the text of a tree. -/
def nesting (tree : GraphNode) : ℕ := 2 * tree.depth + 1

/-- Two brackets go with every hop: those of the list of children, and those of the child. -/
theorem nesting_le_iff {tree : GraphNode} {depth : ℕ} :
    tree.nesting ≤ depth + 2 ↔ ∀ child ∈ tree.children, child.nesting ≤ depth := by
  obtain ⟨id, address, children⟩ := tree
  have hdepth : nesting ⟨id, address, children⟩ ≤ depth + 2 ↔
      forestDepth children ≤ (depth + 1) / 2 := by
    rw [nesting, GraphNode.depth]
    omega
  rw [hdepth, forestDepth_le_iff]
  refine forall₂_congr fun child _ ↦ ?_
  rw [nesting]
  omega

theorem nesting_le_one_iff {tree : GraphNode} : tree.nesting ≤ 1 ↔ tree.children = [] := by
  obtain ⟨id, address, children⟩ := tree
  rw [nesting, GraphNode.depth]
  cases children with
  | nil => simp [forestDepth]
  | cons child rest =>
    simp only [forestDepth, reduceCtorEq, iff_false]
    omega

theorem writeForest_eq_map (trees : List GraphNode) : writeForest trees = trees.map write := by
  induction trees with
  | nil => rfl
  | cons tree rest ih => rw [writeForest, ih, List.map_cons]

/-- The member for the children, which is left out if there are none. -/
def childrenMember : List GraphNode → List (String × Json.Written)
  | [] => []
  | children => [("children", Json.writeSequence (children.map write))]

def parts (tree : GraphNode) : List (String × Json.Written) :=
  member "id" tree.id :: member "address" tree.address :: childrenMember tree.children

/-- A tree is written as a record is, though it is written by its own recursion. -/
theorem write_eq_writeObject (tree : GraphNode) : tree.write = Json.writeObject tree.parts := by
  obtain ⟨id, address, children⟩ := tree
  cases children with
  | nil => rfl
  | cons child rest =>
    have hwrite : write ⟨id, address, child :: rest⟩ = Json.writeObject [member "id" id,
        member "address" address, ("children", Json.writeSequence (writeForest (child :: rest)))] :=
      rfl
    rw [hwrite, writeForest_eq_map]
    rfl

mutual

theorem value_parts :
    ∀ tree : GraphNode, ∀ member ∈ tree.parts, Json.Value (Json.encoded member.2)
  | ⟨id, address, []⟩ => List.forall_mem_cons.2 ⟨Json.value_writeText id,
      List.forall_mem_cons.2 ⟨Json.value_writeText address, fun _ hmem ↦ by cases hmem⟩⟩
  | ⟨id, address, child :: rest⟩ => by
    have hchildren := value_forest (child :: rest)
    have hsequence := Json.value_writeSequence (List.forall_mem_map.2 hchildren)
    exact List.forall_mem_cons.2 ⟨Json.value_writeText id, List.forall_mem_cons.2
      ⟨Json.value_writeText address, List.forall_mem_singleton.2 hsequence⟩⟩

theorem value_forest :
    ∀ trees : List GraphNode, ∀ tree ∈ trees, Json.Value (Json.encoded tree.write)
  | [] => fun _ hmem ↦ by cases hmem
  | tree :: rest => List.forall_mem_cons.2
      ⟨write_eq_writeObject tree ▸ Json.value_writeObject (value_parts tree), value_forest rest⟩

end

section Records

variable {readChildren : Json.Reader (List GraphNode)} {depth : ℕ}

theorem orderly_shape (h : Json.Orderly readChildren) (depth : ℕ) :
    ∀ field ∈ (shape readChildren depth).fields, Json.Orderly field.fill := by
  have hid := Json.orderly_field Json.orderly_text "id" .required
    fun (node : GraphNode) id ↦ { node with id }
  have haddress := Json.orderly_field Json.orderly_text "address" .required
    fun (node : GraphNode) address ↦ { node with address }
  have hchildren := Json.orderly_field h "children" .optional
    fun (node : GraphNode) children ↦ { node with children }
  exact List.forall_mem_cons.2 ⟨hid, List.forall_mem_cons.2
    ⟨haddress, List.forall_mem_singleton.2 hchildren⟩⟩

/-- A tree is read if its children are, or if there are none. -/
theorem reads_parts {tree : GraphNode} (h : tree.children = [] ∨ Json.Reads readChildren
      (Json.encoded (Json.writeSequence (tree.children.map write))) tree.children) :
    Json.Reads (Json.record (shape readChildren) (depth + 1)) (Json.encoded tree.write) tree := by
  obtain ⟨id, address, children⟩ := tree
  have hid : Json.Fits (shape readChildren depth).fields (member "id" id)
      fun node ↦ { node with id } :=
    ⟨_, rfl, Wire.reads_field Wire.roundTrips_string (Nat.zero_le _) _ _ _ _⟩
  have haddress : Json.Fits (shape readChildren depth).fields (member "address" address)
      fun node ↦ { node with address } :=
    ⟨_, rfl, Wire.reads_field Wire.roundTrips_string (Nat.zero_le _) _ _ _ _⟩
  rw [write_eq_writeObject]
  cases children with
  | nil =>
    have hnames : ["id", "address"].Nodup := by decide
    exact Json.reads_record (.cons hid (.cons haddress .nil)) hnames
      (by simp [shape, Wire.field, Json.field, member])
  | cons child rest =>
    have hchildren : Json.Fits (shape readChildren depth).fields
        ("children", Json.writeSequence ((child :: rest).map write))
        fun node ↦ { node with children := child :: rest } :=
      ⟨_, rfl, Json.reads_field (h.resolve_left (List.cons_ne_nil _ _)) _ _ _⟩
    have hnames : ["id", "address", "children"].Nodup := by decide
    exact Json.reads_record (.cons hid (.cons haddress (.cons hchildren .nil))) hnames
      (by simp [shape, Wire.field, Json.field, member])

/-- If a tree is accepted, so are its children, unless there are none. -/
theorem accepts_children (horderly : Json.Orderly readChildren) {tree : GraphNode}
    (h : Json.Accepts (Json.record (shape readChildren) depth) (Json.encoded tree.write)) :
    depth ≠ 0 ∧ (tree.children = [] ∨ Json.Accepts readChildren
      (Json.encoded (Json.writeSequence (tree.children.map write)))) := by
  rw [write_eq_writeObject] at h
  obtain ⟨inner, rfl, haccepts⟩ :=
    Json.accepts_record (orderly_shape horderly) (value_parts tree) h
  refine ⟨Nat.succ_ne_zero inner, ?_⟩
  obtain ⟨id, address, _ | ⟨child, rest⟩⟩ := tree
  · exact .inl rfl
  · have hmem : ("children", Json.writeSequence ((child :: rest).map write)) ∈
        parts ⟨id, address, child :: rest⟩ :=
      List.mem_cons_of_mem _ (List.mem_cons_of_mem _ List.mem_cons_self)
    exact .inr (Json.accepts_of_field (haccepts _ hmem _ rfl))

/-- The children of a tree that is read were read as such, or are none. -/
theorem children_of_read {P : List GraphNode → Prop} (hnil : P [])
    (hread : ∀ {input children rest}, readChildren input = .ok (children, rest) → P children)
    {input rest : Json.Bytes} {tree : GraphNode}
    (h : Json.record (shape readChildren) (depth + 1) input = .ok (tree, rest)) :
    P tree.children := by
  refine Json.record_invariant (P := fun tree ↦ P tree.children) hnil ?_ h
  intro field hfield input set rest h node hnode
  simp only [shape, List.mem_cons, List.not_mem_nil, or_false] at hfield
  rcases hfield with rfl | rfl | rfl
  · obtain ⟨id, -, rfl⟩ := Json.field_eq_ok h
    exact hnode
  · obtain ⟨address, -, rfl⟩ := Json.field_eq_ok h
    exact hnode
  · obtain ⟨children, hchildren, rfl⟩ := Json.field_eq_ok h
    exact hread hchildren

end Records

/-- Where no more may be opened, no children are read. -/
theorem not_accepts_closed {read : Json.Reader GraphNode} {text : Json.Bytes} :
    ¬ Json.Accepts (Json.sequence 0 read) text := by
  rintro ⟨_, _, _, -, h⟩
  exact (Json.sequence_eq_ok h).1 rfl

theorem orderly_closed :
    Json.Orderly (Json.sequence 0 fun _ ↦ (.error .malformed : Except _ (GraphNode × _))) :=
  Json.orderly_sequence ⟨fun _ ↦ rfl, fun h ↦ by cases h⟩ 0

theorem orderly_read (depth : ℕ) : Json.Orderly (read depth) := by
  induction depth using read.induct with
  | case1 => exact Json.orderly_record fun inner _ ↦ orderly_shape orderly_closed inner
  | case2 => exact Json.orderly_record fun inner _ ↦ orderly_shape orderly_closed inner
  | case3 depth ih =>
    exact Json.orderly_record fun inner _ ↦
      orderly_shape (Json.orderly_sequence ih (depth + 1)) inner

/-- A reader that may open as many arrays and objects as a tree nests gives the tree back. -/
theorem reads_write (depth : ℕ) :
    ∀ tree : GraphNode, tree.nesting ≤ depth →
      Json.Reads (read depth) (Json.encoded tree.write) tree := by
  induction depth using read.induct with
  | case1 =>
    intro tree h
    rw [nesting] at h
    omega
  | case2 => exact fun tree h ↦ reads_parts (.inl (nesting_le_one_iff.1 h))
  | case3 depth ih =>
    intro tree h
    have hchildren : ∀ child ∈ tree.children, child.nesting ≤ depth := nesting_le_iff.1 h
    refine reads_parts (.inr (Json.reads_sequence ?_ (Nat.succ_ne_zero depth)))
    rw [List.forall₂_map_left_iff, List.forall₂_same]
    exact fun child hmem ↦ ih child (hchildren child hmem)

/-- A reader that may open fewer refuses the text of the tree. -/
theorem nesting_le_of_accepts (depth : ℕ) :
    ∀ tree : GraphNode, Json.Accepts (read depth) (Json.encoded tree.write) →
      tree.nesting ≤ depth := by
  induction depth using read.induct with
  | case1 => exact fun tree h ↦ absurd rfl (accepts_children orderly_closed h).1
  | case2 =>
    intro tree h
    obtain ⟨-, hchildren⟩ := accepts_children orderly_closed h
    exact nesting_le_one_iff.2 (hchildren.resolve_right not_accepts_closed)
  | case3 depth ih =>
    intro tree h
    refine nesting_le_iff.2 fun child hchild ↦ ih child ?_
    have horderly := orderly_read depth
    obtain ⟨-, hnil | hchildren⟩ :=
      accepts_children (Json.orderly_sequence horderly (depth + 1)) h
    · rw [hnil] at hchild
      cases hchild
    · have hvalues : ∀ part ∈ tree.children.map write, Json.Value (Json.encoded part) :=
        List.forall_mem_map.2 (value_forest tree.children)
      have haccepts := (Json.accepts_sequence horderly hvalues hchildren).2
      exact haccepts _ (List.mem_map_of_mem hchild)

/-- Whatever is read as a tree nests no deeper than the reader may open. -/
theorem nesting_le_of_read (depth : ℕ) :
    ∀ {input rest : Json.Bytes} {tree : GraphNode}, read depth input = .ok (tree, rest) →
      tree.nesting ≤ depth := by
  induction depth using read.induct with
  | case1 =>
    intro input rest tree h
    obtain ⟨inner, ahead, hdepth, -⟩ := Json.record_eq_ok h
    cases hdepth
  | case2 =>
    intro input rest tree h
    exact nesting_le_one_iff.2 (children_of_read (P := (· = [])) rfl
      (fun hread ↦ absurd rfl (Json.sequence_eq_ok hread).1) h)
  | case3 depth ih =>
    intro input rest tree h
    refine nesting_le_iff.2 (children_of_read (P := fun children ↦ ∀ child ∈ children,
      child.nesting ≤ depth) (fun _ hmem ↦ by cases hmem) (fun hread ↦ ?_) h)
    obtain ⟨-, ahead, -, hrun⟩ := Json.sequence_eq_ok hread
    exact hrun.forall ih

theorem nesting_le_greatest_iff {tree : GraphNode} :
    tree.nesting ≤ Wire.greatestNesting ↔ tree.depth ≤ 63 := by
  rw [nesting, Wire.greatestNesting]
  omega

/-- Sixty-three hops below the root are as many as a reader may open. -/
theorem decode_encode {tree : GraphNode} (h : tree.depth ≤ 63) :
    Wire.decode (Json.bytes (Wire.encode tree)) = .ok tree := by
  rw [Wire.decode, Wire.encode, Json.bytes_ofList_written]
  exact (reads_write _ tree (nesting_le_greatest_iff.2 h)).readAll

/-- No text is decoded as a tree that is deeper, whatever wrote it. -/
theorem depth_le_of_decode {input : Json.Bytes} {tree : GraphNode}
    (h : Wire.decode input = .ok tree) : tree.depth ≤ 63 := by
  obtain ⟨⟨held, rest⟩, hread, h⟩ := Json.bind_eq_ok_iff.1 h
  obtain rfl : held = tree := by
    dsimp only at h
    split at h
    · exact Json.pure_eq_ok_iff.1 h
    · cases h
  exact nesting_le_greatest_iff.1 (nesting_le_of_read _ hread)

theorem depth_le_of_decode_encode {tree tree' : GraphNode}
    (h : Wire.decode (Json.bytes (Wire.encode tree)) = .ok tree') : tree.depth ≤ 63 := by
  rw [Wire.decode, Wire.encode, Json.bytes_ofList_written] at h
  obtain ⟨⟨held, rest⟩, hread, -⟩ := Json.bind_eq_ok_iff.1 h
  refine nesting_le_greatest_iff.1 (nesting_le_of_accepts _ tree
    ⟨[], held, rest, Json.delimited_nil, ?_⟩)
  rw [List.append_nil]
  exact hread

/-- A tree that is at most sixty-three hops deep is decoded as it was encoded, and the text of a
deeper one is refused.  The trees that a walk builds are of the first kind, whatever the mesh, the
root and the depth that is asked for.  So is whatever is decoded as a tree, in whatever form: what
is encoded of it is decoded as the same tree again. -/
theorem trees_survive_up_to_nesting :
    (∀ tree : GraphNode, tree.depth ≤ 63 →
      Wire.decode (Json.bytes (Wire.encode tree)) = .ok tree) ∧
    (∀ tree : GraphNode, 64 ≤ tree.depth → ∃ fault,
      (Wire.decode (Json.bytes (Wire.encode tree)) : Except Json.Fault GraphNode) =
        .error fault) ∧
    (∀ (registry : Registry) (root : String) (requested : ℕ) (tree : GraphNode),
      registry.tree root requested = some tree → tree.depth ≤ 63) ∧
    ∀ (input : Json.Bytes) (tree : GraphNode), Wire.decode input = .ok tree →
      Wire.decode (Json.bytes (Wire.encode tree)) = .ok tree := by
  refine ⟨fun tree h ↦ decode_encode h, fun tree h ↦ ?_, fun registry root requested tree h ↦ ?_,
    fun input tree h ↦ decode_encode (depth_le_of_decode h)⟩
  · cases hdecode : (Wire.decode (Json.bytes (Wire.encode tree)) : Except Json.Fault GraphNode) with
    | error fault => exact ⟨fault, rfl⟩
    | ok tree' =>
      have hdepth := depth_le_of_decode_encode hdecode
      omega
  · have hmax : maxDepth ≤ 63 := by decide
    exact (Registry.depth_le_of_tree h).trans hmax

/-- A tree without branches. -/
def chain : ℕ → GraphNode
  | 0 => ⟨"n", "a", []⟩
  | hops + 1 => ⟨"n", "a", [chain hops]⟩

theorem depth_chain (hops : ℕ) : (chain hops).depth = hops := by
  induction hops with
  | zero => rfl
  | succ hops ih =>
    rw [chain, GraphNode.depth, forestDepth, forestDepth, ih, Nat.max_zero, Nat.add_comm]

theorem trees_survive_up_to_nesting_chain :
    (chain 63).depth ≤ 63 ∧ Wire.decode (Json.bytes (Wire.encode (chain 63))) = .ok (chain 63) ∧
    64 ≤ (chain 64).depth ∧
    (∃ fault, (Wire.decode (Json.bytes (Wire.encode (chain 64))) : Except Json.Fault GraphNode) =
      .error fault) ∧
    (∃ tree, (Registry.ofLinks ["a", "b"] [("a", "b")]).tree "a" 0 = some tree ∧
      tree.depth ≤ 63) ∧
    Wire.decode (Json.bytes "[\"n\", \"a\", []]") = .ok (chain 0) ∧
    Wire.decode (Json.bytes
      "\x7b\"x\":[\x7b\x7d],\"address\":\"a\",\"id\":\"n\",\"children\":[]\x7d") = .ok (chain 0) ∧
    Wire.decode (Json.bytes (Wire.encode (chain 0))) = .ok (chain 0) := by
  obtain ⟨hreads, hrefuses, hbuilt, hagain⟩ := trees_survive_up_to_nesting
  have hshallow : (chain 63).depth ≤ 63 := (depth_chain 63).le
  have hdeep : 64 ≤ (chain 64).depth := (depth_chain 64).ge
  have hsequence : Wire.decode (Json.bytes "[\"n\", \"a\", []]") = .ok (chain 0) := rfl
  obtain ⟨tree, htree⟩ := Option.isSome_iff_exists.1
    (show ((Registry.ofLinks ["a", "b"] [("a", "b")]).tree "a" 0).isSome = true by decide +kernel)
  exact ⟨hshallow, hreads _ hshallow, hdeep, hrefuses _ hdeep, ⟨tree, htree, hbuilt _ _ _ _ htree⟩,
    hsequence, rfl, hagain _ _ hsequence⟩

end ServiceMesh.GraphNode

import Mathlib.Algebra.Order.BigOperators.Group.List
import Mathlib.Algebra.Order.Ring.Nat
import ServiceMesh.Proofs.Topology.Edges

/-!
# The rounds of a walk

The loop of a walk goes on until its stack is empty, whatever the registry.  In every round it takes
a node off the stack and puts there what it has just marked, so the nodes that are not marked and
those that wait become one fewer.  Every node is put on the stack once at most, because it is marked
before it gets there; the rounds are as many as the nodes that are listed, and the links inspected
are no more than there are.
-/

namespace ServiceMesh.Registry

/-- A walk between two rounds of its loop. -/
structure WalkLoop where
  stack : List String
  seen : List String
  /-- All ids that were ever put on the stack. -/
  pushed : List String
  nodes : List NodeView
  edges : List Edge
  deriving DecidableEq

namespace WalkLoop

variable {registry : Registry} {root : String} {loop next : WalkLoop}

def start (registry : Registry) (root : String) : WalkLoop :=
  let ids := if registry.contains root then [root] else []
  ⟨ids, ids, ids, ids.filterMap registry.view?, []⟩

/-- The walk when a node has been taken off its stack and expanded. -/
def expanded (registry : Registry) (loop : WalkLoop) (id : String) (stack : List String) :
    WalkLoop :=
  let links := registry.liveLinks id
  let discovered := undiscovered loop.seen links
  { stack := discovered ++ stack
    seen := loop.seen ++ discovered
    pushed := loop.pushed ++ discovered
    nodes := loop.nodes ++ discovered.filterMap registry.view?
    edges := loop.edges ++ (Expansion.mk id links discovered).edges }

/-- One round: the node on the top of the stack is expanded.  There is none if nothing waits. -/
def next? (registry : Registry) (loop : WalkLoop) : Option WalkLoop :=
  match loop.stack with
  | [] => none
  | id :: stack => some (loop.expanded registry id stack)

def after (registry : Registry) : (rounds : ℕ) → WalkLoop → Option WalkLoop
  | 0, loop => some loop
  | rounds + 1, loop => (loop.next? registry).bind (after registry rounds)

theorem exists_expanded (h : loop.next? registry = some next) :
    ∃ id stack, loop.stack = id :: stack ∧ loop.expanded registry id stack = next := by
  rw [next?] at h
  split at h
  · cases h
  · next id stack hstack => exact ⟨id, stack, hstack, Option.some.inj h⟩

/-- The number of registered nodes that are not marked, and of all that waits. -/
def outstanding (registry : Registry) (loop : WalkLoop) : ℕ :=
  (registry.ids.filter (· ∉ loop.seen)).length + loop.stack.length

/-- What is discovered is not marked before, and is marked then. -/
theorem length_unseen (registry : Registry) (seen : List String) (id : String) :
    (registry.ids.filter (· ∉ seen)).length =
      (registry.ids.filter (· ∉ seen ++ undiscovered seen (registry.liveLinks id))).length +
        (undiscovered seen (registry.liveLinks id)).length := by
  let found := undiscovered seen (registry.liveLinks id)
  let unseen := registry.ids.filter (· ∉ seen)
  have hfound : (unseen.filter (· ∈ found)).Perm found := by
    have hnodup : unseen.Nodup := registry.nodes.names_ascending.nodup.filter _
    apply (List.perm_ext_iff_of_nodup (hnodup.filter _) (nodup_undiscovered registry seen id)).2
    intro target
    rw [List.mem_filter, decide_eq_true_iff, List.mem_filter, decide_eq_true_iff]
    refine and_iff_right_of_imp fun hmem ↦ ?_
    obtain ⟨hhop, hunseen⟩ := mem_undiscovered_iff.1 hmem
    exact ⟨NameMap.mem_names_iff.2 hhop.registered, hunseen⟩
  have hrest : unseen.filter (fun target ↦ !decide (target ∈ found)) =
      registry.ids.filter (· ∉ seen ++ found) := by
    rw [List.filter_filter]
    apply List.filter_congr
    intro target _
    simp [not_or, Bool.and_comm]
  rw [List.length_eq_length_filter_add (· ∈ found), hrest, hfound.length_eq, Nat.add_comm]

/-- What is discovered goes from the nodes that are not marked to those that wait, and the node that
is expanded goes off. -/
theorem outstanding_next (h : loop.next? registry = some next) :
    next.outstanding registry + 1 = loop.outstanding registry := by
  obtain ⟨id, stack, hstack, rfl⟩ := exists_expanded h
  have hnext : (loop.expanded registry id stack).outstanding registry =
      (registry.ids.filter (· ∉ loop.seen ++
        undiscovered loop.seen (registry.liveLinks id))).length +
      (undiscovered loop.seen (registry.liveLinks id) ++ stack).length := rfl
  rw [hnext, outstanding, hstack, length_unseen registry loop.seen id, List.length_append,
    List.length_cons]
  omega

/-- From wherever it goes on, the loop makes no more rounds than there are nodes outstanding. -/
theorem le_outstanding_of_after {rounds : ℕ} {last : WalkLoop}
    (h : loop.after registry rounds = some last) : rounds ≤ loop.outstanding registry := by
  induction rounds generalizing loop with
  | zero => exact Nat.zero_le _
  | succ rounds ih =>
    obtain ⟨next, hnext, hlast⟩ := Option.bind_eq_some_iff.1 h
    rw [← outstanding_next hnext]
    exact Nat.succ_le_succ (ih hlast)

/-- At the start at most one node is marked, and it waits. -/
theorem outstanding_start_le (registry : Registry) (root : String) :
    (start registry root).outstanding registry ≤ registry.size := by
  have hsize : registry.ids.length = registry.size := List.length_map _
  rw [outstanding, start]
  split
  · next h =>
    have hroot : root ∈ registry.ids := NameMap.mem_names_iff.2 h
    have hfewer : (registry.ids.filter (· ∉ [root])).length < registry.ids.length :=
      List.length_filter_lt_length_iff_exists.2 ⟨root, hroot, by simp⟩
    exact hsize ▸ hfewer
  · exact hsize ▸ List.length_filter_le _ _

/-- A walk has put on the stack just what it has marked. -/
structure Tracked (registry : Registry) (loop : WalkLoop) : Prop where
  frontier : Frontier registry loop.stack loop.seen
  pushed_eq : loop.pushed = loop.seen

theorem tracked_start (registry : Registry) (root : String) :
    (start registry root).Tracked registry := by
  refine ⟨?_, rfl⟩
  rw [start]
  split
  · next h => exact .start h
  · exact
    { nodup := List.nodup_nil
      registered := List.forall_mem_nil _
      waiting := List.forall_mem_nil _
      closed := List.forall_mem_nil _
      led := fun before id hprefix ↦ absurd (List.prefix_nil.1 hprefix) (by simp) }

theorem Tracked.step (h : loop.Tracked registry) (hnext : loop.next? registry = some next) :
    next.Tracked registry := by
  obtain ⟨id, stack, hstack, rfl⟩ := exists_expanded hnext
  have hfrontier := h.frontier
  rw [hstack] at hfrontier
  exact ⟨hfrontier.step, congrArg (· ++ _) h.pushed_eq⟩

/-- A walk keeps track in all its rounds. -/
theorem Tracked.after {rounds : ℕ} {last : WalkLoop} (h : loop.Tracked registry)
    (hlast : loop.after registry rounds = some last) : last.Tracked registry := by
  induction rounds generalizing loop with
  | zero => exact Option.some.inj hlast ▸ h
  | succ rounds ih =>
    obtain ⟨next, hnext, hlast⟩ := Option.bind_eq_some_iff.1 hlast
    exact ih (h.step hnext) hlast

/-- A loop that has ended makes no more rounds, and has made all the rounds before. -/
theorem isSome_after_iff {rounds : ℕ} {last : WalkLoop}
    (h : loop.after registry rounds = some last) (hended : last.stack = []) (count : ℕ) :
    (loop.after registry count).isSome = true ↔ count ≤ rounds := by
  induction rounds generalizing loop count with
  | zero =>
    obtain rfl := Option.some.inj h
    cases count with
    | zero => exact iff_of_true rfl (Nat.le_refl 0)
    | succ count =>
      rw [WalkLoop.after, next?, hended]
      exact iff_of_false Bool.false_ne_true (Nat.not_succ_le_zero count)
  | succ rounds ih =>
    obtain ⟨next, hnext, hlast⟩ := Option.bind_eq_some_iff.1 h
    cases count with
    | zero => exact iff_of_true rfl (Nat.zero_le _)
    | succ count =>
      rw [WalkLoop.after, hnext, Option.bind_some, ih hlast, Nat.succ_le_succ_iff]

/-- The walk when nothing waits any more, after these expansions. -/
def finished (registry : Registry) (loop : WalkLoop) (made : List Expansion) : WalkLoop :=
  let found := made.flatMap Expansion.discovered
  { stack := []
    seen := loop.seen ++ found
    pushed := loop.pushed ++ found
    nodes := loop.nodes ++ found.filterMap registry.view?
    edges := loop.edges ++ made.flatMap Expansion.edges }

theorem finished_nil (h : loop.stack = []) : loop.finished registry [] = loop := by
  cases loop
  cases h
  simp [finished]

theorem finished_expanded (registry : Registry) (loop : WalkLoop) (id : String)
    (stack : List String) (made : List Expansion) :
    (loop.expanded registry id stack).finished registry made =
      loop.finished registry (⟨id, registry.liveLinks id,
        undiscovered loop.seen (registry.liveLinks id)⟩ :: made) := by
  simp only [finished, expanded, List.flatMap_cons, List.filterMap_append, List.append_assoc]

/-- The loop makes a round for each expansion, and then nothing waits. -/
theorem after_expand {fuel : ℕ} (h : Frontier registry loop.stack loop.seen)
    (hfuel : registry.size + loop.stack.length ≤ fuel + loop.seen.length) :
    loop.after registry (registry.expand fuel loop.stack loop.seen).length =
      some (loop.finished registry (registry.expand fuel loop.stack loop.seen)) := by
  -- What the loop has gathered so far varies along the walk, so the induction is over all loops.
  suffices hloops : ∀ loop' : WalkLoop, loop'.stack = loop.stack → loop'.seen = loop.seen →
      loop'.after registry (registry.expand fuel loop.stack loop.seen).length =
        some (loop'.finished registry (registry.expand fuel loop.stack loop.seen)) from
    hloops loop rfl rfl
  apply h.walk_induction hfuel (motive := fun fuel stack seen ↦ ∀ loop : WalkLoop,
    loop.stack = stack → loop.seen = seen →
      loop.after registry (registry.expand fuel stack seen).length =
        some (loop.finished registry (registry.expand fuel stack seen)))
  · intro fuel seen _ loop hstack _
    rw [expand_nil, finished_nil hstack]
    rfl
  · rintro fuel id stack _ _ hrest loop hstack rfl
    have hnext : loop.next? registry = some (loop.expanded registry id stack) := by
      rw [next?, hstack]
    rw [expand, List.length_cons, WalkLoop.after, hnext, Option.bind_some, hrest _ rfl rfl,
      finished_expanded]

end WalkLoop

theorem length_walk (registry : Registry) (root : String) :
    (registry.walk root).length = (registry.flatten root).length := by
  by_cases h : registry.contains root = true
  · calc (registry.walk root).length
      _ = ((registry.walk root).map Expansion.id).length := (List.length_map _).symm
      _ = (registry.reachableIds root).length := (expanded_perm h).length_eq
      _ = ((registry.flatten root).map NodeView.id).length := by rw [map_id_flatten h]
      _ = (registry.flatten root).length := List.length_map _
  · rw [walk, flatten, reachableIds, if_neg h, if_neg h]
    rfl

/-- The loop makes the rounds of a walk, and has then what the walk lists and inspects. -/
theorem after_start (registry : Registry) (root : String) :
    ∃ last, (WalkLoop.start registry root).after registry (registry.walk root).length = some last ∧
      last.stack = [] ∧ last.nodes = registry.flatten root ∧
      last.edges = registry.edges root := by
  by_cases h : registry.contains root = true
  · have hids : registry.reachableIds root = [root] ++
        (registry.expand registry.size [root] [root]).flatMap Expansion.discovered :=
      reachableIds_eq_cons h
    let first : WalkLoop := ⟨[root], [root], [root], [root].filterMap registry.view?, []⟩
    have hfirst : Frontier registry first.stack first.seen := .start h
    rw [edges, flatten, hids, List.filterMap_append, WalkLoop.start, if_pos h, walk, if_pos h]
    exact ⟨_, WalkLoop.after_expand hfirst (Nat.le_refl _), rfl, rfl, rfl⟩
  · rw [edges, flatten, reachableIds, WalkLoop.start, walk, if_neg h, if_neg h, if_neg h]
    exact ⟨_, rfl, rfl, rfl, rfl⟩

def linkCount (registry : Registry) (id : String) : ℕ :=
  ((registry.get? id).map fun node ↦ node.links.size).getD 0

/-- Not every link is live. -/
theorem length_liveLinks_le (registry : Registry) (id : String) :
    (registry.liveLinks id).length ≤ registry.linkCount id := by
  rw [liveLinks, linkCount]
  cases registry.get? id with
  | none => exact Nat.le_refl 0
  | some node => exact List.length_filter_le _ _

theorem map_linkCount_ids (registry : Registry) :
    registry.ids.map registry.linkCount = registry.nodes.values.map fun node ↦ node.links.size := by
  rw [ids, NameMap.names, NameMap.values, List.map_map, List.map_map]
  apply List.map_congr_left
  rintro ⟨id, node⟩ hmem
  have hnode : registry.get? id = some node := NameMap.get?_eq_some_iff.2 hmem
  rw [Function.comp_apply, linkCount, hnode]
  rfl

/-- Each node is expanded once at most, so each link is inspected once at most. -/
theorem length_edges_le (registry : Registry) (root : String) :
    (registry.edges root).length ≤
      (registry.nodes.values.map fun node ↦ node.links.size).sum := by
  have hexpanded : ((registry.walk root).map Expansion.id).Subperm registry.ids := by
    apply (registry.nodup_expanded root).subperm
    intro id hmem
    by_cases h : registry.contains root = true
    · have hreached := (expanded_perm h).subset hmem
      exact NameMap.mem_names_iff.2 ((frontier_reachableIds h).registered id hreached)
    · rw [walk, if_neg h] at hmem
      cases hmem
  obtain ⟨reached, hperm, hsublist⟩ := hexpanded
  calc (registry.edges root).length
    _ = ((registry.walk root).map fun expansion ↦ expansion.edges.length).sum :=
      List.length_flatMap
    _ ≤ ((registry.walk root).map fun expansion ↦ registry.linkCount expansion.id).sum := by
      apply List.sum_le_sum
      intro expansion hmem
      rw [Expansion.edges, List.length_map, links_of_mem_walk hmem]
      exact registry.length_liveLinks_le expansion.id
    _ = (reached.map registry.linkCount).sum := by
      rw [(hperm.map registry.linkCount).sum_eq, List.map_map]
      rfl
    _ ≤ (registry.ids.map registry.linkCount).sum :=
      (hsublist.map registry.linkCount).sum_le_sum fun _ _ ↦ Nat.zero_le _
    _ = (registry.nodes.values.map fun node ↦ node.links.size).sum := by
      rw [map_linkCount_ids]

/-- The loop of a walk ends after as many rounds as the walk lists nodes, and no earlier; then its
nodes and its links are those of the walk, which made as many expansions.  At any time what was put
on the stack are registered nodes, each once.  So there are no more rounds than registered nodes,
and no more links are inspected than these nodes have. -/
theorem walk_ends_within_bounds (registry : Registry) (root : String) :
    let first := WalkLoop.start registry root
    let rounds := (registry.flatten root).length
    (∀ count, (first.after registry count).isSome = true ↔ count ≤ rounds) ∧
    (∃ last, first.after registry rounds = some last ∧ last.stack = [] ∧
      last.nodes = registry.flatten root ∧ last.edges = registry.edges root) ∧
    (∀ count later, first.after registry count = some later →
      later.pushed.Nodup ∧ (∀ id ∈ later.pushed, registry.contains id = true) ∧
        later.stack ⊆ later.pushed) ∧
    (registry.walk root).length = rounds ∧
    rounds ≤ registry.size ∧
    (registry.edges root).length ≤
      (registry.nodes.values.map fun node ↦ node.links.size).sum := by
  intro first rounds
  obtain ⟨last, hlast, hended, hnodes, hedges⟩ := registry.after_start root
  rw [length_walk] at hlast
  refine ⟨WalkLoop.isSome_after_iff hlast hended, ⟨last, hlast, hended, hnodes, hedges⟩,
    fun count later hlater ↦ ?_, registry.length_walk root, ?_, registry.length_edges_le root⟩
  · obtain ⟨hfrontier, hpushed⟩ := (WalkLoop.tracked_start registry root).after hlater
    rw [hpushed]
    exact ⟨hfrontier.nodup, hfrontier.registered, hfrontier.waiting⟩
  · exact (WalkLoop.le_outstanding_of_after hlast).trans
      (WalkLoop.outstanding_start_le registry root)

/-- The ring takes three rounds, though four nodes are registered and the links lead back to nodes
that are marked. -/
theorem walk_ends_within_bounds_ring :
    let first := WalkLoop.start ringMesh "a"
    let second : WalkLoop := ⟨["c"], ["a", "c"], ["a", "c"], [⟨"a", "a:1"⟩, ⟨"c", "c:1"⟩],
      [⟨"a", "a", 1⟩, ⟨"a", "c", 1⟩]⟩
    first.after ringMesh 1 = some second ∧ second.pushed.Nodup ∧
    ringMesh.contains "c" = true ∧ (first.after ringMesh 4).isSome = false := by
  intro first second
  have hsecond : first.after ringMesh 1 = some second := by decide +kernel
  have hlisted : (ringMesh.flatten "a").length = 3 := by decide +kernel
  obtain ⟨hrounds, -, hpushed, -⟩ := walk_ends_within_bounds ringMesh "a"
  obtain ⟨hnodup, hregistered, -⟩ := hpushed 1 second hsecond
  rw [hlisted] at hrounds
  refine ⟨hsecond, hnodup, hregistered "c" (by decide), ?_⟩
  rw [← Bool.not_eq_true, hrounds]
  decide

end ServiceMesh.Registry

import ServiceMesh.Proofs.Topology.Levels
import ServiceMesh.Registry

/-!
# What a search places

A search sees the levels around its root, one after the other.  When it has visited a level, the
children placed below the nodes of the level are those found there, and no later visit changes them.
-/

namespace ServiceMesh

theorem Children.below_insert (children : Children) (id : String) (found : List String)
    (other : String) :
    Children.below (children.insert id found) other =
      if other = id then found else children.below other := by
  rw [below, NameMap.get?_insert]
  split <;> rfl

namespace Search

variable {registry : Registry} {search : Search} {level : List String}

/-- A visit to a level finds what stands below it. -/
theorem visitAll_snd (registry : Registry) (search : Search) (level : List String) :
    (search.visitAll registry level).2 = registry.below level search.seen := by
  induction level generalizing search with
  | nil => rfl
  | cons id level ih =>
    rw [Registry.below_cons]
    exact congrArg _ (ih (search.visit registry id).1)

theorem seen_visitAll (registry : Registry) (search : Search) (level : List String) :
    (search.visitAll registry level).1.seen =
      search.seen ++ registry.below level search.seen := by
  induction level generalizing search with
  | nil => exact (List.append_nil _).symm
  | cons id level ih =>
    rw [Registry.below_cons, ← List.append_assoc]
    exact ih (search.visit registry id).1

theorem below_visit (registry : Registry) (search : Search) (id other : String) :
    (search.visit registry id).1.children.below other =
      if other = id then
        search.children.below id ++ Registry.undiscovered search.seen (registry.liveLinks id)
      else search.children.below other :=
  Children.below_insert _ _ _ _

/-- Nothing is placed below nodes outside the level. -/
theorem below_visitAll_of_not_mem {other : String} (h : other ∉ level) :
    (search.visitAll registry level).1.children.below other = search.children.below other := by
  induction level generalizing search with
  | nil => rfl
  | cons id level ih =>
    rw [List.mem_cons, not_or] at h
    calc (search.visitAll registry (id :: level)).1.children.below other
      _ = (search.visit registry id).1.children.below other := ih h.2
      _ = search.children.below other := by rw [below_visit, if_neg h.1]

/-- What is placed below the nodes of a level is what is found there. -/
theorem map_below_visitAll (hnodup : level.Nodup)
    (hleaves : ∀ id ∈ level, search.children.below id = []) :
    level.map (search.visitAll registry level).1.children.below =
      registry.nextLevel level search.seen := by
  induction level generalizing search with
  | nil => rfl
  | cons id level ih =>
    obtain ⟨hid, hnodup⟩ := List.nodup_cons.1 hnodup
    have hfound : (search.visitAll registry (id :: level)).1.children.below id =
        Registry.undiscovered search.seen (registry.liveLinks id) :=
      calc (search.visitAll registry (id :: level)).1.children.below id
        _ = (search.visit registry id).1.children.below id := below_visitAll_of_not_mem hid
        _ = Registry.undiscovered search.seen (registry.liveLinks id) := by
          rw [below_visit, if_pos rfl, hleaves id List.mem_cons_self, List.nil_append]
    have hleaves' : ∀ other ∈ level, (search.visit registry id).1.children.below other = [] := by
      intro other hmem
      have hother : other ≠ id := fun heq ↦ hid (heq ▸ hmem)
      rw [below_visit, if_neg hother, hleaves other (List.mem_cons_of_mem _ hmem)]
    rw [List.map_cons, hfound]
    exact congrArg _ (ih hnodup hleaves')

/-- The search of a root after so many levels. -/
def after (registry : Registry) (root : String) : ℕ → Search
  | 0 => ⟨[root], ∅⟩
  | hops + 1 => ((after registry root hops).visitAll registry (registry.levels root hops).level).1

section After

variable {root : String}

/-- What a search has seen are the levels that it has found. -/
theorem seen_after (registry : Registry) (root : String) (hops : ℕ) :
    (after registry root hops).seen = (registry.levels root hops).seen := by
  induction hops with
  | zero => rfl
  | succ hops ih =>
    rw [after, seen_visitAll, ih]
    rfl

/-- The level below the one that was visited last. -/
theorem visitAll_after_snd (registry : Registry) (root : String) (hops : ℕ) :
    ((after registry root hops).visitAll registry (registry.levels root hops).level).2 =
      (registry.levels root (hops + 1)).level := by
  rw [visitAll_snd, seen_after]
  rfl

theorem descend_nil (registry : Registry) (depth : ℕ) (search : Search) :
    search.descend registry depth [] = search := by
  cases depth <;> rfl

/-- That the search ends when there are no more nodes makes no difference. -/
theorem descend_succ (registry : Registry) (depth : ℕ) (search : Search) (level : List String) :
    search.descend registry (depth + 1) level =
      (search.visitAll registry level).1.descend registry depth
        (search.visitAll registry level).2 := by
  simp only [descend]
  split
  · next hnil => rw [List.isEmpty_iff.1 hnil, descend_nil]
  · rfl

/-- A search that goes on from a level is the search of the root to a greater depth. -/
theorem descend_after (registry : Registry) (root : String) (depth hops : ℕ) :
    (after registry root hops).descend registry depth (registry.levels root hops).level =
      after registry root (hops + depth) := by
  induction depth generalizing hops with
  | zero => rfl
  | succ depth ih =>
    rw [descend_succ, visitAll_after_snd, ← Nat.add_assoc, Nat.add_right_comm]
    exact ih (hops + 1)

theorem descend_start (registry : Registry) (root : String) (depth : ℕ) :
    descend registry depth ⟨[root], ∅⟩ [root] = after registry root depth := by
  have hstart := descend_after registry root depth 0
  rwa [Nat.zero_add] at hstart

/-- No node has children before its level is visited. -/
theorem below_after_of_not_mem {hops : ℕ} {id : String}
    (h : id ∉ (registry.levels root hops).above) :
    (after registry root hops).children.below id = [] := by
  induction hops with
  | zero => rfl
  | succ hops ih =>
    rw [Registry.levels, Registry.Span.seen, List.mem_append, not_or] at h
    rw [after, below_visitAll_of_not_mem h.2, ih h.1]

/-- Once its level is visited, nothing more is placed below a node. -/
theorem below_after_add {hops : ℕ} {id : String} (h : id ∈ (registry.levels root hops).above)
    (more : ℕ) :
    (after registry root (hops + more)).children.below id =
      (after registry root hops).children.below id := by
  induction more with
  | zero => rfl
  | succ more ih =>
    have hvisited : id ∉ (registry.levels root (hops + more)).level := fun hlevel ↦
      Registry.not_mem_above_of_mem_level hlevel (Registry.mem_above_add h more)
    rw [← Nat.add_assoc, after, below_visitAll_of_not_mem hvisited, ih]

/-- A search places below each node above its last level what is found there. -/
theorem map_below_after {hops depth : ℕ} (h : hops < depth) :
    (registry.levels root hops).level.map (after registry root depth).children.below =
      registry.nextLevel (registry.levels root hops).level (registry.levels root hops).seen := by
  obtain ⟨more, rfl⟩ := Nat.exists_eq_add_of_le h
  have hkept : ∀ id ∈ (registry.levels root hops).level,
      (after registry root (hops + 1 + more)).children.below id =
        (after registry root (hops + 1)).children.below id := fun id hmem ↦
    below_after_add (List.mem_append_right _ hmem) more
  have hleaves : ∀ id ∈ (registry.levels root hops).level,
      (after registry root hops).children.below id = [] := fun id hmem ↦
    below_after_of_not_mem (Registry.not_mem_above_of_mem_level hmem)
  rw [List.map_congr_left hkept, after, map_below_visitAll (registry.nodup_level root hops) hleaves,
    seen_after]

end After

end Search

end ServiceMesh

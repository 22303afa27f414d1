import Mathlib.Data.Nat.Find
import ServiceMesh.Proofs.Topology.Hop

/-!
# Levels around a root

The distance of a node is the number of hops of its shortest ways from the root.  To go one level
down from the nodes of a level is to take all their targets that were not seen on this level or
above; so the levels below a root hold the nodes at distance one, two and so on, each node once.
-/

namespace ServiceMesh.Registry

variable {registry : Registry} {root id target : String}

/-- So many hops lead from the root to a node. -/
inductive Way (registry : Registry) (root : String) : ℕ → String → Prop where
  | here : Way registry root 0 root
  | hop {hops : ℕ} {id target : String} (way : Way registry root hops id)
      (next : registry.Hop id target) : Way registry root (hops + 1) target

/-- So many hops lead from the root to a node, and no fewer do. -/
def AtDistance (registry : Registry) (root : String) (hops : ℕ) (id : String) : Prop :=
  registry.Way root hops id ∧ ∀ fewer < hops, ¬ registry.Way root fewer id

theorem Way.reaches {hops : ℕ} (h : registry.Way root hops id) : registry.Reaches root id := by
  induction h with
  | here => exact .refl
  | hop _ next ih => exact ih.tail next

theorem Way.registered (hroot : registry.contains root = true) {hops : ℕ}
    (h : registry.Way root hops id) : registry.contains id = true :=
  h.reaches.registered hroot

/-- A node that is reached has a distance, which no way falls below. -/
theorem Way.exists_atDistance {hops : ℕ} (h : registry.Way root hops id) :
    ∃ distance ≤ hops, registry.AtDistance root distance id := by
  classical
  have hexists : ∃ hops, registry.Way root hops id := ⟨hops, h⟩
  exact ⟨Nat.find hexists, Nat.find_min' hexists h, Nat.find_spec hexists,
    fun _ hlt ↦ Nat.find_min hexists hlt⟩

theorem exists_way_le_iff {bound : ℕ} :
    (∃ hops ≤ bound, registry.Way root hops id) ↔
      ∃ hops ≤ bound, registry.AtDistance root hops id := by
  constructor
  · rintro ⟨hops, hbound, way⟩
    obtain ⟨distance, hle, hdistance⟩ := way.exists_atDistance
    exact ⟨distance, Nat.le_trans hle hbound, hdistance⟩
  · rintro ⟨hops, hbound, way, -⟩
    exact ⟨hops, hbound, way⟩

/-- The nodes found below those of a level, node by node. -/
def nextLevel (registry : Registry) : (level seen : List String) → List (List String)
  | [], _ => []
  | id :: level, seen =>
    let found := undiscovered seen (registry.liveLinks id)
    found :: nextLevel registry level (seen ++ found)

def below (registry : Registry) (level seen : List String) : List String :=
  (registry.nextLevel level seen).flatten

theorem below_cons (registry : Registry) (id : String) (level seen : List String) :
    registry.below (id :: level) seen =
      undiscovered seen (registry.liveLinks id) ++
        registry.below level (seen ++ undiscovered seen (registry.liveLinks id)) := rfl

/-- What the left part of a level has found is seen when the right part is visited. -/
theorem nextLevel_append (registry : Registry) (level level' seen : List String) :
    registry.nextLevel (level ++ level') seen =
      registry.nextLevel level seen ++
        registry.nextLevel level' (seen ++ registry.below level seen) := by
  induction level generalizing seen with
  | nil => simp [nextLevel, below]
  | cons id level ih =>
    rw [below_cons, ← List.append_assoc, List.cons_append, nextLevel, ih]
    rfl

theorem length_nextLevel (registry : Registry) (level seen : List String) :
    (registry.nextLevel level seen).length = level.length := by
  induction level generalizing seen with
  | nil => rfl
  | cons id level ih => exact congrArg Nat.succ (ih _)

/-- Below a level stand the targets of its hops that were not seen before. -/
theorem mem_below_iff {level seen : List String} :
    target ∈ registry.below level seen ↔
      target ∉ seen ∧ ∃ id ∈ level, registry.Hop id target := by
  induction level generalizing seen with
  | nil => simp [below, nextLevel]
  | cons id level ih =>
    rw [below_cons, List.mem_append, ih, mem_undiscovered_iff, List.mem_append,
      mem_undiscovered_iff]
    simp only [List.mem_cons, exists_eq_or_imp]
    tauto

/-- No node is found twice, be it on one level or on two. -/
theorem nodup_append_below {seen : List String} (h : seen.Nodup) (level : List String) :
    (seen ++ registry.below level seen).Nodup := by
  induction level generalizing seen with
  | nil => simpa [below, nextLevel] using h
  | cons id level ih =>
    rw [below_cons, ← List.append_assoc]
    exact ih (nodup_append_undiscovered h id)

/-- The nodes found below a node are in ascending order, it has links to them, and no node to the
left of it on its level has. -/
theorem nextLevel_eq_append {before after seen : List String}
    {first last : List (List String)} {found : List String}
    (h : registry.nextLevel (before ++ id :: after) seen = first ++ found :: last)
    (hlength : first.length = before.length) :
    found.Pairwise (· < ·) ∧ ∀ target ∈ found, registry.Hop id target ∧
      ∀ other ∈ before, ¬ registry.Hop other target := by
  rw [nextLevel_append, nextLevel] at h
  have hfirst : (registry.nextLevel before seen).length = first.length := by
    rw [length_nextLevel, hlength]
  obtain ⟨-, hfound⟩ := List.append_inj h hfirst
  obtain ⟨rfl, -⟩ := List.cons.inj hfound
  refine ⟨undiscovered_ascending registry _ id, fun target hmem ↦ ?_⟩
  obtain ⟨hhop, hfresh⟩ := mem_undiscovered_iff.1 hmem
  rw [List.mem_append, not_or, mem_below_iff] at hfresh
  exact ⟨hhop, fun other hother hlink ↦ hfresh.2 ⟨hfresh.1, other, hother, hlink⟩⟩

/-- A level and the nodes above it. -/
structure Span where
  above : List String
  level : List String

def Span.seen (span : Span) : List String := span.above ++ span.level

/-- The level that is so many hops below a root. -/
def levels (registry : Registry) (root : String) : ℕ → Span
  | 0 => ⟨[], [root]⟩
  | hops + 1 =>
    let span := levels registry root hops
    ⟨span.seen, registry.below span.level span.seen⟩

theorem nodup_seen_levels (registry : Registry) (root : String) (hops : ℕ) :
    (registry.levels root hops).seen.Nodup := by
  induction hops with
  | zero => exact List.nodup_singleton root
  | succ hops ih => exact nodup_append_below ih _

theorem nodup_level (registry : Registry) (root : String) (hops : ℕ) :
    (registry.levels root hops).level.Nodup :=
  (registry.nodup_seen_levels root hops).of_append_right

/-- A level has no node in common with those above it. -/
theorem not_mem_above_of_mem_level {hops : ℕ} (h : id ∈ (registry.levels root hops).level) :
    id ∉ (registry.levels root hops).above := fun habove ↦
  List.disjoint_of_nodup_append (registry.nodup_seen_levels root hops) habove h

theorem mem_above_add {hops : ℕ} (h : id ∈ (registry.levels root hops).above) (more : ℕ) :
    id ∈ (registry.levels root (hops + more)).above := by
  induction more with
  | zero => exact h
  | succ more ih => exact List.mem_append_left _ ih

/-- All nodes within a number of hops are seen, and those at just this distance are the level. -/
theorem mem_levels_iff (registry : Registry) (root : String) (hops : ℕ) :
    (∀ id, id ∈ (registry.levels root hops).seen ↔ ∃ fewer ≤ hops, registry.Way root fewer id) ∧
    ∀ id, id ∈ (registry.levels root hops).level ↔ registry.AtDistance root hops id := by
  induction hops with
  | zero =>
    have hhere (id : String) : registry.Way root 0 id ↔ id = root :=
      ⟨fun h ↦ by cases h; rfl, fun h ↦ h ▸ .here⟩
    simp [levels, Span.seen, AtDistance, hhere]
  | succ hops ih =>
    obtain ⟨hseen, hlevel⟩ := ih
    have hbelow (id : String) : id ∈ (registry.levels root (hops + 1)).level ↔
        registry.AtDistance root (hops + 1) id := by
      have hfresh : id ∉ (registry.levels root hops).seen ↔
          ∀ fewer < hops + 1, ¬ registry.Way root fewer id := by
        simp only [hseen, not_exists, not_and, Nat.lt_succ_iff]
      rw [levels, mem_below_iff, hfresh, AtDistance, and_comm]
      refine and_congr_left fun hnone ↦ ⟨?_, fun way ↦ ?_⟩
      · rintro ⟨source, hsource, hhop⟩
        exact ((hlevel source).1 hsource).1.hop hhop
      · cases way with
        | @hop _ source _ way next =>
          -- a shorter way to the source would be continued to a shorter way to the target
          refine ⟨source, (hlevel source).2 ⟨way, fun fewer hfewer shorter ↦ ?_⟩, next⟩
          exact hnone (fewer + 1) (Nat.succ_lt_succ hfewer) (shorter.hop next)
    refine ⟨fun id ↦ ?_, hbelow⟩
    rw [Span.seen, List.mem_append, hbelow, levels, hseen, exists_way_le_iff, exists_way_le_iff]
    simp only [Nat.le_succ_iff]
    constructor
    · rintro (⟨fewer, hfewer, hdistance⟩ | hdistance)
      · exact ⟨fewer, .inl hfewer, hdistance⟩
      · exact ⟨hops + 1, .inr rfl, hdistance⟩
    · rintro ⟨fewer, hfewer | rfl, hdistance⟩
      · exact .inl ⟨fewer, hfewer, hdistance⟩
      · exact .inr hdistance

/-- The nodes seen so far are those at smaller distances and at this one. -/
theorem mem_seen_levels_iff (registry : Registry) (root : String) (hops : ℕ) (id : String) :
    id ∈ (registry.levels root hops).seen ↔
      ∃ fewer ≤ hops, registry.AtDistance root fewer id :=
  ((registry.mem_levels_iff root hops).1 id).trans exists_way_le_iff

end ServiceMesh.Registry

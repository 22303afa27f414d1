import Mathlib.Data.List.Induction
import ServiceMesh.Proofs.Topology.Hop

/-!
# What a walk reaches

A walk marks nodes when it discovers them and expands them later.  At any time a marked node that
does not wait on the stack has all its targets marked, and every marked node but the first was
discovered from one marked before it.  The walk ends with an empty stack, as it has no more steps to
make than there are nodes, so the marked nodes are then those that the root reaches.
-/

namespace ServiceMesh.Registry

variable {registry : Registry} {root : String} {stack seen : List String}

/-- An element of an appended list comes in the first part, or after all of it. -/
theorem prefix_append_cases {before more : List String} {id : String}
    (h : before ++ [id] <+: seen ++ more) :
    before ++ [id] <+: seen ∨ seen <+: before ∧ id ∈ more := by
  rcases Nat.lt_or_ge before.length seen.length with hlt | hge
  · left
    apply List.prefix_of_prefix_length_le h (List.prefix_append _ _)
    simpa [Nat.succ_le_iff] using hlt
  · right
    have hseen : seen <+: before :=
      List.prefix_of_prefix_length_le (List.prefix_append seen more)
        ((List.prefix_append _ _).trans h) hge
    obtain ⟨fresh, rfl⟩ := hseen
    refine ⟨List.prefix_append _ _, ?_⟩
    rw [List.append_assoc, List.prefix_append_right_inj] at h
    exact h.subset (by simp)

/-- A walk that has come so far. -/
structure Frontier (registry : Registry) (stack seen : List String) : Prop where
  nodup : seen.Nodup
  registered : ∀ id ∈ seen, registry.contains id = true
  waiting : ∀ id ∈ stack, id ∈ seen
  closed : ∀ source ∈ seen, source ∉ stack → ∀ target, registry.Hop source target → target ∈ seen
  /-- Every node but the first comes after one that links to it. -/
  led : ∀ before id, before ++ [id] <+: seen → before ≠ [] → ∃ source ∈ before,
    registry.Hop source id

theorem expand_nil (registry : Registry) (fuel : ℕ) (seen : List String) :
    registry.expand fuel [] seen = [] := by
  cases fuel <;> rfl

namespace Frontier

theorem start (h : registry.contains root = true) : Frontier registry [root] [root] where
  nodup := List.nodup_singleton root
  registered _ hmem := List.mem_singleton.1 hmem ▸ h
  waiting _ hmem := hmem
  closed _ hmem hnot := absurd hmem hnot
  led before id hprefix hbefore := by
    have hlength := hprefix.length_le
    simp at hlength
    exact absurd hlength hbefore

/-- What a node discovers is marked and waits, so all its targets are marked when it leaves the
stack. -/
theorem step {id : String} (h : Frontier registry (id :: stack) seen) :
    Frontier registry (undiscovered seen (registry.liveLinks id) ++ stack)
      (seen ++ undiscovered seen (registry.liveLinks id)) where
  nodup := nodup_append_undiscovered h.nodup id
  registered other hmem := by
    rcases List.mem_append.1 hmem with hmem | hmem
    · exact h.registered other hmem
    · exact (mem_undiscovered_iff.1 hmem).1.registered
  waiting other hmem := by
    rcases List.mem_append.1 hmem with hmem | hmem
    · exact List.mem_append_right _ hmem
    · exact List.mem_append_left _ (h.waiting other (List.mem_cons_of_mem _ hmem))
  closed source hmem hnot target hhop := by
    rw [List.mem_append, not_or] at hnot
    have hseen : source ∈ seen := (List.mem_append.1 hmem).resolve_right hnot.1
    rw [List.mem_append, or_iff_not_imp_left]
    intro hfresh
    by_cases hid : source = id
    · exact mem_undiscovered_iff.2 ⟨hid ▸ hhop, hfresh⟩
    · exact absurd (h.closed source hseen (by simp [hid, hnot.2]) target hhop) hfresh
  led before other hprefix hbefore := by
    rcases prefix_append_cases hprefix with hprefix | ⟨hseen, hmem⟩
    · exact h.led before other hprefix hbefore
    · exact ⟨id, hseen.subset (h.waiting id List.mem_cons_self), (mem_undiscovered_iff.1 hmem).1⟩

/-- With a step left for every node that is not yet marked and every node on the stack, a walk goes
on until nothing waits.  So what holds of a walk that has ended, and before an expansion if it holds
after it, holds of the walk. -/
theorem walk_induction {motive : ℕ → List String → List String → Prop} {fuel : ℕ}
    (h : Frontier registry stack seen) (hfuel : registry.size + stack.length ≤ fuel + seen.length)
    (ended : ∀ fuel seen, Frontier registry [] seen → motive fuel [] seen)
    (expands : ∀ fuel id stack seen, Frontier registry (id :: stack) seen →
      motive fuel (undiscovered seen (registry.liveLinks id) ++ stack)
        (seen ++ undiscovered seen (registry.liveLinks id)) →
      motive (fuel + 1) (id :: stack) seen) :
    motive fuel stack seen := by
  induction fuel generalizing stack seen with
  | zero =>
    have hsize := length_le_size h.nodup h.registered
    have hstack : stack = [] := List.length_eq_zero_iff.1 (by omega)
    subst hstack
    exact ended 0 seen h
  | succ fuel ih =>
    cases stack with
    | nil => exact ended (fuel + 1) seen h
    | cons id stack =>
      have hnext : registry.size +
          (undiscovered seen (registry.liveLinks id) ++ stack).length ≤
            fuel + (seen ++ undiscovered seen (registry.liveLinks id)).length := by
        simp only [List.length_append, List.length_cons] at *
        omega
      exact expands fuel id stack seen h (ih h.step hnext)

/-- At its end a walk has marked all that it discovered. -/
theorem expand {fuel : ℕ} (h : Frontier registry stack seen)
    (hfuel : registry.size + stack.length ≤ fuel + seen.length) :
    Frontier registry []
      (seen ++ (registry.expand fuel stack seen).flatMap Expansion.discovered) := by
  apply h.walk_induction hfuel (motive := fun fuel stack seen ↦ Frontier registry []
    (seen ++ (registry.expand fuel stack seen).flatMap Expansion.discovered))
  · intro fuel seen h
    rwa [expand_nil, List.flatMap_nil, List.append_nil]
  · intro fuel id stack seen _ hnext
    rw [Registry.expand, List.flatMap_cons, ← List.append_assoc]
    exact hnext

/-- A walk that has steps enough makes no more of them when it is given more. -/
theorem expand_add {fuel : ℕ} (h : Frontier registry stack seen)
    (hfuel : registry.size + stack.length ≤ fuel + seen.length) (more : ℕ) :
    registry.expand (fuel + more) stack seen = registry.expand fuel stack seen := by
  apply h.walk_induction hfuel (motive := fun fuel stack seen ↦
    registry.expand (fuel + more) stack seen = registry.expand fuel stack seen)
  · intro fuel seen _
    rw [expand_nil, expand_nil]
  · intro fuel id stack seen _ hnext
    rw [Nat.add_right_comm, Registry.expand, Registry.expand, hnext]

/-- Marked nodes are reached from the first one. -/
theorem reaches {rest : List String} (h : Frontier registry stack (root :: rest)) :
    ∀ id ∈ root :: rest, registry.Reaches root id := by
  suffices hprefixes : ∀ before, before <+: root :: rest →
      ∀ id ∈ before, registry.Reaches root id from hprefixes _ (List.prefix_refl _)
  intro before
  induction before using List.reverseRecOn with
  | nil => exact fun _ _ hmem ↦ absurd hmem List.not_mem_nil
  | append_singleton before last ih =>
    intro hprefix id hmem
    have hbefore := ih ((List.prefix_append _ _).trans hprefix)
    rcases List.mem_append.1 hmem with hmem | hmem
    · exact hbefore id hmem
    · obtain rfl := List.mem_singleton.1 hmem
      by_cases hfirst : before = []
      · subst hfirst
        obtain ⟨rfl, -⟩ := List.cons_prefix_cons.1 hprefix
        exact .refl
      · obtain ⟨source, hsource, hhop⟩ := h.led before id hprefix hfirst
        exact (hbefore source hsource).tail hhop

end Frontier

theorem reachableIds_eq_cons (h : registry.contains root = true) :
    registry.reachableIds root =
      root :: (registry.expand registry.size [root] [root]).flatMap Expansion.discovered := by
  rw [reachableIds, walk, if_pos h, if_pos h]

/-- A walk has steps enough to end. -/
theorem frontier_reachableIds (h : registry.contains root = true) :
    Frontier registry [] (registry.reachableIds root) := by
  rw [reachableIds_eq_cons h]
  exact (Frontier.start h).expand (Nat.le_refl _)

/-- A walk marks what the root reaches, and nothing else. -/
theorem mem_reachableIds_iff (h : registry.contains root = true) {id : String} :
    id ∈ registry.reachableIds root ↔ registry.Reaches root id := by
  have hfrontier := frontier_reachableIds h
  constructor
  · rw [reachableIds_eq_cons h] at hfrontier ⊢
    exact hfrontier.reaches id
  · intro hreaches
    induction hreaches with
    | refl =>
      rw [reachableIds_eq_cons h]
      exact List.mem_cons_self
    | tail _ hhop ih => exact hfrontier.closed _ ih List.not_mem_nil _ hhop

theorem map_id_flatten (h : registry.contains root = true) :
    (registry.flatten root).map NodeView.id = registry.reachableIds root :=
  map_id_filterMap_view? (frontier_reachableIds h).registered

/-- From a registered root the walk lists the root, and then just the nodes that the root reaches,
each once and with the address that it is registered with; each of them comes after one that links
to it.  From any other root it lists nothing. -/
theorem flatten_lists_reachable (registry : Registry) (root : String) :
    (registry.contains root = true →
      (∃ rest, (registry.flatten root).map NodeView.id = root :: rest) ∧
      ((registry.flatten root).map NodeView.id).Nodup ∧
      (∀ view, view ∈ registry.flatten root ↔ registry.Reaches root view.id ∧
        ∃ node, registry.get? view.id = some node ∧ node.address = view.address) ∧
      ∀ before view after, registry.flatten root = before ++ view :: after → view.id ≠ root →
        ∃ earlier ∈ before, registry.Hop earlier.id view.id) ∧
    (registry.contains root = false → registry.flatten root = []) := by
  refine ⟨fun h ↦ ?_, fun h ↦ ?_⟩
  · have hids := map_id_flatten h
    have hfrontier := frontier_reachableIds h
    refine ⟨⟨_, hids.trans (reachableIds_eq_cons h)⟩, hids ▸ hfrontier.nodup, fun view ↦ ?_, ?_⟩
    · rw [flatten, List.mem_filterMap]
      simp only [view?_eq_some_iff, mem_reachableIds_iff h]
      constructor
      · rintro ⟨_, hreaches, rfl, hnode⟩
        exact ⟨hreaches, hnode⟩
      · rintro ⟨hreaches, hnode⟩
        exact ⟨view.id, hreaches, rfl, hnode⟩
    · intro before view after hflatten hother
      rw [hflatten, List.map_append, List.map_cons] at hids
      have hprefix : before.map NodeView.id ++ [view.id] <+: registry.reachableIds root :=
        ⟨after.map NodeView.id, by rw [← hids, List.append_assoc]; rfl⟩
      have hbefore : before.map NodeView.id ≠ [] := by
        intro hnil
        rw [hnil, reachableIds_eq_cons h] at hids
        exact hother (List.cons.inj hids).1
      obtain ⟨source, hsource, hhop⟩ := hfrontier.led _ _ hprefix hbefore
      obtain ⟨earlier, hearlier, rfl⟩ := List.mem_map.1 hsource
      exact ⟨earlier, hearlier, hhop⟩
  · rw [flatten, reachableIds, h]
    rfl

/-- A ring with a hop that stays, one into nowhere, and one from outside. -/
def ringMesh : Registry :=
  ofLinks ["a", "b", "c", "d"]
    [("a", "a"), ("a", "c"), ("b", "a"), ("c", "b"), ("c", "ghost"), ("d", "a")]

theorem flatten_lists_reachable_ring :
    ringMesh.contains "a" = true ∧
    ringMesh.flatten "a" = [⟨"a", "a:1"⟩, ⟨"c", "c:1"⟩, ⟨"b", "b:1"⟩] ∧
    ringMesh.Reaches "a" "b" ∧ ¬ ringMesh.Reaches "a" "d" := by
  have hroot : ringMesh.contains "a" = true := by decide +kernel
  have hlisted : ringMesh.flatten "a" = [⟨"a", "a:1"⟩, ⟨"c", "c:1"⟩, ⟨"b", "b:1"⟩] := by
    decide +kernel
  have houtside : (ringMesh.get? "d").map Node.address = some "d:1" := by decide +kernel
  obtain ⟨-, -, hmem, -⟩ := (flatten_lists_reachable ringMesh "a").1 hroot
  rw [hlisted] at hmem
  refine ⟨hroot, hlisted, ((hmem ⟨"b", "b:1"⟩).1 (by decide)).1, fun hreaches ↦ ?_⟩
  obtain ⟨node, hnode⟩ := Option.map_eq_some_iff.1 houtside
  exact absurd ((hmem ⟨"d", "d:1"⟩).2 ⟨hreaches, node, hnode⟩) (by decide)

end ServiceMesh.Registry

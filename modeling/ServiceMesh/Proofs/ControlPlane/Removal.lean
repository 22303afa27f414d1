import ServiceMesh.Proofs.ControlPlane.Anchor
import ServiceMesh.Proofs.Table.Restrict

/-!
# What a removal leaves behind

A removal takes a node out of the registry, takes the links to it off all others, and withdraws its
routes.  An id that is not registered has its routes withdrawn all the same, but the links to it
stay, and an id that is registered later has them from the start.
-/

namespace ServiceMesh

namespace Registry

/-- What is no part of the links to a removed id stays as it was. -/
theorem map_get?_remove {α : Type} (registry : Registry) {id other : String} (hother : other ≠ id)
    {part : Node → α} (hpart : ∀ node, part (node.removeLink id) = part node) :
    ((registry.remove id).get? other).map part = (registry.get? other).map part := by
  cases hregistered : registry.contains id with
  | false => rw [remove_of_not_contains hregistered]
  | true =>
    rw [get?_remove hregistered, if_neg hother, Option.map_map]
    congr 1
    exact funext hpart

/-- The links between other nodes stay, whether the id was registered or not. -/
theorem linkMetric?_remove_of_ne (registry : Registry) {id source target : String}
    (hsource : source ≠ id) (htarget : target ≠ id) :
    (registry.remove id).linkMetric? source target = registry.linkMetric? source target := by
  cases hregistered : registry.contains id with
  | false => rw [remove_of_not_contains hregistered]
  | true => rw [linkMetric?_remove hregistered, if_neg (not_or.2 ⟨hsource, htarget⟩)]

/-- The links to a removed id go if it was registered, and stay if it was not. -/
theorem linkMetric?_remove_self (registry : Registry) (id source : String) :
    (registry.remove id).linkMetric? source id =
      if registry.contains id then none else registry.linkMetric? source id := by
  cases hregistered : registry.contains id with
  | false =>
    rw [remove_of_not_contains hregistered]
    rfl
  | true => rw [linkMetric?_remove hregistered, if_pos (.inr rfl), if_pos rfl]

end Registry

namespace ControlPlane

variable {plane : ControlPlane} {id : String}

/-- The routes that stay keep their order. -/
theorem routes_remove (hother : id ≠ plane.localId) :
    (plane.remove id).1.routes.table.routes =
      plane.routes.table.routes.filter (·.router ≠ id) := by
  rw [remove_eq hother]
  exact RouteTable.routes_restrict _ fun key ↦ key.router ≠ id

/-- A node that is registered anew has no links, and gets one from the local node.  The links that
others have to its id are there already. -/
theorem register_new (hlocal : plane.registry.contains plane.localId = true) (hnamed : id ≠ "")
    (hnew : plane.registry.contains id = false) (address : String) (metadata : NameMap String)
    (metric : Int64) :
    (plane.register id address metadata metric).2 = none ∧
    (plane.register id address metadata metric).1.registry.get? id = some { address, metadata } ∧
    ∀ other, (plane.register id address metadata metric).1.registry.linkMetric? other id =
      if other = plane.localId then some metric else plane.registry.linkMetric? other id := by
  have hother : id ≠ plane.localId := by
    rintro rfl
    rw [hlocal] at hnew
    cases hnew
  refine ⟨by rw [register_eq hlocal hnamed hother], ?_, fun other ↦ ?_⟩
  · rw [get?_register hlocal hnamed hother, if_pos rfl, Registry.get?_eq_none_iff.2 hnew]
    rfl
  · simp only [linkMetric?_register hlocal hnamed hother, and_true]

/-- Let a new control plane be driven by any operations, and then any id but the local one be
removed.  It is not registered any more, and it has no routes; all others keep what does not concern
it.  No link to it is left if it was registered, and all are left if it was not.  If it is then
registered, it has no links, and is linked to by the local node and by those links that were left. -/
theorem removal_leaves_dangling_links (localId address : String) (operations : List Operation)
    {id : String} (hother : id ≠ localId) :
    let plane := (start localId address).run operations
    let after := (plane.remove id).1
    (plane.remove id).2 = .ok (plane.routes.table.routesOf id) ∧
    after.registry.contains id = false ∧
    (∀ other, after.registry.linkMetric? other id =
      if plane.registry.contains id then none else plane.registry.linkMetric? other id) ∧
    after.routes.table.routes = plane.routes.table.routes.filter (·.router ≠ id) ∧
    (∀ other, other ≠ id →
      (after.registry.get? other).map Node.address =
        (plane.registry.get? other).map Node.address ∧
      (after.registry.get? other).map Node.metadata =
        (plane.registry.get? other).map Node.metadata ∧
      ∀ target, target ≠ id →
        after.registry.linkMetric? other target = plane.registry.linkMetric? other target) ∧
    (id ≠ "" → ∀ address metadata metric,
      (after.register id address metadata metric).2 = none ∧
      (after.register id address metadata metric).1.registry.get? id =
        some { address, metadata } ∧
      ∀ other, (after.register id address metadata metric).1.registry.linkMetric? other id =
        if other = localId then some metric else after.registry.linkMetric? other id) := by
  intro plane after
  obtain ⟨hlocal, hanchored⟩ := anchored_start_run localId address operations
  have hremovable : id ≠ plane.localId := hlocal.symm ▸ hother
  have hregistry : after.registry = plane.registry.remove id := registry_remove hremovable
  have hafter : after.localId = localId := (localId_remove hremovable).trans hlocal
  have hgone : after.registry.contains id = false := by
    rw [hregistry, Bool.eq_false_iff]
    exact fun hcontains ↦ ((Registry.contains_remove _ _ _).1 hcontains).1 rfl
  refine ⟨?_, hgone, fun other ↦ ?_, routes_remove hremovable, fun other hkept ↦ ⟨?_, ?_, ?_⟩, ?_⟩
  · rw [remove_eq hremovable]
  · rw [hregistry, Registry.linkMetric?_remove_self]
  · rw [hregistry, Registry.map_get?_remove _ hkept fun _ ↦ rfl]
  · rw [hregistry, Registry.map_get?_remove _ hkept fun _ ↦ rfl]
  · intro target htarget
    rw [hregistry, Registry.linkMetric?_remove_of_ne _ hkept htarget]
  · intro hnamed address metadata metric
    have hstays : after.registry.contains after.localId = true := by
      rw [hafter, hregistry]
      exact (hanchored.remove hother).registered
    have hnew := register_new hstays hnamed hgone address metadata metric
    rwa [hafter] at hnew

theorem removal_leaves_dangling_links_registered :
    let plane := (start "n" "n:1").run [.register "a" "a:1" ∅ 1, .link "a" "b" 7,
      .register "b" "b:1" ∅ 2, .advert ⟨"b", [⟨.create, { service := "s", router := "b" }⟩]⟩]
    let after := (plane.remove "b").1
    after.registry.linkMetric? "a" "b" = none ∧
      after.routes.table.routes = [] ∧
      (after.register "b" "b:2" ∅ 3).1.registry.linkMetric? "a" "b" = none := by
  intro plane after
  obtain ⟨_, _, hlinks, hroutes, _, hagain⟩ := removal_leaves_dangling_links "n" "n:1"
    [.register "a" "a:1" ∅ 1, .link "a" "b" 7, .register "b" "b:1" ∅ 2,
      .advert ⟨"b", [⟨.create, { service := "s", router := "b" }⟩]⟩] (show "b" ≠ "n" by decide)
  have hlink : after.registry.linkMetric? "a" "b" = none :=
    (hlinks "a").trans (by decide +kernel)
  have hlater := (hagain (by decide) "b:2" ∅ 3).2.2 "a"
  exact ⟨hlink, hroutes.trans (by decide +kernel), hlater.trans hlink⟩

/-- A link that was made before its target was registered outlives the removal of the target, and is
there again when the target registers. -/
theorem dangling_link_outlives_removal :
    let plane := (start "n" "n:1").run [.register "a" "a:1" ∅ 1, .link "a" "b" 7]
    let after := (plane.remove "b").1
    after.registry.linkMetric? "a" "b" = some 7 ∧
      (after.register "b" "b:1" ∅ 2).1.registry.linkMetric? "a" "b" = some 7 := by
  decide +kernel

end ControlPlane

end ServiceMesh

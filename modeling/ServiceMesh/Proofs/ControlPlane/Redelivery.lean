import ServiceMesh.Proofs.ControlPlane.Changes
import ServiceMesh.Proofs.ControlPlane.Intake
import ServiceMesh.Proofs.Table.Lives

/-!
# Adverts that come twice

What becomes of an advert depends on nothing but the advert and on whether its router is registered,
which no advert changes.  For each key the last accepted event decides what is stored.  So an advert
that is taken in once more ends as it did before and stores the same routes; only their order within
a bucket may be another one.
-/

namespace ServiceMesh

theorem Advert.storable_of_mem_accepted {advert : Advert} {event : TableEvent}
    (h : event ∈ advert.accepted) : event.Storable := by
  simp only [accepted, List.mem_filter, decide_eq_true_eq] at h
  exact event.named_of_refusal_eq_none h.2

namespace ControlPlane

variable {plane : ControlPlane} {advert : Advert}

/-- Whatever it holds, an advert leaves the table well-formed. -/
theorem wellFormed_process (hwell : plane.routes.table.WellFormed) (advert : Advert) :
    (plane.process advert).1.routes.table.WellFormed := by
  by_cases hadmitted : advert.id ≠ plane.localId ∧ plane.registry.contains advert.id = true
  · rw [process_eq hwell hadmitted.1 hadmitted.2]
    exact LiveTable.wellFormed_run hwell _
  · rwa [process_of_not_registered hadmitted]

/-- The last accepted event of a key decides what an advert leaves there. -/
theorem stored?_process (hwell : plane.routes.table.WellFormed)
    (hadmitted : advert.id ≠ plane.localId ∧ plane.registry.contains advert.id = true)
    (key : RouteKey) :
    (plane.process advert).1.routes.table.stored? key =
      (TableEvent.lastWord advert.accepted key).getD (plane.routes.table.stored? key) := by
  have hstorable : ∀ event ∈ advert.accepted, event.Storable :=
    fun _ ↦ advert.storable_of_mem_accepted
  rw [process_eq hwell hadmitted.1 hadmitted.2, gaugeRoutes, LiveTable.table_run]
  exact hwell.stored?_run hstorable key

/-- Let an advert be taken in twice in a row.  It ends the same way both times, and stores the same
routes.  If its router is registered and not the node itself, then under the key of each of its
accepted events that route is stored which the last accepted event of the key tells, unless this is
a deletion; and under all other keys there is what was there before. -/
theorem redelivery_is_harmless {plane : ControlPlane} (hplane : plane.routes.Reachable)
    (advert : Advert) :
    let first := plane.process advert
    let second := first.1.process advert
    let before := plane.routes.table
    let table := first.1.routes.table
    let table' := second.1.routes.table
    second.2 = first.2 ∧
    (table'.query {}).Perm (table.query {}) ∧
    (advert.id ≠ plane.localId → plane.registry.contains advert.id = true →
      (∀ key last, (advert.accepted.filter (·.route.key = key)).getLast? = some last →
        ∀ route, route ∈ table'.query {} ∧ route.key = key ↔
          last.kind ≠ .delete ∧ last.route = route) ∧
      ∀ key, (∀ event ∈ advert.accepted, event.route.key ≠ key) →
        ∀ route, route ∈ table'.query {} ∧ route.key = key ↔
          route ∈ before.query {} ∧ route.key = key) := by
  intro first second before table table'
  have hwell : before.WellFormed := hplane.wellFormed
  by_cases hadmitted : advert.id ≠ plane.localId ∧ plane.registry.contains advert.id = true
  · have hadmitted' : advert.id ≠ first.1.localId ∧ first.1.registry.contains advert.id = true := by
      simp only [first]
      rwa [process_frame]
    have hwell' : table.WellFormed := wellFormed_process hwell advert
    have hwell'' : table'.WellFormed := wellFormed_process hwell' advert
    have hfirst (key : RouteKey) : table.stored? key =
        (TableEvent.lastWord advert.accepted key).getD (before.stored? key) :=
      stored?_process hwell hadmitted key
    have hsecond (key : RouteKey) : table'.stored? key =
        (TableEvent.lastWord advert.accepted key).getD (before.stored? key) := by
      rw [stored?_process hwell' hadmitted', hfirst]
      cases TableEvent.lastWord advert.accepted key <;> rfl
    refine ⟨?_, ?_, fun _ _ ↦ ⟨fun key last htold route ↦ ?_, fun key hnone route ↦ ?_⟩⟩
    · simp only [second, process_eq hwell' hadmitted'.1 hadmitted'.2]
      simp only [first, process_eq hwell hadmitted.1 hadmitted.2]
    · rw [RouteTable.query_all, RouteTable.query_all]
      exact hwell''.routes_perm_of_stored? hwell' fun key ↦ (hsecond key).trans (hfirst key).symm
    · rw [RouteTable.query_all, ← hwell''.stored?_eq_some_iff, hsecond, TableEvent.lastWord, htold]
      exact last.leaves_eq_some_iff
    · have hfilter : advert.accepted.filter (·.route.key = key) = [] := by
        simpa only [List.filter_eq_nil_iff, decide_eq_true_eq] using hnone
      rw [RouteTable.query_all, RouteTable.query_all, ← hwell''.stored?_eq_some_iff,
        ← hwell.stored?_eq_some_iff, hsecond, TableEvent.lastWord, hfilter]
      rfl
  · have hsame : first.1 = plane := process_of_not_registered hadmitted
    have hsecond : second = first := congrArg (process · advert) hsame
    refine ⟨congrArg Prod.snd hsecond, ?_, fun hlocal hregistered ↦ ?_⟩
    · simp only [table', table, hsecond]
      exact .refl _
    · exact absurd ⟨hlocal, hregistered⟩ hadmitted

/-- A route is withdrawn and stored anew, a foreign one and an unnamed one are refused, and one more
is stored. -/
def repeatedAdvert : Advert where
  id := "r"
  events := [⟨.delete, { service := "s", address := "b", router := "r" }⟩,
    ⟨.create, { service := "s", address := "b", router := "r", metric := 5 }⟩,
    ⟨.create, { service := "s", router := "q" }⟩,
    ⟨.update, { router := "r" }⟩,
    ⟨.create, { service := "s", address := "c", router := "r" }⟩]

/-- The second time finds the last route in the bucket, and puts the other one after it. -/
theorem redelivery_is_harmless_reordering :
    let plane := ((ControlPlane.start "n" "").register "r" "" ∅ 1).1
    let first := plane.process repeatedAdvert
    let second := first.1.process repeatedAdvert
    (first.1.routes.table.query {}).map Route.address = ["b", "c"] ∧
      (second.1.routes.table.query {}).map Route.address = ["c", "b"] ∧
      first.2 = some (.foreignRoute { service := "s", router := "q" } "r") ∧
      second.2 = first.2 ∧
      (second.1.routes.table.query {}).Perm (first.1.routes.table.query {}) := by
  intro plane
  have hplane : plane.routes.Reachable := ⟨[], rfl⟩
  obtain ⟨hfailure, hperm, -⟩ := redelivery_is_harmless hplane repeatedAdvert
  exact ⟨by decide +kernel, by decide +kernel, by decide +kernel, hfailure, hperm⟩

end ControlPlane

end ServiceMesh

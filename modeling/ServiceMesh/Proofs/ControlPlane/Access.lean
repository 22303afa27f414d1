import ServiceMesh.Proofs.ControlPlane.Intake
import ServiceMesh.Proofs.ControlPlane.Operations
import ServiceMesh.Proofs.Replica
import ServiceMesh.Proofs.Table.Lives

/-!
# Who changes the routes

The routes of a control plane are changed by its operations, and by the calls of whoever else holds
the table.  An operation makes calls like these: an advert one for each event that is not refused, a
removal one for its router, and all others none.  So the routes and the feed are those of a history
of calls, and the events that the feed was sent tell the lives of every key.
-/

namespace ServiceMesh

inductive Access where
  | operation (operation : Operation)
  /-- A call by someone else who holds the table. -/
  | direct (call : TableCall)

namespace ControlPlane

def access (plane : ControlPlane) : Access → ControlPlane
  | .operation operation => plane.perform operation
  | .direct call => { plane with routes := plane.routes.call call }

def accessAll (plane : ControlPlane) (accesses : List Access) : ControlPlane :=
  accesses.foldl access plane

/-- The calls that an operation makes to the table. -/
def operationCalls (plane : ControlPlane) : Operation → List TableCall
  | .remove id => if id = plane.localId then [] else [.deleteByRouter id]
  | .advert advert =>
    if advert.id ≠ plane.localId ∧ plane.registry.contains advert.id = true then
      advert.accepted.map TableEvent.call
    else []
  | .register .. | .link .. | .connect .. => []

def accessCalls (plane : ControlPlane) : Access → List TableCall
  | .operation operation => plane.operationCalls operation
  | .direct call => [call]

/-- All calls to the table, in their order. -/
def allCalls (plane : ControlPlane) : List Access → List TableCall
  | [] => []
  | access :: accesses => plane.accessCalls access ++ (plane.access access).allCalls accesses

variable {plane : ControlPlane}

theorem routes_link (plane : ControlPlane) (source target : String) (metric : Int64) :
    (plane.link source target metric).1.routes = plane.routes := by
  rw [link_frame]

theorem routes_register (plane : ControlPlane) (id address : String) (metadata : NameMap String)
    (metric : Int64) : (plane.register id address metadata metric).1.routes = plane.routes := by
  rw [register_frame]

/-- An operation does to the routes just what its calls do, as long as the table is well-formed: an
advert of a table that is not might meet two routes of one key. -/
theorem routes_perform (hwell : plane.routes.table.WellFormed) (operation : Operation) :
    (plane.perform operation).routes = plane.routes.run (plane.operationCalls operation) := by
  cases operation with
  | register id address metadata metric => exact routes_register plane id address metadata metric
  | link source target metric => exact routes_link plane source target metric
  | remove id =>
    rw [perform, operationCalls]
    split
    · next hlocal =>
      rw [hlocal, remove_local]
      rfl
    · next hother =>
      rw [remove_eq hother]
      rfl
  | advert advert =>
    rw [perform, operationCalls]
    split
    · next hadmitted =>
      rw [process_eq hwell hadmitted.1 hadmitted.2]
      rfl
    · next hadmitted =>
      rw [process_of_not_registered hadmitted]
      rfl
  | connect request answer =>
    rw [perform, connect_frame]
    rfl

/-- Whoever makes it, a change of the routes is a run of calls. -/
theorem routes_access (hwell : plane.routes.table.WellFormed) (access : Access) :
    (plane.access access).routes = plane.routes.run (plane.accessCalls access) := by
  cases access with
  | operation operation => exact routes_perform hwell operation
  | direct call => rfl

/-- All changes together are one history of calls, which leads to the routes and to the feed. -/
theorem routes_accessAll (hwell : plane.routes.table.WellFormed) (accesses : List Access) :
    (plane.accessAll accesses).routes = plane.routes.run (plane.allCalls accesses) := by
  induction accesses generalizing plane with
  | nil => rfl
  | cons access accesses ih =>
    have hroutes := routes_access hwell access
    have hnext : (plane.access access).routes.table.WellFormed := by
      rw [hroutes]
      exact LiveTable.wellFormed_run hwell _
    rw [accessAll, List.foldl_cons, ← accessAll, ih hnext, hroutes, allCalls, LiveTable.run_append]

/-- Let a new control plane be driven by any operations, and its table by any calls besides, those of
adverts and removals among them.  Then the events that were sent tell the lives of every key: it is
created, updated any number of times, deleted, and so on.  An update tells another route than the
event of the key before it, and a deletion the same one.  Under the key that route is stored which
its last event tells, unless this is a deletion.  The routes stored are as many as were created,
less those that were deleted. -/
theorem events_tell_lives (id address : String) (accesses : List Access) (key : RouteKey) :
    let plane := (start id address).accessAll accesses
    let calls := (start id address).allCalls accesses
    let events := (RouteTable.run {} calls).2
    let told := events.filter (·.route.key = key)
    plane.routes = LiveTable.run {} calls ∧
    plane.routes.feed.Carries events ∧
    (∃ updates, told.map TableEvent.kind <+: lifeKinds updates) ∧
    (∀ before event after, told = before ++ event :: after → event.kind = .update →
      ∃ prior, before.getLast? = some prior ∧ event.route ≠ prior.route) ∧
    (∀ before event after, told = before ++ event :: after → event.kind = .delete →
      ∃ prior, before.getLast? = some prior ∧ event.route = prior.route) ∧
    (∀ route, route ∈ plane.routes.table.query {} ∧ route.key = key ↔
      ∃ last, told.getLast? = some last ∧ last.kind ≠ .delete ∧ last.route = route) ∧
    plane.routes.table.size + events.countP (·.kind = .delete) =
      events.countP (·.kind = .create) := by
  intro plane calls events told
  have hempty : (start id address).routes.table.WellFormed := RouteTable.wellFormed_empty
  have hroutes : plane.routes = LiveTable.run {} calls := routes_accessAll hempty accesses
  have hpublish := LiveTable.run_eq_publish {} calls
  have htable : plane.routes.table = (RouteTable.run {} calls).1 := by
    rw [hroutes, LiveTable.table_run]
  have hwell : plane.routes.table.WellFormed := htable ▸ RouteTable.wellFormed_empty.run calls
  have hlife : Life none told (plane.routes.table.stored? key) := by
    rw [htable]
    exact RouteTable.wellFormed_empty.life_run calls key
  have hsize := RouteTable.wellFormed_empty.size_run calls
  refine ⟨hroutes, ?_, hlife.kinds_prefix.1 rfl, fun before event after htold ↦ ?_,
    fun before event after htold ↦ ?_, fun route ↦ ?_, ?_⟩
  · have hnew : ({} : LiveTable).feed.Carries [] := Feed.carries_new
    rw [hroutes, hpublish]
    exact LiveTable.carries_publish hnew _
  · rw [htold] at hlife
    exact hlife.follows_last.1
  · rw [htold] at hlife
    exact hlife.follows_last.2
  · rw [RouteTable.query_all, ← hwell.stored?_eq_some_iff]
    exact hlife.last_eq_some_iff
  · rw [htable, hsize]
    exact Nat.zero_add _

end ControlPlane

end ServiceMesh

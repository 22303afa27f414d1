import Mathlib.Data.List.Basic
import ServiceMesh.Proofs.ControlPlane.Changes
import ServiceMesh.Proofs.ControlPlane.Overlap

/-!
# No route without its router

Nothing keeps a router from being removed while its advert is taken in, so for a while routes may be
stored whose router is gone.  Each of them has a call in progress that has still to look the router
up or to withdraw its routes.  Once no call of a router is in progress, its routes are stored only
if it is registered.
-/

namespace ServiceMesh

/-- The router that a call has still to look up, or whose routes it has still to withdraw. -/
def Task.owes? : Task → Option String
  | applying intake | settling intake false => some intake.router
  | withdrawing id => some id
  | waiting _ | settling _ true | linking _ _ | returned _ => none

theorem Task.node?_of_owes? {task : Task} {router : String} (h : task.owes? = some router) :
    task.node? = some router := by
  cases task with
  | settling intake found => cases found <;> simp_all [owes?, node?]
  | _ => simp_all [owes?, node?]

theorem Task.inProgress_of_node? {task : Task} {router : String} (h : task.node? = some router) :
    task.inProgress = true := by
  cases task <;> simp_all [node?, inProgress]

namespace ControlPlane

inductive StepEffect (plane : ControlPlane) (task : Task) (plane' : ControlPlane) (task' : Task) :
    Prop where
  /-- Nothing, and if the call no longer looks after its router, it has found the router. -/
  | keep (hregistry : ∀ id, plane'.registry.contains id = plane.registry.contains id)
      (hroutes : plane'.routes = plane.routes)
      (hdone : ∀ router, task.owes? = some router →
        task'.owes? = some router ∨ plane.registry.contains router = true)
  | apply (router : String) (hregistry : plane'.registry = plane.registry)
      (hroutes : ∀ route ∈ plane'.routes.table.routes,
        route ∈ plane.routes.table.routes ∨ route.router = router)
      (howed : task.owes? = some router) (howes : task'.owes? = some router)
  | withdraw (router : String) (hregistry : plane'.registry = plane.registry)
      (hroutes : ∀ route ∈ plane'.routes.table.routes,
        route ∈ plane.routes.table.routes ∧ route.router ≠ router)
      (howed : task.owes? = some router)
  | unregister (id : String) (hregistry : plane'.registry = plane.registry.remove id)
      (hroutes : plane'.routes = plane.routes) (htask : task = .waiting (.remove id))
      (howes : task'.owes? = some id)
  | register (id address : String) (metadata : NameMap String) (metric : Int64)
      (hregistry : plane'.registry = plane.registry.insert id address metadata)
      (hroutes : plane'.routes = plane.routes)
      (htask : task = .waiting (.register id address metadata metric))

/-- The registry and the routes as they were, before a call that looks after no router. -/
theorem StepEffect.unchanged {plane : ControlPlane} {task : Task} (h : task.owes? = none)
    (task' : Task) : StepEffect plane task plane task' :=
  .keep (fun _ ↦ rfl) rfl fun _ howed ↦ absurd howed (by simp [h])

/-- Each step does one of these five things, and none changes which node is the local one. -/
theorem stepTask_spec (plane : ControlPlane) (task : Task) :
    (plane.stepTask task).1.localId = plane.localId ∧
      StepEffect plane task (plane.stepTask task).1 (plane.stepTask task).2 := by
  cases task with
  | waiting call =>
    cases call with
    | advert advert =>
      simp only [stepTask]
      cases plane.receive advert <;> exact ⟨rfl, .unchanged rfl _⟩
    | remove id =>
      simp only [stepTask]
      cases hbegin : plane.beginRemove id with
      | error cause => exact ⟨rfl, .unchanged rfl _⟩
      | ok begun =>
        obtain ⟨-, rfl⟩ := beginRemove_eq_ok_iff.1 hbegin
        exact ⟨rfl, .unregister id rfl rfl rfl rfl⟩
    | register id address metadata metric =>
      simp only [stepTask]
      cases hbegin : plane.beginRegister id address metadata with
      | error cause => exact ⟨rfl, .unchanged rfl _⟩
      | ok begun =>
        obtain ⟨-, -, rfl⟩ := beginRegister_eq_ok_iff.1 hbegin
        exact ⟨rfl, .register id address metadata metric rfl rfl rfl⟩
  | applying intake =>
    obtain ⟨router, pending, failure⟩ := intake
    cases pending with
    | nil =>
      refine ⟨rfl, .keep (fun _ ↦ rfl) rfl fun other howed ↦ ?_⟩
      cases howed
      cases hfound : plane.registry.contains router with
      | false => exact .inl (by simp only [stepTask, hfound, Task.owes?])
      | true => exact .inr rfl
    | cons event pending =>
      have hlocal : (plane.applyEvent router event).1.localId = plane.localId := by
        rw [applyEvent_frame]
      have hregistry : (plane.applyEvent router event).1.registry = plane.registry := by
        rw [applyEvent_frame]
      exact ⟨hlocal, .apply router hregistry (fun _ ↦ mem_applyEvent) rfl rfl⟩
  | settling intake found =>
    cases found with
    | false => exact ⟨rfl, .withdraw intake.router rfl (fun _ ↦ mem_withdrawRoutes.1) rfl⟩
    | true => exact ⟨rfl, .keep (fun _ ↦ rfl) rfl fun _ howed ↦ by cases howed⟩
  | withdrawing id => exact ⟨rfl, .withdraw id rfl (fun _ ↦ mem_withdrawRoutes.1) rfl⟩
  | linking id metric =>
    have hlocal : (plane.finishRegister id metric).1.localId = plane.localId := by
      rw [finishRegister_frame]
    have hroutes : (plane.finishRegister id metric).1.routes = plane.routes := by
      rw [finishRegister_frame]
    have hregistry := contains_finishRegister plane id metric
    exact ⟨hlocal, .keep hregistry hroutes fun _ howed ↦ by cases howed⟩
  | returned result => exact ⟨rfl, .unchanged rfl _⟩

namespace StepEffect

variable {plane plane' : ControlPlane} {task task' : Task}

/-- A step stores routes only of a router that its call will look up. -/
theorem mem_routes (h : StepEffect plane task plane' task') {route : Route}
    (hmem : route ∈ plane'.routes.table.routes) :
    route ∈ plane.routes.table.routes ∨ task'.owes? = some route.router := by
  cases h with
  | keep _ hroutes => exact .inl (hroutes ▸ hmem)
  | apply router _ hroutes _ howes =>
    apply (hroutes route hmem).imp_right
    intro hrouter
    rw [howes, hrouter]
  | withdraw router _ hroutes => exact .inl (hroutes route hmem).1
  | unregister id _ hroutes => exact .inl (hroutes ▸ hmem)
  | register id address metadata metric _ hroutes => exact .inl (hroutes ▸ hmem)

/-- A step that takes a node out of the registry leaves its routes for its call to withdraw. -/
theorem contains (h : StepEffect plane task plane' task') {router : String}
    (hcontains : plane.registry.contains router = true) :
    plane'.registry.contains router = true ∨ task'.owes? = some router := by
  cases h with
  | keep hregistry => exact .inl ((hregistry router).trans hcontains)
  | apply _ hregistry => exact .inl (hregistry ▸ hcontains)
  | withdraw _ hregistry => exact .inl (hregistry ▸ hcontains)
  | unregister id hregistry _ _ howes =>
    by_cases heq : router = id
    · exact .inr (heq ▸ howes)
    · rw [hregistry, Registry.contains_remove]
      exact .inl ⟨heq, hcontains⟩
  | register id address metadata metric hregistry =>
    rw [hregistry, Registry.contains_insert]
    exact .inl (.inr hcontains)

/-- A call looks after its router until the router is registered or has no routes. -/
theorem owes? (h : StepEffect plane task plane' task') {router : String}
    (howed : task.owes? = some router) :
    task'.owes? = some router ∨ plane'.registry.contains router = true ∨
      ∀ route ∈ plane'.routes.table.routes, route.router ≠ router := by
  cases h with
  | keep hregistry _ hdone =>
    refine (hdone router howed).imp_right fun hcontains ↦ .inl ?_
    rw [hregistry, hcontains]
  | apply other _ _ howed' howes =>
    left
    rw [howes, ← howed', howed]
  | withdraw other _ hroutes howed' =>
    obtain rfl : router = other := Option.some_inj.1 (howed.symm.trans howed')
    exact .inr (.inr fun route hmem ↦ (hroutes route hmem).2)
  | unregister id _ _ htask => cases htask ▸ howed
  | register id address metadata metric _ _ htask => cases htask ▸ howed

/-- Only a call that registers a node puts it into the registry. -/
theorem contains_of (h : StepEffect plane task plane' task') {router : String}
    (hcontains : plane'.registry.contains router = true) :
    plane.registry.contains router = true ∨
      ∃ address metadata metric, task = .waiting (.register router address metadata metric) := by
  cases h with
  | keep hregistry => exact .inl ((hregistry router).symm.trans hcontains)
  | apply _ hregistry => exact .inl (hregistry ▸ hcontains)
  | withdraw _ hregistry => exact .inl (hregistry ▸ hcontains)
  | unregister id hregistry =>
    rw [hregistry, Registry.contains_remove] at hcontains
    exact .inl hcontains.2
  | register id address metadata metric hregistry _ htask =>
    rw [hregistry, Registry.contains_insert] at hcontains
    rcases hcontains with rfl | hcontains
    · exact .inr ⟨address, metadata, metric, htask⟩
    · exact .inl hcontains

end StepEffect

end ControlPlane

namespace Traffic

/-- Each stored route has its router registered, or has a call in progress that looks after it. -/
def Guarded (traffic : Traffic) : Prop :=
  ∀ route ∈ traffic.plane.routes.table.routes,
    traffic.plane.registry.contains route.router = true ∨
      ∃ task ∈ traffic.tasks, task.owes? = some route.router

theorem step_eq {traffic : Traffic} {index : ℕ} {task : Task}
    (h : traffic.tasks[index]? = some task) :
    traffic.step index =
      ⟨(traffic.plane.stepTask task).1,
        traffic.tasks.set index (traffic.plane.stepTask task).2⟩ := by
  simp only [step, h]

theorem step_of_none {traffic : Traffic} {index : ℕ} (h : traffic.tasks[index]? = none) :
    traffic.step index = traffic := by
  simp only [step, h]

@[simp] theorem run_cons (traffic : Traffic) (index : ℕ) (schedule : List ℕ) :
    traffic.run (index :: schedule) = (traffic.step index).run schedule := rfl

theorem run_append (traffic : Traffic) (schedule more : List ℕ) :
    traffic.run (schedule ++ more) = (traffic.run schedule).run more :=
  List.foldl_append

theorem guarded_start (id address : String) (calls : List PlaneCall) :
    (start id address calls).Guarded := by
  intro route hmem
  cases hmem

/-- What a call owes after its step counts for the list of all calls, and what other calls owe is
still there. -/
theorem Guarded.step {traffic : Traffic} (h : traffic.Guarded) (index : ℕ) :
    (traffic.step index).Guarded := by
  cases htask : traffic.tasks[index]? with
  | none => rwa [step_of_none htask]
  | some task =>
    have heffect := (ControlPlane.stepTask_spec traffic.plane task).2
    obtain ⟨hindex, _⟩ := List.getElem?_eq_some_iff.1 htask
    have hset : (traffic.plane.stepTask task).2 ∈
        traffic.tasks.set index (traffic.plane.stepTask task).2 := List.mem_set hindex _
    rw [step_eq htask]
    intro route hmem
    rcases heffect.mem_routes hmem with hstored | howes
    · rcases h route hstored with hcontains | ⟨other, hother, howed⟩
      · exact (heffect.contains hcontains).imp_right fun howes ↦ ⟨_, hset, howes⟩
      · obtain ⟨position, hposition⟩ := List.mem_iff_getElem?.1 hother
        by_cases hsame : index = position
        · obtain rfl : task = other := by
            rw [← hsame, htask] at hposition
            exact Option.some_inj.1 hposition
          rcases heffect.owes? howed with howes | hcontains | hgone
          · exact .inr ⟨_, hset, howes⟩
          · exact .inl hcontains
          · exact absurd rfl (hgone route hmem)
        · refine .inr ⟨other, List.mem_iff_getElem?.2 ⟨position, ?_⟩, howed⟩
          rw [List.getElem?_set_ne hsame, hposition]
    · exact .inr ⟨_, hset, howes⟩

/-- The guard is kept by every interleaving. -/
theorem Guarded.run {traffic : Traffic} (h : traffic.Guarded) (schedule : List ℕ) :
    (traffic.run schedule).Guarded := by
  induction schedule generalizing traffic with
  | nil => exact h
  | cons index schedule ih => exact ih (h.step index)

/-- A router that is gone and that no call in progress is about has no routes. -/
theorem Guarded.routesOf_eq_nil {traffic : Traffic} (h : traffic.Guarded) {router : String}
    (hgone : traffic.plane.registry.contains router = false)
    (hover : ∀ task ∈ traffic.tasks, task.node? ≠ some router) :
    traffic.plane.routes.table.routesOf router = [] := by
  simp only [RouteTable.routesOf, List.filter_eq_nil_iff, decide_eq_true_eq]
  rintro route hmem rfl
  rcases h route hmem with hcontains | ⟨task, htask, howes⟩
  · rw [hgone] at hcontains
    cases hcontains
  · exact hover task htask (Task.node?_of_owes? howes)

/-- The next step of the call at an index would register a node. -/
def Registers (traffic : Traffic) (router : String) (index : ℕ) : Prop :=
  ∃ address metadata metric,
    traffic.tasks[index]? = some (.waiting (.register router address metadata metric))

theorem not_contains_step {traffic : Traffic} {router : String} {index : ℕ}
    (h : traffic.plane.registry.contains router = false)
    (hspare : ¬ traffic.Registers router index) :
    (traffic.step index).plane.registry.contains router = false := by
  cases htask : traffic.tasks[index]? with
  | none => rwa [step_of_none htask]
  | some task =>
    rw [step_eq htask, Bool.eq_false_iff]
    intro hcontains
    rcases (ControlPlane.stepTask_spec traffic.plane task).2.contains_of hcontains with
      hbefore | ⟨address, metadata, metric, rfl⟩
    · rw [h] at hbefore
      cases hbefore
    · exact hspare ⟨address, metadata, metric, htask⟩

/-- A router that is gone stays so until a step of the schedule registers it. -/
theorem not_contains_run {traffic : Traffic} {router : String} {schedule : List ℕ}
    (h : traffic.plane.registry.contains router = false)
    (hspare : ∀ first index, first ++ [index] <+: schedule →
      ¬ (traffic.run first).Registers router index) :
    (traffic.run schedule).plane.registry.contains router = false := by
  induction schedule generalizing traffic with
  | nil => exact h
  | cons index schedule ih =>
    have hfirst : ¬ traffic.Registers router index := hspare [] index ⟨schedule, rfl⟩
    apply ih (not_contains_step h hfirst)
    intro first next hprefix
    exact hspare (index :: first) next (List.cons_prefix_cons.2 ⟨rfl, hprefix⟩)

theorem run_localId (traffic : Traffic) (schedule : List ℕ) :
    (traffic.run schedule).plane.localId = traffic.plane.localId := by
  induction schedule generalizing traffic with
  | nil => rfl
  | cons index schedule ih =>
    rw [run_cons, ih]
    cases htask : traffic.tasks[index]? with
    | none => rw [step_of_none htask]
    | some task => rw [step_eq htask, (ControlPlane.stepTask_spec traffic.plane task).1]

/-- Its first step takes a removed node out of the registry. -/
theorem not_contains_of_remove {traffic : Traffic} {router : String} {index : ℕ}
    (htask : traffic.tasks[index]? = some (.waiting (.remove router)))
    (hother : router ≠ traffic.plane.localId) :
    (traffic.step index).plane.registry.contains router = false := by
  rw [step_eq htask]
  have hbegin := ControlPlane.beginRemove_eq_ok_iff.2 ⟨hother, rfl⟩
  simp only [ControlPlane.stepTask, hbegin, ControlPlane.unregister, Bool.eq_false_iff, ne_eq,
    Registry.contains_remove, not_true_eq_false, false_and, not_false_eq_true]

/-- However the steps of adverts, removals and registrations are mixed, routes are stored only of
registered routers whenever no call is in progress; for a router that is not registered it is enough
that no call about it is.  So a router that is removed, be it in the middle of its own advert, and
is not registered again has no routes once the calls about it have returned.  The steps are those of
the operations: a call that nothing comes between does what the whole operation does. -/
theorem no_orphan_routes (id address : String) (calls : List PlaneCall) (schedule : List ℕ) :
    let traffic := (start id address calls).run schedule
    (traffic.Quiet → ∀ route ∈ traffic.plane.routes.table.routes,
      traffic.plane.registry.contains route.router = true) ∧
    (∀ router, traffic.plane.registry.contains router = false →
      (∀ task ∈ traffic.tasks, task.node? ≠ some router) →
      traffic.plane.routes.table.routesOf router = []) ∧
    (∀ before index after router, schedule = before ++ index :: after → router ≠ id →
      ((start id address calls).run before).tasks[index]? = some (.waiting (.remove router)) →
      (∀ first next, first ++ [next] <+: after →
        ¬ ((start id address calls).run (before ++ index :: first)).Registers router next) →
      (∀ task ∈ traffic.tasks, task.node? ≠ some router) →
      traffic.plane.routes.table.routesOf router = []) ∧
    ∀ (plane : ControlPlane) (call : PlaneCall), ∃ count,
      run ⟨plane, [.waiting call]⟩ (List.replicate count 0) =
        ⟨(plane.whole call).1, [.returned (plane.whole call).2]⟩ := by
  intro traffic
  have hguarded : traffic.Guarded := (guarded_start id address calls).run schedule
  refine ⟨fun hquiet route hmem ↦ ?_, fun router ↦ hguarded.routesOf_eq_nil, ?_,
    ControlPlane.run_alone⟩
  · rcases hguarded route hmem with hcontains | ⟨task, htask, howes⟩
    · exact hcontains
    · have hprogress := Task.inProgress_of_node? (Task.node?_of_owes? howes)
      rw [hquiet task htask] at hprogress
      cases hprogress
  · intro before index after router hschedule hother htask hspare hover
    refine hguarded.routesOf_eq_nil ?_ hover
    have hlocal : router ≠ ((start id address calls).run before).plane.localId := by
      rwa [run_localId]
    simp only [traffic, hschedule, run_append, run_cons] at hspare ⊢
    exact not_contains_run (not_contains_of_remove htask hlocal) hspare

/-- The advert of a router that is removed between the two looks at it. -/
def removedMidAdvert (schedule : List ℕ) : Traffic :=
  let route := { service := "s", router := "r" }
  (start "n" "" [.register "r" "" ∅ 1, .advert ⟨"r", [⟨.create, route⟩]⟩, .remove "r"]).run schedule

theorem no_orphan_routes_mid_advert :
    (removedMidAdvert [0, 0, 1, 2, 2, 1]).plane.registry.contains "r" = false ∧
    (removedMidAdvert [0, 0, 1, 2, 2, 1]).plane.routes.table.routesOf "r" ≠ [] ∧
    (removedMidAdvert [0, 0, 1, 2, 2, 1, 1, 1]).Quiet ∧
    (removedMidAdvert [0, 0, 1, 2, 2, 1, 1, 1]).plane.routes.table.routesOf "r" = [] := by
  have hquiet : (removedMidAdvert [0, 0, 1, 2, 2, 1, 1, 1]).Quiet := by
    unfold Quiet
    decide +kernel
  have hgone : (removedMidAdvert [0, 0, 1, 2, 2, 1, 1, 1]).plane.registry.contains "r" = false := by
    decide +kernel
  have hover : ∀ task ∈ (removedMidAdvert [0, 0, 1, 2, 2, 1, 1, 1]).tasks,
      task.node? ≠ some "r" := by
    decide +kernel
  obtain ⟨_, hrouter, _⟩ := no_orphan_routes "n" "" _ [0, 0, 1, 2, 2, 1, 1, 1]
  exact ⟨by decide +kernel, by decide +kernel, hquiet, hrouter "r" hgone hover⟩

end Traffic

end ServiceMesh

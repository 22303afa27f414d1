import Mathlib.Data.List.Basic
import ServiceMesh.ControlPlane

/-!
# Overlapping calls

Adverts, removals and registrations come in from several tasks at once.  The registry and the route
table have locks of their own, so a call is a sequence of steps, and steps of other calls may come
between any two of them.  Each step is a phase of an operation.  A schedule names the calls whose
steps follow one another; every list of indices is one.  A gauge is set together with the last step
of its call, as nothing here reads it.
-/

namespace ServiceMesh

inductive PlaneCall where
  | advert (advert : Advert)
  | remove (id : String)
  | register (id address : String) (metadata : NameMap String) (metric : Int64)

/-- How far a call has come. -/
inductive Task where
  | waiting (call : PlaneCall)
  /-- An advert was admitted; its events are applied, and then its router is looked up again. -/
  | applying (intake : Intake)
  /-- The router of an advert was looked up again; if it was not found, its routes are still to be
  withdrawn. -/
  | settling (intake : Intake) (found : Bool)
  /-- A node was taken out of the registry; its routes are still to be withdrawn. -/
  | withdrawing (id : String)
  /-- A node was registered; the link to it is still to be made. -/
  | linking (id : String) (metric : Int64)
  | returned (answer : Except MeshError (List Route))

namespace Task

/-- A call has begun and has not returned. -/
def inProgress : Task → Bool
  | waiting _ | returned _ => false
  | applying _ | settling _ _ | withdrawing _ | linking _ _ => true

/-- The node that a call in progress is about. -/
def node? : Task → Option String
  | applying intake | settling intake _ => some intake.router
  | withdrawing id | linking id _ => some id
  | waiting _ | returned _ => none

end Task

namespace ControlPlane

/-- The answer of a call that withdraws no routes. -/
def answer : Option MeshError → Except MeshError (List Route)
  | none => .ok []
  | some cause => .error cause

/-- One step of a call. -/
def stepTask (plane : ControlPlane) : Task → ControlPlane × Task
  | .waiting (.advert advert) =>
    match plane.receive advert with
    | .ignored => (plane, .returned (answer none))
    | .refused cause => (plane, .returned (answer (some cause)))
    | .admitted intake => (plane, .applying intake)
  | .applying intake =>
    match intake.pending with
    | [] => (plane, .settling intake (plane.registry.contains intake.router))
    | _ :: _ =>
      let (plane, intake) := plane.advance intake
      (plane, .applying intake)
  | .settling intake found =>
    (plane.settle intake.router found, .returned (answer intake.failure))
  | .waiting (.remove id) =>
    match plane.beginRemove id with
    | .error cause => (plane, .returned (.error cause))
    | .ok plane => (plane, .withdrawing id)
  | .withdrawing id =>
    let (plane, withdrawn) := plane.finishRemove id
    (plane, .returned (.ok withdrawn))
  | .waiting (.register id address metadata metric) =>
    match plane.beginRegister id address metadata with
    | .error cause => (plane, .returned (.error cause))
    | .ok plane => (plane, .linking id metric)
  | .linking id metric =>
    let (plane, failure) := plane.finishRegister id metric
    (plane, .returned (answer failure))
  | .returned result => (plane, .returned result)

/-- A whole call, that nothing comes between. -/
def whole (plane : ControlPlane) : PlaneCall → ControlPlane × Except MeshError (List Route)
  | .advert advert =>
    let (plane, failure) := plane.process advert
    (plane, answer failure)
  | .remove id => plane.remove id
  | .register id address metadata metric =>
    let (plane, failure) := plane.register id address metadata metric
    (plane, answer failure)

end ControlPlane

structure Traffic where
  plane : ControlPlane
  tasks : List Task

namespace Traffic

/-- A new control plane, and calls that have not begun. -/
def start (id address : String) (calls : List PlaneCall) : Traffic :=
  ⟨ControlPlane.start id address, calls.map .waiting⟩

/-- The next step of the call at an index, if there is such a call. -/
def step (traffic : Traffic) (index : ℕ) : Traffic :=
  match traffic.tasks[index]? with
  | none => traffic
  | some task =>
    let (plane, task) := traffic.plane.stepTask task
    ⟨plane, traffic.tasks.set index task⟩

def run (traffic : Traffic) (schedule : List ℕ) : Traffic := schedule.foldl step traffic

/-- No call is in progress. -/
def Quiet (traffic : Traffic) : Prop := ∀ task ∈ traffic.tasks, task.inProgress = false

end Traffic

namespace ControlPlane

def stepTimes (plane : ControlPlane) (task : Task) : ℕ → ControlPlane × Task
  | 0 => (plane, task)
  | count + 1 =>
    let (plane, task) := plane.stepTask task
    plane.stepTimes task count

theorem stepTimes_succ (plane : ControlPlane) (task : Task) (count : ℕ) :
    plane.stepTimes task (count + 1) =
      (plane.stepTask task).1.stepTimes (plane.stepTask task).2 count := rfl

/-- A schedule of one call only is just its steps. -/
theorem run_single (plane : ControlPlane) (task : Task) (count : ℕ) :
    Traffic.run ⟨plane, [task]⟩ (List.replicate count 0) =
      ⟨(plane.stepTimes task count).1, [(plane.stepTimes task count).2]⟩ := by
  induction count generalizing plane task with
  | zero => rfl
  | succ count ih =>
    rw [List.replicate_succ, Traffic.run, List.foldl_cons, ← Traffic.run, stepTimes_succ, ← ih]
    rfl

/-- The events of an admitted advert are followed by one look at the registry, and by the withdrawal
of the router's routes if it is gone. -/
theorem stepTimes_applying (plane : ControlPlane) (intake : Intake) :
    plane.stepTimes (.applying intake) (intake.pending.length + 2) =
      ((plane.complete intake).1, .returned (answer (plane.complete intake).2)) := by
  obtain ⟨router, pending, failure⟩ := intake
  induction pending generalizing plane failure with
  | nil => rfl
  | cons event pending ih => exact ih _ _

/-- A call that nothing comes between is the whole operation. -/
theorem run_alone (plane : ControlPlane) (call : PlaneCall) :
    ∃ count, Traffic.run ⟨plane, [.waiting call]⟩ (List.replicate count 0) =
      ⟨(plane.whole call).1, [.returned (plane.whole call).2]⟩ := by
  suffices h : ∃ count, plane.stepTimes (.waiting call) count =
      ((plane.whole call).1, .returned (plane.whole call).2) by
    obtain ⟨count, hcount⟩ := h
    exact ⟨count, by rw [run_single, hcount]⟩
  cases call with
  | advert advert =>
    cases hreceive : plane.receive advert with
    | ignored => exact ⟨1, by simp [stepTimes, stepTask, whole, process, hreceive]⟩
    | refused cause => exact ⟨1, by simp [stepTimes, stepTask, whole, process, hreceive]⟩
    | admitted intake =>
      refine ⟨intake.pending.length + 3, ?_⟩
      rw [stepTimes_succ]
      simp only [stepTask, whole, process, hreceive, stepTimes_applying]
  | remove id =>
    cases hbegin : plane.beginRemove id with
    | error cause => exact ⟨1, by simp [stepTimes, stepTask, whole, remove, hbegin]⟩
    | ok begun => exact ⟨2, by simp [stepTimes, stepTask, whole, remove, hbegin]⟩
  | register id address metadata metric =>
    cases hbegin : plane.beginRegister id address metadata with
    | error cause => exact ⟨1, by simp [stepTimes, stepTask, whole, register, answer, hbegin]⟩
    | ok begun => exact ⟨2, by simp [stepTimes, stepTask, whole, register, hbegin]⟩

end ControlPlane

end ServiceMesh

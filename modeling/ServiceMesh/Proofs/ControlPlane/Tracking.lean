import Mathlib.Algebra.Group.Nat.Defs
import ServiceMesh.ControlPlane
import ServiceMesh.Proofs.ControlPlane.Access
import ServiceMesh.Proofs.Losses

/-!
# A control plane and its tracker

The gauge of routes has two writers.  Operations that may change the routes set it at their end, and
the tracker sets it whenever it reads from the feed, be it an event or a loss; calls by others leave
it to the tracker.  As every change of the number of routes is told by an event, a tracker that has
nothing left to read has set the gauge since the last change, or an operation has.  The counters of
events are written by the tracker alone.
-/

namespace ServiceMesh

namespace Metrics

def counted (metrics : Metrics) : EventKind → UInt64
  | .create => metrics.created
  | .update => metrics.updated
  | .delete => metrics.deleted

theorem counted_countEvent (metrics : Metrics) (event : TableEvent) (kind : EventKind) :
    (metrics.countEvent event.kind).counted kind =
      metrics.counted kind + UInt64.ofNat ([event].countP (·.kind = kind)) := by
  obtain ⟨told, route⟩ := event
  cases told <;> cases kind <;> first | rfl | exact (UInt64.add_zero _).symm

theorem counted_setRoutes (metrics : Metrics) (count : ℕ) (kind : EventKind) :
    (metrics.setRoutes count).counted kind = metrics.counted kind := by
  cases kind <;> rfl

end Metrics

/-- Each event is of one kind. -/
theorem TableEvent.countP_kinds (events : List TableEvent) :
    events.countP (·.kind = .create) + events.countP (·.kind = .update) +
      events.countP (·.kind = .delete) = events.length := by
  induction events with
  | nil => rfl
  | cons event events ih =>
    obtain ⟨kind, route⟩ := event
    cases kind <;> simp <;> omega

namespace ControlPlane

/-- What the tracker reads is counted if it is an event. -/
theorem counted_observe (plane : ControlPlane) (reading : Reading TableEvent) (kind : EventKind) :
    (plane.observe reading).metrics.counted kind =
      plane.metrics.counted kind +
        UInt64.ofNat (reading.item?.toList.countP (·.kind = kind)) := by
  cases reading with
  | item event =>
    rw [observe, gaugeRoutes, Metrics.counted_setRoutes, Metrics.counted_countEvent]
    rfl
  | lagged missed =>
    rw [observe, gaugeRoutes, Metrics.counted_setRoutes]
    exact (UInt64.add_zero _).symm
  | upToDate => exact (UInt64.add_zero _).symm
  | ended => exact (UInt64.add_zero _).symm

/-- From one state to another no events are counted, and if the gauge of routes is set, then to their
number. -/
structure Regauged (before after : ControlPlane) : Prop where
  counted : ∀ kind, after.metrics.counted kind = before.metrics.counted kind
  routes : after.metrics.routes = before.metrics.routes ∨
    after.metrics.routes = Int64.ofNat after.routes.table.size

theorem regauged_self (plane : ControlPlane) : plane.Regauged plane := ⟨fun _ ↦ rfl, .inl rfl⟩

/-- Of all operations only adverts and removals change the number of routes, and both set the
gauge. -/
theorem regauged_perform (plane : ControlPlane) (operation : Operation) :
    plane.Regauged (plane.perform operation) := by
  cases operation with
  | register id address metadata metric =>
    rw [perform, register_frame]
    exact ⟨fun kind ↦ by cases kind <;> rfl, .inl rfl⟩
  | link source target metric =>
    rw [perform, link_frame]
    exact ⟨fun _ ↦ rfl, .inl rfl⟩
  | remove id =>
    by_cases hlocal : id = plane.localId
    · rw [perform, hlocal, remove_local]
      exact plane.regauged_self
    · rw [perform, remove_eq hlocal]
      exact ⟨fun kind ↦ by cases kind <;> rfl, .inr rfl⟩
  | advert advert =>
    rw [perform]
    rcases plane.process_cases advert with hsame | hgauged
    · rw [hsame]
      exact plane.regauged_self
    · rw [hgauged]
      exact ⟨fun kind ↦ by cases kind <;> rfl, .inr rfl⟩
  | connect request answer =>
    cases answer <;> exact ⟨fun kind ↦ by cases kind <;> rfl, .inl rfl⟩

/-- A call by someone else sets no gauge. -/
theorem regauged_access (plane : ControlPlane) (access : Access) :
    plane.Regauged (plane.access access) := by
  cases access with
  | operation operation => exact plane.regauged_perform operation
  | direct call => exact ⟨fun _ ↦ rfl, .inl rfl⟩

end ControlPlane

/-- What may happen next: someone changes the control plane or its routes, or the tracker reads. -/
inductive TrackingStep where
  | access (access : Access)
  | track

/-- A control plane and a tracker of its events, with what has been called and read so far. -/
structure Tracking where
  plane : ControlPlane
  tracker : Tracker
  /-- All calls to the table. -/
  calls : List TableCall := []
  /-- All that the tracker has met. -/
  readings : List (Reading TableEvent) := []

namespace Tracking

open ControlPlane (start)
open Reading (items lost)

/-- A new control plane that is tracked from the beginning. -/
def begin (id address : String) : Tracking :=
  { plane := start id address, tracker := (start id address).track }

/-- What the tracker would meet next. -/
def next (tracked : Tracking) : Reading TableEvent :=
  (tracked.plane.routes.feed.read tracked.tracker.position).1

def step (tracked : Tracking) : TrackingStep → Tracking
  | .access access =>
    { tracked with
      plane := tracked.plane.access access
      calls := tracked.calls ++ tracked.plane.accessCalls access }
  | .track =>
    let (plane, tracker) := tracked.plane.trackStep tracked.tracker
    { tracked with plane, tracker, readings := tracked.readings ++ [tracked.next] }

def run (tracked : Tracking) (steps : List TrackingStep) : Tracking := steps.foldl step tracked

def events (tracked : Tracking) : List TableEvent := (RouteTable.run {} tracked.calls).2

variable {tracked : Tracking}

section Routes

variable (hroutes : tracked.plane.routes = LiveTable.run {} tracked.calls)

include hroutes

theorem table_eq_run :
    tracked.plane.routes.table = (RouteTable.run {} tracked.calls).1 := by
  rw [hroutes, LiveTable.table_run]

/-- The feed has been sent just the events of the calls. -/
theorem carries_events : tracked.plane.routes.feed.Carries tracked.events := by
  rw [hroutes]
  exact LiveTable.carries_run tracked.calls

/-- The routes are as many as were created, less those that were deleted. -/
theorem size_eq :
    tracked.plane.routes.table.size + tracked.events.countP (·.kind = .delete) =
      tracked.events.countP (·.kind = .create) := by
  rw [table_eq_run hroutes, events, RouteTable.wellFormed_empty.size_run]
  exact Nat.zero_add _

theorem routes_step_access (access : Access) :
    (tracked.step (.access access)).plane.routes =
      LiveTable.run {} (tracked.step (.access access)).calls := by
  have hwell : tracked.plane.routes.table.WellFormed :=
    table_eq_run hroutes ▸ RouteTable.wellFormed_empty.run tracked.calls
  calc (tracked.plane.access access).routes
    _ = tracked.plane.routes.run (tracked.plane.accessCalls access) :=
      ControlPlane.routes_access hwell access
    _ = LiveTable.run {} (tracked.calls ++ tracked.plane.accessCalls access) := by
      rw [LiveTable.run_append, hroutes]

end Routes

theorem events_prefix_step_access (tracked : Tracking) (access : Access) :
    tracked.events <+: (tracked.step (.access access)).events := by
  rw [events, events, step, RouteTable.run_append]
  exact List.prefix_append _ _

/-- Reading changes no routes. -/
theorem routes_step_track (tracked : Tracking) :
    (tracked.step .track).plane.routes = tracked.plane.routes := by
  simp only [step, ControlPlane.trackStep, ControlPlane.observe]
  split <;> rfl

/-- The counters tell what the tracker has read.  When it has come to the end of the events, the
gauge tells the number of routes. -/
structure Tallied (tracked : Tracking) : Prop where
  routes : tracked.plane.routes = LiveTable.run {} tracked.calls
  covers : Reading.Covers tracked.readings tracked.events 0 tracked.tracker.position
  counted : ∀ kind, tracked.plane.metrics.counted kind =
    UInt64.ofNat ((items tracked.readings).countP (·.kind = kind))
  gauge : tracked.tracker.position = tracked.events.length →
    tracked.plane.metrics.routes = Int64.ofNat tracked.plane.routes.table.size

/-- At first nothing is stored, and the gauge of routes tells zero. -/
theorem tallied_begin (id address : String) : (begin id address).Tallied where
  routes := rfl
  covers := Reading.covers_nil []
  counted kind := by cases kind <;> rfl
  gauge _ := rfl

namespace Tallied

/-- A change of the number of routes is told by an event, which the tracker has still to read. -/
theorem access (h : tracked.Tallied) (access : Access) :
    (tracked.step (.access access)).Tallied := by
  have hroutes := routes_step_access h.routes access
  obtain ⟨more, hevents⟩ := tracked.events_prefix_step_access access
  obtain ⟨hcounted, hgauge⟩ := tracked.plane.regauged_access access
  refine ⟨hroutes, ?_, fun kind ↦ (hcounted kind).trans (h.counted kind), fun hend ↦ ?_⟩
  · rw [← hevents]
    exact h.covers.send more
  · rcases hgauge with hsame | hset
    · have hlength : tracked.tracker.position = tracked.events.length + more.length := by
        rw [← List.length_append, hevents]
        exact hend
      have hle := h.covers.position_le
      have hsilent : more = [] := List.length_eq_zero_iff.1 (by omega)
      rw [hsilent, List.append_nil] at hevents
      have hbefore := size_eq h.routes
      have hafter := size_eq hroutes
      rw [← hevents] at hafter
      have hsize : (tracked.step (.access access)).plane.routes.table.size =
          tracked.plane.routes.table.size := by
        omega
      rw [hsize]
      exact hsame.trans (h.gauge (by omega))
    · exact hset

/-- Whatever the tracker meets, it counts just the event, if there is one, and sets the gauge unless
it has met nothing. -/
theorem track (h : tracked.Tallied) : (tracked.step .track).Tallied := by
  have hplane : (tracked.step .track).plane = tracked.plane.observe tracked.next := rfl
  have hroutes := tracked.routes_step_track
  refine ⟨hroutes.trans h.routes, h.covers.read (carries_events h.routes), fun kind ↦ ?_,
    fun hend ↦ ?_⟩
  · calc (tracked.step .track).plane.metrics.counted kind
      _ = tracked.plane.metrics.counted kind +
          UInt64.ofNat (tracked.next.item?.toList.countP (·.kind = kind)) :=
        tracked.plane.counted_observe tracked.next kind
      _ = UInt64.ofNat ((items (tracked.readings ++ [tracked.next])).countP (·.kind = kind)) := by
        rw [h.counted, Reading.items_append, Reading.items_singleton, List.countP_append,
          UInt64.ofNat_add]
  · have hidle : tracked.next = .upToDate ∨ tracked.next = .ended →
        tracked.tracker.position = tracked.events.length := fun hnext ↦
      (Feed.read_position_of_idle hnext).symm.trans hend
    rw [hroutes, hplane]
    cases hnext : tracked.next with
    | item event => rfl
    | lagged missed => rfl
    | upToDate => exact h.gauge (hidle (.inl hnext))
    | ended => exact h.gauge (hidle (.inr hnext))

theorem step (h : tracked.Tallied) (step : TrackingStep) : (tracked.step step).Tallied := by
  cases step with
  | access access => exact h.access access
  | track => exact h.track

/-- However changes and reads are mixed, the account is kept. -/
theorem run (h : tracked.Tallied) (steps : List TrackingStep) : (tracked.run steps).Tallied := by
  induction steps generalizing tracked with
  | nil => exact h
  | cons step steps ih => exact ih (h.step step)

/-- The three counters add up to all events that were read. -/
theorem sum_counters (h : tracked.Tallied) :
    tracked.plane.metrics.created + tracked.plane.metrics.updated + tracked.plane.metrics.deleted =
      UInt64.ofNat (items tracked.readings).length := by
  rw [← TableEvent.countP_kinds, UInt64.ofNat_add, UInt64.ofNat_add, ← h.counted .create,
    ← h.counted .update, ← h.counted .delete]
  rfl

/-- As long as the number of all events is a word, so are those that are counted. -/
theorem toNat_counted (h : tracked.Tallied) (hfew : tracked.events.length < 2 ^ 64)
    (kind : EventKind) :
    (tracked.plane.metrics.counted kind).toNat =
      (items tracked.readings).countP (·.kind = kind) := by
  have hread := h.covers.count
  have hposition := h.covers.position_le
  have hkind : (items tracked.readings).countP (·.kind = kind) ≤
      (items tracked.readings).length := List.countP_le_length
  have hword : (items tracked.readings).countP (·.kind = kind) < 2 ^ 64 := by
    omega
  rw [h.counted]
  exact UInt64.toNat_ofNat_of_lt' hword

end Tallied

/-- Let a new control plane be tracked from the beginning, while it is driven by any operations, its
table by any calls besides, and the tracker reads at any pace.  Whenever the tracker has nothing left
to read, be it that nothing was sent so far, the gauge of routes tells how many are stored, whether
events were lost or not.  The counters of events add up to all events that were sent, less those that
were reported lost.  If none was lost, the routes stored are as many as were counted when created,
less those counted when deleted.  Gauges and counters are words of 64 bits, so they are these numbers
themselves as long as these fit. -/
theorem tracker_converges (id address : String) (steps : List TrackingStep) :
    let tracked := (begin id address).run steps
    let plane := tracked.plane
    let metrics := plane.metrics
    let events := (RouteTable.run {} tracked.calls).2
    let size := plane.routes.table.size
    let read := events.length - lost tracked.readings
    (hdone : tracked.next = .upToDate) →
    (plane.routes = LiveTable.run {} tracked.calls ∧ plane.routes.feed.Carries events) ∧
    (metrics.routes = Int64.ofNat size ∧
      (size < 2 ^ 63 → metrics.routes.toInt = size)) ∧
    (lost tracked.readings ≤ events.length ∧
      metrics.created + metrics.updated + metrics.deleted = UInt64.ofNat read ∧
      (events.length < 2 ^ 64 →
        metrics.created.toNat + metrics.updated.toNat + metrics.deleted.toNat = read)) ∧
    ((∀ missed, .lagged missed ∉ tracked.readings) →
      metrics.created - metrics.deleted = UInt64.ofNat size ∧
      (events.length < 2 ^ 64 → metrics.created.toNat = size + metrics.deleted.toNat)) := by
  intro tracked plane metrics events size read hdone
  have h : tracked.Tallied := (tallied_begin id address).run steps
  have hcarries : plane.routes.feed.Carries events := carries_events h.routes
  have hend : tracked.tracker.position = events.length :=
    hcarries.position_of_upToDate h.covers.position_le hdone
  have hgauge : metrics.routes = Int64.ofNat size := h.gauge hend
  have hcovers : Reading.Covers tracked.readings ([] ++ events) ([] : List TableEvent).length
      ([] ++ events).length := hend ▸ h.covers
  have hlength := hcovers.length_items_add_lost
  have hread : (items tracked.readings).length = read := Nat.eq_sub_of_add_eq hlength
  refine ⟨⟨h.routes, hcarries⟩, ⟨hgauge, fun hsize ↦ ?_⟩, ⟨?_, ?_, fun hfew ↦ ?_⟩, fun hnone ↦ ?_⟩
  · exact (congrArg Int64.toInt hgauge).trans (Int64.toInt_ofNat_of_lt hsize)
  · exact hlength ▸ Nat.le_add_left _ _
  · exact h.sum_counters.trans (congrArg UInt64.ofNat hread)
  · have hcreated := h.toNat_counted hfew .create
    have hupdated := h.toNat_counted hfew .update
    have hdeleted := h.toNat_counted hfew .delete
    have hkinds := TableEvent.countP_kinds (items tracked.readings)
    rw [← hcreated, ← hupdated, ← hdeleted, hread] at hkinds
    exact hkinds
  · have hitems : items tracked.readings = events := hcovers.items_eq hnone
    have hsize : size + events.countP (·.kind = .delete) = events.countP (·.kind = .create) :=
      size_eq h.routes
    rw [← hitems] at hsize
    constructor
    · have hcreated := h.counted .create
      have hdeleted := h.counted .delete
      rw [← hsize, UInt64.ofNat_add, ← hdeleted] at hcreated
      exact UInt64.sub_eq_iff_eq_add.2 hcreated
    · intro hfew
      have hcreated := h.toNat_counted hfew .create
      have hdeleted := h.toNat_counted hfew .delete
      rw [← hsize, ← hdeleted] at hcreated
      exact hcreated

/-- A router announces the comings and goings of a route, as many as the feed can keep, someone else
stores another route, and only then the tracker reads. -/
def burst : List TrackingStep :=
  let route : Route := { service := "s", router := "r" }
  let flicker := (List.replicate 128 [TableEvent.mk .create route, .mk .delete route]).flatten
  [.access (.operation (.register "r" "" ∅ 1)), .access (.operation (.advert ⟨"r", flicker⟩)),
    .access (.direct (.create { service := "t" }))] ++ List.replicate 257 .track

theorem tracker_converges_after_burst :
    let tracked := (begin "a" "").run burst
    let metrics := tracked.plane.metrics
    lost tracked.readings = 1 ∧ metrics.routes = Int64.ofNat 1 ∧
      metrics.created + metrics.updated + metrics.deleted = UInt64.ofNat (257 - 1) := by
  have hrun : ((begin "a" "").run burst).next = .upToDate ∧
      lost ((begin "a" "").run burst).readings = 1 ∧
      ((begin "a" "").run burst).plane.routes.table.size = 1 ∧
      ((begin "a" "").run burst).plane.routes.feed.sent = 257 := by
    decide +kernel
  obtain ⟨hdone, hlost, hsize, hsent⟩ := hrun
  obtain ⟨⟨-, hcarries⟩, ⟨hroutes, -⟩, ⟨-, hsum, -⟩, -⟩ := tracker_converges "a" "" burst hdone
  rw [hsize] at hroutes
  rw [← hcarries.1, hsent, hlost] at hsum
  exact ⟨hlost, hroutes, hsum⟩

end Tracking

end ServiceMesh

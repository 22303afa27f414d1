import Mathlib.Data.List.Infix
import ServiceMesh.Proofs.Feed
import ServiceMesh.Proofs.Table.Replay

/-!
# Replicas of a live table

A replica starts from the routes of a table and is kept up to date by the events that a reader of
the table's feed receives.  As long as the reader loses none of them, the replica becomes the same
table, and its own feed is sent the same events.
-/

namespace ServiceMesh.LiveTable

theorem carries_publish {live : LiveTable} {sent : List TableEvent} (h : live.feed.Carries sent)
    (change : RouteTable × List TableEvent) :
    (live.publish change).feed.Carries (sent ++ change.2) :=
  h.sendAll change.2

/-- The feed of a new table has been sent the events of its calls, in their order. -/
theorem carries_run (calls : List TableCall) :
    (run {} calls).feed.Carries (RouteTable.run {} calls).2 := by
  have hnew : ({} : LiveTable).feed.Carries [] := Feed.carries_new
  rw [run_eq_publish]
  exact carries_publish hnew _

theorem Reachable.carries {live : LiveTable} (h : live.Reachable) :
    ∃ sent, live.feed.Carries sent := by
  obtain ⟨calls, rfl⟩ := h
  exact ⟨_, carries_run calls⟩

/-- Named routes are all stored. -/
theorem createAll_eq {live : LiveTable} (h : live.table.WellFormed) {routes : List Route}
    (hnamed : ∀ route ∈ routes, route.service ≠ "") :
    live.createAll routes = (live.run (routes.map .create), none) := by
  induction routes generalizing live with
  | nil => rfl
  | cons route routes ih =>
    have hfirst : route.service ≠ "" := hnamed route List.mem_cons_self
    have hnext : (live.call (.create route)).table.WellFormed := by
      rw [call_eq_publish]
      exact h.call (.create route)
    have hrest := ih hnext fun other hmem ↦ hnamed other (List.mem_cons_of_mem _ hmem)
    simp only [createAll, create_eq h, if_neg hfirst, hrest]
    rfl

/-- A new table with the routes of another, as far as they can be stored. -/
def snapshot (table : RouteTable) : LiveTable × Option MeshError :=
  createAll {} (table.query {})

/-- A copy of all routes, service by service, has the same buckets. -/
theorem snapshot_eq {table : RouteTable} (h : table.WellFormed) :
    (snapshot table).2 = none ∧ (snapshot table).1.table = table := by
  have hnamed : ∀ route ∈ table.routes, route.service ≠ "" := fun route ↦ h.service_ne_empty
  rw [snapshot, RouteTable.query_all, createAll_eq RouteTable.wellFormed_empty hnamed]
  refine ⟨rfl, ?_⟩
  rw [table_run]
  exact h.run_routes

def follow (replica : LiveTable) (events : List TableEvent) : LiveTable :=
  replica.run (events.map TableEvent.call)

/-- A replica that has got all events of a history since its snapshot. -/
theorem follow_eq {replica live : LiveTable} (h : live.table.WellFormed)
    (htable : replica.table = live.table) (calls : List TableCall) :
    replica.follow (live.table.run calls).2 = replica.publish (live.table.run calls) := by
  rw [follow, run_eq_publish, htable, h.replay_run]

/-- Let a reader begin when the routes of a table are copied, and let it be within the reach of the
feed all the time and read to the end.  Then the copy takes all events that it has received, becomes
the same table, and announces the events that the table announced. -/
theorem replica_eq (before after : List TableCall) (steps : List (WatchStep TableEvent)) :
    let live := run {} before
    let last := live.run after
    let watch := Watch.start live.feed
    let events := (live.table.run after).2
    let replica := (snapshot live.table).1
    (hsent : WatchStep.sent steps = events) →
    (hnear : ∀ first, first <+: steps → (watch.run first).behind ≤ feedCapacity) →
    (hdone : (watch.run steps).behind = 0) →
    let received := (watch.run steps).received
    (watch.run steps).feed = last.feed ∧
    (snapshot live.table).2 = none ∧
    replica.table.run (received.map TableEvent.call) = (last.table, events) ∧
    replica.follow received = replica.publish (last.table, events) ∧
    ∀ query, (replica.follow received).table.query query = last.table.query query := by
  intro live last watch events replica hsent hnear hdone received
  have hreachable : live.Reachable := ⟨before, rfl⟩
  have hwell : live.table.WellFormed := hreachable.wellFormed
  obtain ⟨sent, hcarries⟩ := hreachable.carries
  obtain ⟨hnone, htable⟩ := snapshot_eq hwell
  have hreceived : received = events := (Watch.received_eq_sent hcarries hnear hdone).trans hsent
  have hlast : last = live.publish (live.table.run after) := run_eq_publish live after
  have hchange : (last.table, events) = live.table.run after := by
    rw [hlast]
    rfl
  have hfollow : replica.follow events = replica.publish (live.table.run after) :=
    follow_eq hwell htable after
  rw [hreceived, hfollow, hchange]
  refine ⟨?_, hnone, ?_, rfl, fun query ↦ ?_⟩
  · rw [Watch.run_feed, hsent, hlast]
    rfl
  · rw [htable]
    exact hwell.replay_run after
  · rw [hlast]
    rfl

/-- Two routes that are withdrawn at once, and a reader that meets their events one by one. -/
def bulkSteps : List (WatchStep TableEvent) :=
  [.send ⟨.delete, { service := "s", router := "r" }⟩, .read,
    .send ⟨.delete, { service := "t", router := "r" }⟩, .read]

theorem replica_eq_bulkSteps :
    let before : List TableCall :=
      [.create { service := "s", router := "r" }, .create { service := "t", router := "r" },
        .create { service := "t", router := "q" }]
    let live := run {} before
    let watch := (Watch.start live.feed).run bulkSteps
    ((snapshot live.table).1.follow watch.received).table.query {} =
      [{ service := "t", router := "q" }] := by
  intro before live watch
  have hnear : ∀ first, first <+: bulkSteps →
      ((Watch.start live.feed).run first).behind ≤ feedCapacity := by
    intro first hprefix
    have hall : ∀ first ∈ bulkSteps.inits,
        ((Watch.start live.feed).run first).behind ≤ feedCapacity := by
      decide +kernel
    exact hall first ((List.mem_inits first bulkSteps).2 hprefix)
  obtain ⟨_, _, _, _, hquery⟩ := replica_eq before [.create { service := "t", router := "q" },
    .create {}, .deleteByRouter "r"] bulkSteps (by decide +kernel) hnear (by decide +kernel)
  rw [hquery]
  decide +kernel

end ServiceMesh.LiveTable

import ServiceMesh.Proofs.Losses
import ServiceMesh.Proofs.Replica
import ServiceMesh.Proofs.Table.Lives

/-!
# Readers of a live table that lose events

A reader that has lost events of a table cannot know all of its routes.  But whatever it reads after
its last loss it reads to the end; so if it hears of a key again, then the last it hears of the key
is what the table holds there.
-/

namespace ServiceMesh

/-- What comes after the last event of a key says nothing of the key. -/
theorem RouteTable.WellFormed.stored?_run_of_suffix {table : RouteTable} (h : table.WellFormed)
    {calls : List TableCall} {told : TableEvent} {later : List TableEvent}
    (hsuffix : told :: later <:+ (table.run calls).2)
    (hlater : ∀ event ∈ later, event.route.key ≠ told.route.key) :
    (table.run calls).1.stored? told.route.key = told.leaves := by
  obtain ⟨before, hevents⟩ := hsuffix
  have hlife := h.life_run calls told.route.key
  have hnone : later.filter (·.route.key = told.route.key) = [] := by
    simpa only [List.filter_eq_nil_iff, decide_eq_true_eq] using hlater
  rw [← hevents, List.filter_append, List.filter_cons_of_pos (by simp), hnone] at hlife
  exact hlife.eq_of_concat

namespace LiveTable

open Reading (items lost)

/-- Let a reader begin at any time and read at any pace, between any events of a table, until it has
read all there is.  The events that it has read and those that were reported lost are as many as were
sent since it began.  Let an event be among those that it has read, let no loss be reported to it
later, and no event of the same key be read later.  Then under this key the table now stores the
route that the event tells, or none if the event is a deletion. -/
theorem straggler_knows_last_word (before after : List TableCall)
    (steps : List (WatchStep TableEvent)) :
    let live := run {} before
    let last := live.run after
    let watch := Watch.start live.feed
    let events := (live.table.run after).2
    let readings := watch.readings steps
    (hsent : WatchStep.sent steps = events) →
    (hdone : (watch.run steps).behind = 0) →
    (watch.run steps).feed = last.feed ∧
    (items readings).length + lost readings = events.length ∧
    ∀ earlier told later, readings = earlier ++ .item told :: later →
      (∀ missed, .lagged missed ∉ later) →
      (∀ event, .item event ∈ later → event.route.key ≠ told.route.key) →
      ∀ route, route ∈ last.table.query {} ∧ route.key = told.route.key ↔
        told.kind ≠ .delete ∧ told.route = route := by
  intro live last watch events readings hsent hdone
  have hreachable : live.Reachable := ⟨before, rfl⟩
  have hwell : live.table.WellFormed := hreachable.wellFormed
  have hlast : last.table = (live.table.run after).1 := table_run live after
  obtain ⟨sent, hfeed⟩ := hreachable.carries
  have hposition : watch.position = sent.length := hfeed.1
  have hstart : watch.feed.Carries sent := hfeed
  obtain ⟨hcarries, hcovers⟩ := Watch.covers_run hstart (hposition ▸ Reading.covers_nil sent) steps
  have hend : (watch.run steps).position = (sent ++ events).length := by
    rw [hsent] at hcarries hcovers
    rw [Watch.behind, hcarries.1] at hdone
    exact Nat.le_antisymm hcovers.position_le (Nat.sub_eq_zero_iff_le.1 hdone)
  rw [hsent, hend, hposition, List.nil_append] at hcovers
  refine ⟨?_, hcovers.length_items_add_lost,
    fun earlier told later hreadings hnone hkeys route ↦ ?_⟩
  · rw [Watch.run_feed, hsent, show last = live.publish (live.table.run after) from
      run_eq_publish live after]
    rfl
  · have hsuffix : told :: items later <:+ events := by
      refine hcovers.items_suffix hreadings fun missed hmem ↦ ?_
      rcases List.mem_cons.1 hmem with heq | hlater
      · cases heq
      · exact hnone missed hlater
    have hstored := hwell.stored?_run_of_suffix hsuffix fun event hmem ↦
      hkeys event (Reading.mem_items_iff.1 hmem)
    have hwell' : last.table.WellFormed := hlast ▸ hwell.run after
    rw [RouteTable.query_all, ← hwell'.stored?_eq_some_iff, hlast, hstored]
    exact told.leaves_eq_some_iff

/-- A route that comes and goes many times, and stays in the end. -/
def flickering : List TableCall :=
  (List.replicate 129 [.create { service := "s" }, .delete { service := "s" }]).flatten ++
    [.create { service := "s", metric := 5 }]

def sleepySteps : List (WatchStep TableEvent) :=
  (RouteTable.run {} flickering).2.map .send ++ List.replicate 257 .read

/-- The sleeper has lost events of a route that came and went, and still ends with the route that
stays. -/
theorem straggler_knows_last_word_sleepy :
    let watch := Watch.start (run {} []).feed
    let table := ((run {} []).run flickering).table
    lost (watch.readings sleepySteps) = 3 ∧
      ∀ route, route ∈ table.query {} ∧ route.key = ⟨"s", "", "", "", ""⟩ ↔
        { service := "s", metric := 5 } = route := by
  intro watch table
  have hread : (watch.run sleepySteps).behind = 0 ∧ lost (watch.readings sleepySteps) = 3 ∧
      (watch.readings sleepySteps).getLast? =
        some (.item ⟨.create, { service := "s", metric := 5 }⟩) := by
    decide +kernel
  obtain ⟨hdone, hlost, hlast⟩ := hread
  obtain ⟨earlier, hearlier⟩ := List.getLast?_eq_some_iff.1 hlast
  obtain ⟨-, -, hword⟩ := straggler_knows_last_word [] flickering sleepySteps
    (WatchStep.sent_then_read _ _) hdone
  refine ⟨hlost, fun route ↦ (hword earlier _ [] hearlier ?_ ?_ route).trans (and_iff_right ?_)⟩
  · exact fun _ ↦ List.not_mem_nil
  · exact fun _ hmem ↦ absurd hmem List.not_mem_nil
  · decide

end LiveTable

end ServiceMesh

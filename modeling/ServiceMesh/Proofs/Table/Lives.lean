import Mathlib.Data.List.Induction
import ServiceMesh.Proofs.Table.Query
import ServiceMesh.Proofs.Table.Restrict

/-!
# The lives of a key

Under a key a route is stored, replaced any number of times, and withdrawn; then the next life of the
key may begin.  The events of the key tell just this.  An update tells another route than the event
before it, a withdrawal tells the same one, and what the last event leaves is what is stored.

An event that is applied leaves its own route under its key, or none if it deletes, whatever was
there before.  So after any events that can be applied, the last one about a key has told what is
stored under it, and a key that none of them is about is as it was.
-/

namespace ServiceMesh

namespace RouteTable

def stored? (table : RouteTable) (key : RouteKey) : Option Route :=
  table.routes.find? (·.key = key)

theorem stored?_eq_head? (table : RouteTable) (key : RouteKey) :
    table.stored? key = (table.restrict fun other ↦ other = key).routes.head? := by
  rw [routes_restrict, List.head?_filter]
  rfl

namespace WellFormed

variable {table : RouteTable}

/-- A route is stored under its own key only, and no other route is. -/
theorem stored?_eq_some_iff (h : table.WellFormed) {key : RouteKey} {route : Route} :
    table.stored? key = some route ↔ route ∈ table.routes ∧ route.key = key := by
  have hfilter := filter_key h.distinctKeys_routes key
  rw [stored?, ← Option.mem_toList, ← hfilter, List.mem_filter, decide_eq_true_iff]

theorem stored?_key (h : table.WellFormed) (route : Route) :
    table.stored? route.key = table.held? route := by
  apply Option.ext
  intro held
  rw [h.stored?_eq_some_iff, h.held?_eq_some_iff]

/-- Storing changes what is under one key. -/
theorem stored?_store (h : table.WellFormed) {route : Route} (hnamed : route.service ≠ "")
    (key : RouteKey) :
    (table.store route).stored? key =
      if key = route.key then some route else table.stored? key := by
  split
  · next hkey =>
    have hbucket : route ∈ (table.store route).bucket route.service := by
      rw [bucket_store, if_pos rfl]
      exact mem_place_self _ _
    exact (h.store hnamed).stored?_eq_some_iff.2 ⟨mem_routes_of_mem_bucket hbucket, hkey.symm⟩
  · next hkey =>
    rw [stored?_eq_head?, stored?_eq_head?,
      h.restrict_store_of_neg hnamed (decide_eq_false (Ne.symm hkey))]

theorem stored?_withdraw (h : table.WellFormed) (route : Route) (key : RouteKey) :
    (table.withdraw route).stored? key =
      if key = route.key then none else table.stored? key := by
  split
  · next hkey =>
    rw [stored?, List.find?_eq_none]
    intro held hmem hheld
    have hsame : held.key = route.key := (of_decide_eq_true hheld).trans hkey
    have hservice : held.service = route.service := congrArg RouteKey.service hsame
    have hbucket := (h.withdraw route).mem_bucket_service hmem
    rw [bucket_withdraw, if_pos hservice] at hbucket
    exact of_decide_eq_true (List.mem_filter.1 hbucket).2 hsame
  · next hkey =>
    rw [stored?_eq_head?, stored?_eq_head?,
      h.restrict_withdraw_of_neg (decide_eq_false (Ne.symm hkey))]

/-- All routes are those of other keys and the one of the key. -/
theorem size_eq_add (h : table.WellFormed) (key : RouteKey) :
    table.size = (table.restrict fun other ↦ other ≠ key).size +
      (table.stored? key).toList.length := by
  rw [stored?, ← filter_key h.distinctKeys_routes, size_eq_length, size_eq_length, routes_restrict,
    Nat.add_comm, List.length_eq_length_filter_add fun route ↦ decide (route.key = key)]
  simp only [decide_not]

/-- A table grows by one, unless the route takes the place of another. -/
theorem size_store (h : table.WellFormed) {route : Route} (hnamed : route.service ≠ "") :
    (table.store route).size + (table.held? route).toList.length = table.size + 1 := by
  have hrest : (table.store route).restrict (fun other ↦ other ≠ route.key) =
      table.restrict fun other ↦ other ≠ route.key :=
    h.restrict_store_of_neg hnamed (by simp)
  rw [(h.store hnamed).size_eq_add route.key, h.size_eq_add route.key, hrest,
    h.stored?_store hnamed, if_pos rfl, h.stored?_key, Option.toList_some, List.length_singleton]
  omega

theorem size_withdraw (h : table.WellFormed) (route : Route) :
    (table.withdraw route).size + (table.held? route).toList.length = table.size := by
  have hrest : (table.withdraw route).restrict (fun other ↦ other ≠ route.key) =
      table.restrict fun other ↦ other ≠ route.key :=
    h.restrict_withdraw_of_neg (by simp)
  rw [(h.withdraw route).size_eq_add route.key, h.size_eq_add route.key, hrest,
    h.stored?_withdraw, if_pos rfl, h.stored?_key, Option.toList_none, List.length_nil]
  omega

/-- What holds of each route that is stored and of each one that is withdrawn holds of a history, if
it may be put together.  To invalidate a router is to withdraw its routes one by one. -/
theorem run_induction {motive : RouteTable → List TableEvent → RouteTable → Prop}
    (stay : ∀ table, motive table [] table)
    (store : ∀ table : RouteTable, table.WellFormed → ∀ route : Route, route.service ≠ "" →
      motive table (storeEvents route (table.held? route)) (table.store route))
    (withdraw : ∀ table : RouteTable, table.WellFormed → ∀ route,
      motive table (withdrawEvents (table.held? route)) (table.withdraw route))
    (append : ∀ first events between more last, motive first events between →
      motive between more last → motive first (events ++ more) last)
    (h : table.WellFormed) (calls : List TableCall) :
    motive table (table.run calls).2 (table.run calls).1 := by
  have hdeletes (routes : List Route) {table : RouteTable} (h : table.WellFormed) :
      motive table (table.run (routes.map .delete)).2 (table.run (routes.map .delete)).1 := by
    induction routes generalizing table with
    | nil => exact stay table
    | cons route routes ih =>
      rw [List.map_cons, run_cons, h.call_delete]
      exact append _ _ _ _ _ (withdraw table h route) (ih (h.withdraw route))
  have hcall {table : RouteTable} (h : table.WellFormed) (call : TableCall) :
      motive table (table.call call).2 (table.call call).1 := by
    cases call with
    | create route =>
      by_cases hnamed : route.service = ""
      · rw [call_create_of_unnamed table hnamed]
        exact stay table
      · rw [h.call_create hnamed]
        exact store table h route hnamed
    | delete route =>
      rw [h.call_delete]
      exact withdraw table h route
    | deleteByRouter router =>
      have hrun := hdeletes (table.routesOf router) h
      rwa [h.run_routesOf] at hrun
  induction calls generalizing table with
  | nil => exact stay table
  | cons call calls ih => exact append _ _ _ _ _ (hcall h call) (ih (h.call call))

/-- Every event that creates a route adds one, and every one that deletes a route takes one away. -/
theorem size_run (h : table.WellFormed) (calls : List TableCall) :
    (table.run calls).1.size + (table.run calls).2.countP (·.kind = .delete) =
      table.size + (table.run calls).2.countP (·.kind = .create) := by
  refine run_induction (motive := fun first events last ↦
    last.size + events.countP (·.kind = .delete) = first.size + events.countP (·.kind = .create))
    (fun table ↦ rfl) (fun table h route hnamed ↦ ?_) (fun table h route ↦ ?_)
    (fun first events between more last hfirst hlast ↦ ?_) h calls
  · have hsize := h.size_store hnamed
    cases hheld : table.held? route with
    | none => simpa [storeEvents, hheld] using hsize
    | some held =>
      by_cases hsame : held = route
      · simpa [storeEvents, hheld, hsame] using hsize
      · simpa [storeEvents, hheld, hsame] using hsize
  · have hsize := h.size_withdraw route
    cases hheld : table.held? route with
    | none => simpa [withdrawEvents, hheld] using hsize
    | some held => simpa [withdrawEvents, hheld] using hsize
  · rw [List.countP_append, List.countP_append]
    omega

end WellFormed

end RouteTable

/-- The events of a key, between the route that is stored under it before them and the one that is
stored after them. -/
inductive Life : Option Route → List TableEvent → Option Route → Prop
  | stay (held : Option Route) : Life held [] held
  | create (route : Route) {later : List TableEvent} {last : Option Route}
      (h : Life (some route) later last) : Life none (⟨.create, route⟩ :: later) last
  | update {held route : Route} (hnew : route ≠ held) {later : List TableEvent}
      {last : Option Route} (h : Life (some route) later last) :
      Life (some held) (⟨.update, route⟩ :: later) last
  | delete (held : Route) {later : List TableEvent} {last : Option Route}
      (h : Life none later last) : Life (some held) (⟨.delete, held⟩ :: later) last

/-- The kinds of the events of some lives, with so many updates in each. -/
def lifeKinds (updates : List ℕ) : List EventKind :=
  updates.flatMap fun count ↦ .create :: (List.replicate count .update ++ [.delete])

namespace Life

variable {first between last : Option Route} {events more : List TableEvent}

/-- One part of a life may be told after another. -/
theorem append (h : Life first events between) (h' : Life between more last) :
    Life first (events ++ more) last := by
  induction h with
  | stay held => exact h'
  | create route _ ih => exact .create route (ih h')
  | update hnew _ ih => exact .update hnew (ih h')
  | delete held _ ih => exact .delete held (ih h')

/-- At any point of a life something is stored, or nothing is. -/
theorem exists_of_append (h : Life first (events ++ more) last) :
    ∃ between, Life first events between ∧ Life between more last := by
  induction events generalizing first with
  | nil => exact ⟨first, .stay first, h⟩
  | cons event events ih =>
    cases h with
    | create route h =>
      obtain ⟨between, hfirst, hlast⟩ := ih h
      exact ⟨between, .create route hfirst, hlast⟩
    | update hnew h =>
      obtain ⟨between, hfirst, hlast⟩ := ih h
      exact ⟨between, .update hnew hfirst, hlast⟩
    | delete held h =>
      obtain ⟨between, hfirst, hlast⟩ := ih h
      exact ⟨between, .delete held hfirst, hlast⟩

/-- Before the last event nothing is known of it, and after it only what it tells. -/
theorem eq_of_concat {event : TableEvent} (h : Life first (events ++ [event]) last) :
    last = if event.kind = .delete then none else some event.route := by
  obtain ⟨between, -, hlast⟩ := h.exists_of_append
  cases hlast with
  | create route h => cases h; rfl
  | update hnew h => cases h; rfl
  | delete held h => cases h; rfl

/-- After a key had no route, the last event tells whether it has one now, and which. -/
theorem last_eq_some_iff (h : Life none events last) {route : Route} :
    last = some route ↔
      ∃ event, events.getLast? = some event ∧ event.kind ≠ .delete ∧ event.route = route := by
  rcases List.eq_nil_or_concat events with rfl | ⟨before, event, rfl⟩
  · cases h
    simp
  · rw [List.concat_eq_append] at h
    rw [h.eq_of_concat]
    simp [ite_eq_iff]

/-- What has begun goes on with updates until the route is deleted, and then begins anew. -/
theorem kinds_prefix (h : Life first events last) :
    (first = none → ∃ updates, events.map TableEvent.kind <+: lifeKinds updates) ∧
    (first ≠ none → ∃ count updates, events.map TableEvent.kind <+:
      List.replicate count .update ++ .delete :: lifeKinds updates) := by
  induction h with
  | stay held => exact ⟨fun _ ↦ ⟨[], List.nil_prefix⟩, fun _ ↦ ⟨0, [], List.nil_prefix⟩⟩
  | create route _ ih =>
    obtain ⟨count, updates, hkinds⟩ := ih.2 (by simp)
    refine ⟨fun _ ↦ ⟨count :: updates, ?_⟩, fun hne ↦ absurd rfl hne⟩
    have hlives : lifeKinds (count :: updates) =
        .create :: (List.replicate count .update ++ .delete :: lifeKinds updates) := by
      simp [lifeKinds]
    rw [hlives]
    exact List.cons_prefix_cons.2 ⟨rfl, hkinds⟩
  | update _ _ ih =>
    obtain ⟨count, updates, hkinds⟩ := ih.2 (by simp)
    refine ⟨fun heq ↦ (Option.some_ne_none _ heq).elim, fun _ ↦ ⟨count + 1, updates, ?_⟩⟩
    exact List.cons_prefix_cons.2 ⟨rfl, hkinds⟩
  | delete held _ ih =>
    obtain ⟨updates, hkinds⟩ := ih.1 rfl
    refine ⟨fun heq ↦ (Option.some_ne_none _ heq).elim, fun _ ↦ ⟨0, updates, ?_⟩⟩
    exact List.cons_prefix_cons.2 ⟨rfl, hkinds⟩

/-- An event that comes after others tells another route than the last of them if it is an update,
and the same one if it deletes. -/
theorem follows_last {event : TableEvent} (h : Life none (events ++ event :: more) last) :
    (event.kind = .update →
      ∃ prior, events.getLast? = some prior ∧ event.route ≠ prior.route) ∧
    (event.kind = .delete →
      ∃ prior, events.getLast? = some prior ∧ event.route = prior.route) := by
  obtain ⟨between, hbefore, hafter⟩ := h.exists_of_append
  cases hafter with
  | create route _ => exact ⟨fun hkind ↦ (nomatch hkind), fun hkind ↦ (nomatch hkind)⟩
  | update hnew _ =>
    obtain ⟨prior, hprior, -, rfl⟩ := hbefore.last_eq_some_iff.1 rfl
    exact ⟨fun _ ↦ ⟨prior, hprior, hnew⟩, fun hkind ↦ (nomatch hkind)⟩
  | delete held _ =>
    obtain ⟨prior, hprior, -, rfl⟩ := hbefore.last_eq_some_iff.1 rfl
    exact ⟨fun hkind ↦ (nomatch hkind), fun _ ↦ ⟨prior, hprior, rfl⟩⟩

end Life

namespace RouteTable.WellFormed

variable {table : RouteTable}

/-- What storing a route announces is the next step in the life of its key, and no step in that of
any other. -/
theorem life_store (h : table.WellFormed) {route : Route} (hnamed : route.service ≠ "")
    (key : RouteKey) :
    Life (table.stored? key)
      ((storeEvents route (table.held? route)).filter (·.route.key = key))
      ((table.store route).stored? key) := by
  rw [h.stored?_store hnamed]
  by_cases hkey : key = route.key
  · rw [if_pos hkey, hkey, h.stored?_key]
    cases table.held? route with
    | none => simpa [storeEvents] using Life.create route (.stay (some route))
    | some held =>
      by_cases hsame : held = route
      · simpa [storeEvents, hsame] using Life.stay (some route)
      · simpa [storeEvents, hsame] using Life.update (Ne.symm hsame) (.stay (some route))
  · have hnone : (storeEvents route (table.held? route)).filter (·.route.key = key) = [] := by
      unfold storeEvents
      split
      · simp [Ne.symm hkey]
      · split
        · rfl
        · simp [Ne.symm hkey]
    rw [if_neg hkey, hnone]
    exact .stay _

theorem life_withdraw (h : table.WellFormed) (route : Route) (key : RouteKey) :
    Life (table.stored? key)
      ((withdrawEvents (table.held? route)).filter (·.route.key = key))
      ((table.withdraw route).stored? key) := by
  rw [h.stored?_withdraw]
  cases hheld : table.held? route with
  | none =>
    by_cases hkey : key = route.key
    · rw [if_pos hkey, hkey, h.stored?_key, hheld]
      exact .stay none
    · rw [if_neg hkey]
      exact .stay _
  | some held =>
    obtain ⟨-, hsame⟩ := h.held?_eq_some_iff.1 hheld
    by_cases hkey : key = route.key
    · rw [if_pos hkey, hkey, h.stored?_key, hheld]
      simpa [withdrawEvents, hsame] using Life.delete held (.stay none)
    · rw [if_neg hkey]
      simpa [withdrawEvents, hsame, Ne.symm hkey] using Life.stay (table.stored? key)

/-- The events of a key in a history tell what becomes of the route that was stored under it. -/
theorem life_run (h : table.WellFormed) (calls : List TableCall) (key : RouteKey) :
    Life (table.stored? key) ((table.run calls).2.filter (·.route.key = key))
      ((table.run calls).1.stored? key) := by
  refine run_induction (motive := fun first events last ↦
    Life (first.stored? key) (events.filter (·.route.key = key)) (last.stored? key))
    (fun table ↦ .stay _) (fun table h route hnamed ↦ h.life_store hnamed key)
    (fun table h route ↦ h.life_withdraw route key)
    (fun first events between more last hfirst hlast ↦ ?_) h calls
  rw [List.filter_append]
  exact hfirst.append hlast

end RouteTable.WellFormed

namespace TableEvent

/-- What an event leaves under its key. -/
def leaves (event : TableEvent) : Option Route :=
  if event.kind = .delete then none else some event.route

theorem leaves_eq_some_iff {event : TableEvent} {route : Route} :
    event.leaves = some route ↔ event.kind ≠ .delete ∧ event.route = route := by
  simp [leaves, ite_eq_iff]

def Storable (event : TableEvent) : Prop := event.kind ≠ .delete → event.route.service ≠ ""

/-- What the last event about a key leaves there. -/
def lastWord (events : List TableEvent) (key : RouteKey) : Option (Option Route) :=
  (events.filter (·.route.key = key)).getLast?.map leaves

/-- One more event has the last word on its own key, and on no other. -/
theorem lastWord_concat (events : List TableEvent) (event : TableEvent) (key : RouteKey) :
    lastWord (events ++ [event]) key =
      if key = event.route.key then some event.leaves else lastWord events key := by
  rw [lastWord, List.filter_append]
  split
  · next hkey =>
    rw [List.filter_cons_of_pos (by simpa using hkey.symm), List.filter_nil, List.getLast?_concat]
    rfl
  · next hkey =>
    rw [List.filter_cons_of_neg (by simpa using Ne.symm hkey), List.filter_nil, List.append_nil]
    rfl

end TableEvent

namespace RouteTable.WellFormed

variable {table : RouteTable}

/-- An event decides about its key, whatever was stored there. -/
theorem stored?_call (h : table.WellFormed) {event : TableEvent} (hstorable : event.Storable)
    (key : RouteKey) :
    (table.call event.call).1.stored? key =
      if key = event.route.key then event.leaves else table.stored? key := by
  obtain ⟨kind, route⟩ := event
  have hcreate (hkind : kind ≠ .delete) :
      (table.call (.create route)).1.stored? key =
        if key = route.key then some route else table.stored? key := by
    rw [h.call_create (hstorable hkind)]
    exact h.stored?_store (hstorable hkind) key
  cases kind with
  | create => exact hcreate (by decide)
  | update => exact hcreate (by decide)
  | delete =>
    rw [TableEvent.call, h.call_delete]
    exact h.stored?_withdraw route key

/-- A key that no event is about keeps what it had. -/
theorem stored?_run (h : table.WellFormed) {events : List TableEvent}
    (hstorable : ∀ event ∈ events, event.Storable) (key : RouteKey) :
    (table.run (events.map TableEvent.call)).1.stored? key =
      (TableEvent.lastWord events key).getD (table.stored? key) := by
  induction events using List.reverseRecOn with
  | nil => rfl
  | append_singleton events event ih =>
    have hbefore := ih fun other hmem ↦ hstorable other (List.mem_append_left _ hmem)
    have hlast := hstorable event (List.mem_append_right _ (List.mem_singleton_self event))
    have hwell := h.run (events.map TableEvent.call)
    rw [List.map_append, run_append, TableEvent.lastWord_concat]
    refine (hwell.stored?_call hlast key).trans ?_
    rw [hbefore]
    split <;> rfl

/-- Tables that store the same under every key list the same routes. -/
theorem routes_perm_of_stored? {table' : RouteTable} (h : table.WellFormed)
    (h' : table'.WellFormed) (hstored : ∀ key, table.stored? key = table'.stored? key) :
    table.routes.Perm table'.routes := by
  refine h.routes_perm h' fun route ↦ ?_
  have hroute := congrArg (· = some route) (hstored route.key)
  simpa [h.stored?_eq_some_iff, h'.stored?_eq_some_iff] using hroute

end RouteTable.WellFormed

end ServiceMesh

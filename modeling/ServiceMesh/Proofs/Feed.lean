import Mathlib.Data.List.Basic
import ServiceMesh.Feed

/-!
# Reading along with a feed

A feed that carries a list of items keeps the last of them.  A reader that is never further behind
than the feed remembers loses nothing: however its reads are mixed with what is sent, it has read
the items in the order of their sending, up to its position.
-/

namespace ServiceMesh

namespace Feed

variable {α : Type}

def Carries (feed : Feed α) (items : List α) : Prop :=
  feed.sent = items.length ∧ feed.kept = latest items

theorem length_latest (items : List α) : (latest items).length = min items.length feedCapacity := by
  rw [latest, List.length_drop]
  omega

/-- What a feed has forgotten makes no difference to what it keeps later. -/
theorem latest_latest_append (items more : List α) :
    latest (latest items ++ more) = latest (items ++ more) := by
  have hdrop : latest items ++ more = (items ++ more).drop (items.length - feedCapacity) := by
    rw [latest, List.drop_append_of_le_length (Nat.sub_le _ _)]
  have hlength : (latest items ++ more).length = min items.length feedCapacity + more.length := by
    rw [List.length_append, length_latest]
  have hcount : items.length - feedCapacity +
      (min items.length feedCapacity + more.length - feedCapacity) =
        items.length + more.length - feedCapacity := by
    omega
  rw [latest, hlength, hdrop, List.drop_drop, hcount, latest, List.length_append]

theorem carries_new : ({} : Feed α).Carries [] := ⟨rfl, by rw [latest, List.drop_nil]⟩

/-- A feed that is sent one more item carries it as the last one. -/
theorem Carries.send {feed : Feed α} {items : List α} (h : feed.Carries items) (item : α) :
    (feed.send item).Carries (items ++ [item]) := by
  obtain ⟨hsent, hkept⟩ := h
  refine ⟨?_, ?_⟩
  · rw [Feed.send, hsent, List.length_append]
    rfl
  · simp only [Feed.send, hkept, latest_latest_append]

theorem Carries.sendAll {feed : Feed α} {items : List α} (h : feed.Carries items)
    (more : List α) : (feed.sendAll more).Carries (items ++ more) := by
  induction more generalizing feed items with
  | nil => rwa [List.append_nil]
  | cons item more ih =>
    have hrest := ih (h.send item)
    rwa [List.append_assoc] at hrest

/-- A feed keeps as many items as it can. -/
theorem Carries.oldest_eq {feed : Feed α} {items : List α} (h : feed.Carries items) :
    feed.oldest = items.length - feedCapacity := by
  obtain ⟨hsent, hkept⟩ := h
  rw [oldest, hsent, hkept, length_latest]
  omega

/-- A reader within reach meets the item of its position, if it has been sent. -/
theorem Carries.read {feed : Feed α} {items : List α} (h : feed.Carries items) {position : ℕ}
    (hnear : items.length - position ≤ feedCapacity) :
    feed.read position =
      match items[position]? with
      | some item => (.item item, position + 1)
      | none => (if feed.ended then .ended else .upToDate, position) := by
  have hreach : ¬ position < feed.oldest := by
    rw [h.oldest_eq]
    omega
  have hitem : feed.kept[position - feed.oldest]? = items[position]? := by
    have hindex : items.length - feedCapacity + (position - (items.length - feedCapacity)) =
        position := by
      omega
    rw [h.2, h.oldest_eq, latest, List.getElem?_drop, hindex]
  cases hnext : items[position]? with
  | none => simp only [Feed.read, if_neg hreach, hitem, hnext]
  | some item => simp only [Feed.read, if_neg hreach, hitem, hnext]

end Feed

variable {α : Type}

structure Watch (α : Type) where
  feed : Feed α
  position : ℕ
  received : List α := []

/-- What may happen next: an item is sent, or the reader reads once. -/
inductive WatchStep (α : Type) where
  | send (item : α)
  | read

/-- The items sent in a list of steps. -/
def WatchStep.sent (steps : List (WatchStep α)) : List α :=
  steps.filterMap fun
    | .send item => some item
    | .read => none

namespace Watch

/-- The reader begins now. -/
def start (feed : Feed α) : Watch α := { feed, position := feed.position }

def step (watch : Watch α) : WatchStep α → Watch α
  | .send item => { watch with feed := watch.feed.send item }
  | .read =>
    match watch.feed.read watch.position with
    | (.item item, position) => { watch with position, received := watch.received ++ [item] }
    | (_, position) => { watch with position }

def run (watch : Watch α) (steps : List (WatchStep α)) : Watch α := steps.foldl step watch

/-- The number of items that the reader has still to read. -/
def behind (watch : Watch α) : ℕ := watch.feed.sent - watch.position

/-- The reader has read the items sent up to its position, but for those before it began. -/
structure Follows (watch : Watch α) (old items : List α) : Prop where
  carries : watch.feed.Carries items
  position_le : watch.position ≤ items.length
  received : items.take watch.position = old ++ watch.received

theorem follows_start {feed : Feed α} {old : List α} (h : feed.Carries old) :
    (start feed).Follows old old where
  carries := h
  position_le := Nat.le_of_eq h.1
  received := by
    have hposition : (start feed).position = old.length := h.1
    rw [hposition, List.take_length]
    exact (List.append_nil old).symm

/-- Items arrive in order, and a reader within reach takes the next one. -/
theorem Follows.step {watch : Watch α} {old items : List α} (h : watch.Follows old items)
    (hnear : watch.behind ≤ feedCapacity) (next : WatchStep α) :
    (watch.step next).Follows old (items ++ WatchStep.sent [next]) := by
  obtain ⟨hcarries, hposition, hreceived⟩ := h
  cases next with
  | send item =>
    refine ⟨hcarries.send item, ?_, ?_⟩
    · rw [List.length_append]
      exact Nat.le_add_right_of_le hposition
    · exact (List.take_append_of_le_length hposition).trans hreceived
  | read =>
    rw [behind, hcarries.1] at hnear
    have hread := hcarries.read hnear
    have hitems : items ++ WatchStep.sent [.read] = items := List.append_nil items
    rw [hitems, Watch.step, hread]
    cases hitem : items[watch.position]? with
    | none =>
      cases watch.feed.ended <;> exact ⟨hcarries, hposition, hreceived⟩
    | some item =>
      obtain ⟨hlt, rfl⟩ := List.getElem?_eq_some_iff.1 hitem
      refine ⟨hcarries, hlt, ?_⟩
      rw [List.take_succ_eq_append_getElem hlt, hreceived, List.append_assoc]

/-- A reader that stays within reach follows the feed through any steps. -/
theorem Follows.run {watch : Watch α} {old items : List α} (h : watch.Follows old items)
    {steps : List (WatchStep α)}
    (hnear : ∀ first, first <+: steps → (watch.run first).behind ≤ feedCapacity) :
    (watch.run steps).Follows old (items ++ WatchStep.sent steps) := by
  induction steps generalizing watch items with
  | nil =>
    rw [WatchStep.sent, List.filterMap_nil, List.append_nil]
    exact h
  | cons next steps ih =>
    have hstep := h.step (hnear [] List.nil_prefix) next
    have hrest := ih hstep fun first hprefix ↦
      hnear (next :: first) (List.cons_prefix_cons.2 ⟨rfl, hprefix⟩)
    rw [List.append_assoc, WatchStep.sent, WatchStep.sent, ← List.filterMap_append] at hrest
    exact hrest

theorem feed_step_read (watch : Watch α) : (watch.step .read).feed = watch.feed := by
  simp only [step]
  split <;> rfl

/-- Reading leaves no trace in the feed. -/
theorem run_feed (watch : Watch α) (steps : List (WatchStep α)) :
    (watch.run steps).feed = watch.feed.sendAll (WatchStep.sent steps) := by
  induction steps generalizing watch with
  | nil => rfl
  | cons next steps ih =>
    have hrun : (watch.run (next :: steps)).feed = ((watch.step next).run steps).feed := rfl
    rw [hrun, ih]
    cases next with
    | send item => rfl
    | read =>
      rw [feed_step_read]
      rfl

/-- A reader that was never too far behind, and has nothing left to read, has read all that was sent
since it began. -/
theorem received_eq_sent {feed : Feed α} {old : List α} (h : feed.Carries old)
    {steps : List (WatchStep α)}
    (hnear : ∀ first, first <+: steps → ((start feed).run first).behind ≤ feedCapacity)
    (hdone : ((start feed).run steps).behind = 0) :
    ((start feed).run steps).received = WatchStep.sent steps := by
  obtain ⟨hcarries, hposition, hreceived⟩ := (follows_start h).run hnear
  have hall : ((start feed).run steps).position = (old ++ WatchStep.sent steps).length := by
    rw [behind, hcarries.1] at hdone
    omega
  rw [hall, List.take_length] at hreceived
  exact (List.append_cancel_left hreceived).symm

end Watch

end ServiceMesh

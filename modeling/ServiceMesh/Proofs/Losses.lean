import Mathlib.Data.List.Infix
import ServiceMesh.Proofs.Feed

/-!
# Readers that lose items

A reader that falls too far behind is told how many items it has lost, and goes on with the oldest
one that is kept.  So the items that it has read and those that were reported lost are as many as
were sent up to its position, and the items that it has read since its last loss are the latest of
these, in a row.
-/

namespace ServiceMesh

variable {α : Type}

/-- A reader out of reach is told how many items it has lost, and goes on with the oldest one
kept. -/
theorem Feed.Carries.read_lagged {feed : Feed α} {items : List α} (h : feed.Carries items)
    {position : ℕ} (hfar : feedCapacity < items.length - position) :
    feed.read position =
      (.lagged (items.length - feedCapacity - position), items.length - feedCapacity) := by
  have hlost : position < feed.oldest := by
    rw [h.oldest_eq]
    omega
  rw [Feed.read, if_pos hlost, h.oldest_eq]

/-- A reader that finds nothing to read has come to the end. -/
theorem Feed.Carries.position_of_upToDate {feed : Feed α} {items : List α}
    (h : feed.Carries items) {position : ℕ} (hle : position ≤ items.length)
    (hread : (feed.read position).1 = .upToDate) : position = items.length := by
  by_cases hnear : items.length - position ≤ feedCapacity
  · rw [h.read hnear] at hread
    cases hitem : items[position]? with
    | none => exact Nat.le_antisymm hle (List.getElem?_eq_none_iff.1 hitem)
    | some item => simp [hitem] at hread
  · rw [h.read_lagged (Nat.lt_of_not_le hnear)] at hread
    cases hread

/-- A reader that meets neither an item nor a loss stays where it is. -/
theorem Feed.read_position_of_idle {feed : Feed α} {position : ℕ}
    (h : (feed.read position).1 = .upToDate ∨ (feed.read position).1 = .ended) :
    (feed.read position).2 = position := by
  revert h
  unfold Feed.read
  split
  · simp
  · split
    · simp
    · exact fun _ ↦ rfl

deriving instance DecidableEq for Reading

namespace Reading

def item? : Reading α → Option α
  | .item value => some value
  | .lagged _ | .upToDate | .ended => none

/-- The number of items that are reported lost. -/
def missed : Reading α → ℕ
  | .lagged missed => missed
  | .item _ | .upToDate | .ended => 0

def items (readings : List (Reading α)) : List α := readings.filterMap item?

def lost : List (Reading α) → ℕ
  | [] => 0
  | reading :: readings => reading.missed + lost readings

theorem items_append (earlier later : List (Reading α)) :
    items (earlier ++ later) = items earlier ++ items later :=
  List.filterMap_append

theorem items_singleton (reading : Reading α) : items [reading] = reading.item?.toList := by
  cases reading <;> rfl

theorem lost_append (earlier later : List (Reading α)) :
    lost (earlier ++ later) = lost earlier + lost later := by
  induction earlier with
  | nil => exact (Nat.zero_add _).symm
  | cons reading earlier ih => rw [List.cons_append, lost, lost, ih, Nat.add_assoc]

theorem mem_items_iff {readings : List (Reading α)} {item : α} :
    item ∈ items readings ↔ .item item ∈ readings := by
  rw [items, List.mem_filterMap]
  constructor
  · rintro ⟨reading, hmem, hitem⟩
    cases reading <;> cases hitem
    exact hmem
  · exact fun hmem ↦ ⟨_, hmem, rfl⟩

/-- Nothing is lost without being reported. -/
theorem lost_eq_zero {readings : List (Reading α)} (h : ∀ missed, .lagged missed ∉ readings) :
    lost readings = 0 := by
  induction readings with
  | nil => rfl
  | cons reading readings ih =>
    rw [lost, ih fun missed hmem ↦ h missed (List.mem_cons_of_mem _ hmem), Nat.add_zero]
    cases reading with
    | lagged missed => exact absurd List.mem_cons_self (h missed)
    | item _ => rfl
    | upToDate => rfl
    | ended => rfl

/-- What a reader has met on its way from one position to another, of a feed that was sent some
items: those that it has read or lost are the items in between, and if it has lost none for some
time, then what it has read in this time are the latest of them. -/
structure Covers (readings : List (Reading α)) (sent : List α) (start position : ℕ) : Prop where
  position_le : position ≤ sent.length
  count : start + (items readings).length + lost readings = position
  recent : ∀ earlier later, readings = earlier ++ later → (∀ missed, .lagged missed ∉ later) →
    items later <:+ sent.take position

theorem covers_nil (sent : List α) : Covers [] sent sent.length sent.length where
  position_le := Nat.le_refl _
  count := rfl
  recent earlier later h _ := by
    obtain ⟨-, rfl⟩ := List.append_eq_nil_iff.1 h.symm
    exact List.nil_suffix

namespace Covers

variable {readings : List (Reading α)} {sent : List α} {start position : ℕ}

/-- What is sent later changes nothing about what was met. -/
theorem send (h : Covers readings sent start position) (more : List α) :
    Covers readings (sent ++ more) start position where
  position_le := by
    rw [List.length_append]
    exact Nat.le_add_right_of_le h.position_le
  count := h.count
  recent earlier later hreadings hlater := by
    rw [List.take_append_of_le_length h.position_le]
    exact h.recent earlier later hreadings hlater

/-- A reading that is no loss adds its item, if it has one, to the latest that were read. -/
theorem concat (h : Covers readings sent start position) {reading : Reading α} {position' : ℕ}
    (hle : position' ≤ sent.length)
    (hcount : position + reading.item?.toList.length + reading.missed = position')
    (hrecent : (∀ missed, reading ≠ .lagged missed) →
      sent.take position' = sent.take position ++ reading.item?.toList) :
    Covers (readings ++ [reading]) sent start position' where
  position_le := hle
  count := by
    have hstart := h.count
    have hlost : lost [reading] = reading.missed := Nat.add_zero _
    rw [items_append, items_singleton, lost_append, List.length_append, hlost]
    omega
  recent earlier later hreadings hlater := by
    rcases List.eq_nil_or_concat later with rfl | ⟨before, last, rfl⟩
    · exact List.nil_suffix
    · rw [List.concat_eq_append, ← List.append_assoc] at hreadings
      obtain ⟨hbefore, hlast⟩ := List.append_inj' hreadings rfl
      obtain rfl := List.singleton_inj.1 hlast
      rw [List.concat_eq_append] at hlater ⊢
      have hnone : ∀ missed, reading ≠ .lagged missed := fun missed heq ↦
        hlater missed (List.mem_append_right _ (List.mem_singleton.2 heq.symm))
      have hearlier := h.recent earlier before hbefore fun missed hmem ↦
        hlater missed (List.mem_append_left _ hmem)
      rw [items_append, items_singleton, hrecent hnone]
      obtain ⟨skipped, hskipped⟩ := hearlier
      exact ⟨skipped, by rw [← List.append_assoc, hskipped]⟩

/-- One more read, be it of an item, of a loss, or of nothing. -/
theorem read (h : Covers readings sent start position) {feed : Feed α} (hfeed : feed.Carries sent) :
    Covers (readings ++ [(feed.read position).1]) sent start (feed.read position).2 := by
  by_cases hnear : sent.length - position ≤ feedCapacity
  · rw [hfeed.read hnear]
    cases hitem : sent[position]? with
    | none => cases feed.ended <;> exact h.concat h.position_le rfl fun _ ↦ (List.append_nil _).symm
    | some item =>
      obtain ⟨hlt, rfl⟩ := List.getElem?_eq_some_iff.1 hitem
      exact h.concat hlt rfl fun _ ↦ List.take_succ_eq_append_getElem hlt
  · rw [hfeed.read_lagged (Nat.lt_of_not_le hnear)]
    refine h.concat (Nat.sub_le _ _) ?_ fun hnone ↦ absurd rfl (hnone _)
    simp only [item?, missed, Option.toList_none, List.length_nil]
    omega

section Complete

variable {old new : List α} (h : Covers readings (old ++ new) old.length (old ++ new).length)

include h

/-- All that was sent was read or was reported lost. -/
theorem length_items_add_lost : (items readings).length + lost readings = new.length := by
  have hcount := h.count
  rw [List.length_append] at hcount
  omega

/-- What was read after the last loss is what was sent last. -/
theorem items_suffix {earlier later : List (Reading α)} (hreadings : readings = earlier ++ later)
    (hlater : ∀ missed, .lagged missed ∉ later) : items later <:+ new := by
  have hsent := h.recent earlier later hreadings hlater
  rw [List.take_length] at hsent
  have hlength := h.length_items_add_lost
  rw [hreadings, items_append, List.length_append] at hlength
  exact List.suffix_of_suffix_length_le hsent (List.suffix_append old new) (by omega)

/-- A reader without a loss has read all that was sent. -/
theorem items_eq (hnone : ∀ missed, .lagged missed ∉ readings) : items readings = new := by
  have hlength := h.length_items_add_lost
  rw [lost_eq_zero hnone, Nat.add_zero] at hlength
  exact (h.items_suffix (List.nil_append readings).symm hnone).eq_of_length hlength

end Complete

end Covers

end Reading

/-- The reader may read after all items were sent. -/
theorem WatchStep.sent_then_read (items : List α) (reads : ℕ) :
    sent (items.map .send ++ List.replicate reads .read) = items := by
  rw [sent, List.filterMap_append, List.filterMap_map, List.filterMap_replicate_of_none rfl,
    List.append_nil]
  exact List.filterMap_some

namespace Watch

/-- What the reader meets in a list of steps. -/
def readings (watch : Watch α) : List (WatchStep α) → List (Reading α)
  | [] => []
  | .send item :: steps => (watch.step (.send item)).readings steps
  | .read :: steps => (watch.feed.read watch.position).1 :: (watch.step .read).readings steps

theorem position_step_read (watch : Watch α) :
    (watch.step .read).position = (watch.feed.read watch.position).2 := by
  simp only [step]
  split
  · next hread => rw [hread]
  · next hread => rw [hread]

/-- However sending and reading are mixed, the readings cover what was sent up to the position of
the reader. -/
theorem covers_run {watch : Watch α} {met : List (Reading α)} {sent : List α} {start : ℕ}
    (hfeed : watch.feed.Carries sent) (h : Reading.Covers met sent start watch.position)
    (steps : List (WatchStep α)) :
    (watch.run steps).feed.Carries (sent ++ WatchStep.sent steps) ∧
      Reading.Covers (met ++ watch.readings steps) (sent ++ WatchStep.sent steps) start
        (watch.run steps).position := by
  induction steps generalizing watch met sent with
  | nil =>
    rw [readings, List.append_nil, WatchStep.sent, List.filterMap_nil, List.append_nil]
    exact ⟨hfeed, h⟩
  | cons next steps ih =>
    cases next with
    | send item =>
      have hnext : (watch.step (.send item)).feed.Carries (sent ++ [item]) := hfeed.send item
      have hrest := ih hnext (h.send [item])
      rwa [List.append_assoc] at hrest
    | read =>
      have hnext := h.read hfeed
      rw [← position_step_read] at hnext
      have hrest := ih (watch.feed_step_read ▸ hfeed) hnext
      rwa [List.append_assoc] at hrest

end Watch

end ServiceMesh

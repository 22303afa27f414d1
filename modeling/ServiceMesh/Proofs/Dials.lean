import Mathlib.Data.List.Nodup
import Mathlib.Data.List.InsertIdx
import Mathlib.Data.List.Perm.Basic
import ServiceMesh.Dialer

/-!
# An account of the dials

A dialer forgets what it has done.  A ledger beside it keeps all batches that were ever handed over,
knows each dial by its place in its batch, and keeps what each dial reported.  The dials that were
ever started are just the entries of the batches that were taken, each once; a dial either runs or
has reported once.
-/

open scoped List

namespace ServiceMesh

/-- An address at a place of a batch. -/
structure DialEntry where
  batch : ℕ
  place : ℕ
  address : String
  deriving DecidableEq

def DialEntry.ofBatch (batch : ℕ) (addresses : List String) : List DialEntry :=
  addresses.mapIdx fun place address ↦ ⟨batch, place, address⟩

namespace DialEntry

theorem getElem?_ofBatch (batch : ℕ) (addresses : List String) (place : ℕ) :
    (ofBatch batch addresses)[place]? =
      addresses[place]?.map fun address ↦ ⟨batch, place, address⟩ :=
  List.getElem?_mapIdx

/-- An entry knows its batch, and its address is the one at its place there. -/
theorem mem_ofBatch_iff {batch : ℕ} {addresses : List String} {entry : DialEntry} :
    entry ∈ ofBatch batch addresses ↔
      entry.batch = batch ∧ addresses[entry.place]? = some entry.address := by
  rw [List.mem_iff_getElem?]
  simp only [getElem?_ofBatch, Option.map_eq_some_iff]
  constructor
  · rintro ⟨place, address, haddress, rfl⟩
    exact ⟨rfl, haddress⟩
  · rintro ⟨rfl, haddress⟩
    exact ⟨entry.place, entry.address, haddress, rfl⟩

theorem map_address_ofBatch (batch : ℕ) (addresses : List String) :
    (ofBatch batch addresses).map address = addresses := by
  apply List.ext_getElem?
  intro place
  rw [List.getElem?_map, getElem?_ofBatch, Option.map_map]
  exact congrFun Option.map_id _

/-- Entries of one batch differ by their places, even where its addresses do not. -/
theorem nodup_ofBatch (batch : ℕ) (addresses : List String) : (ofBatch batch addresses).Nodup := by
  apply List.nodup_iff_getElem?_ne_getElem?.2
  intro first second hlt hlength heq
  have hsecond := List.getElem?_eq_getElem hlength
  rw [hsecond] at heq
  rw [getElem?_ofBatch, Option.map_eq_some_iff] at hsecond heq
  obtain ⟨_, _, hsecond⟩ := hsecond
  obtain ⟨_, _, hfirst⟩ := heq
  have hplace : first = second := congrArg place (hfirst.trans hsecond.symm)
  exact Nat.ne_of_lt hlt hplace

end DialEntry

structure DialLedger where
  /-- All batches handed over, the oldest first. -/
  handed : List (List String) := []
  /-- How many batches were taken. -/
  taken : ℕ := 0
  running : List DialEntry := []
  /-- All reports and the dials that they are of, the oldest first. -/
  reports : List (DialEntry × PeerEvent) := []
  /-- How many reports were followed. -/
  followed : ℕ := 0

namespace DialLedger

/-- The dials that were ever started. -/
def dialed (ledger : DialLedger) : List DialEntry :=
  ledger.running ++ ledger.reports.map Prod.fst

/-- The entries of the batches that were taken. -/
def due (ledger : DialLedger) : List DialEntry :=
  ((ledger.handed.take ledger.taken).mapIdx DialEntry.ofBatch).flatten

/-- An entry of a batch that was handed over. -/
def Holds (ledger : DialLedger) (entry : DialEntry) : Prop :=
  ∃ addresses, ledger.handed[entry.batch]? = some addresses ∧
    addresses[entry.place]? = some entry.address

/-- What is due are the entries of the first batches handed over, as many as were taken. -/
theorem mem_due_iff {ledger : DialLedger} {entry : DialEntry} :
    entry ∈ ledger.due ↔ ledger.Holds entry ∧ entry.batch < ledger.taken := by
  constructor
  · intro hmem
    obtain ⟨_, hentries, hentry⟩ := List.mem_flatten.1 hmem
    obtain ⟨batch, hlength, rfl⟩ := List.mem_mapIdx.1 hentries
    obtain ⟨rfl, haddress⟩ := DialEntry.mem_ofBatch_iff.1 hentry
    rw [List.getElem_take] at haddress
    obtain ⟨htaken, hhanded⟩ := Nat.lt_min.1 (List.length_take ▸ hlength)
    exact ⟨⟨_, List.getElem?_eq_getElem hhanded, haddress⟩, htaken⟩
  · rintro ⟨⟨addresses, haddresses, haddress⟩, htaken⟩
    have hbatch : ((ledger.handed.take ledger.taken).mapIdx DialEntry.ofBatch)[entry.batch]? =
        some (DialEntry.ofBatch entry.batch addresses) := by
      rw [List.getElem?_mapIdx, List.getElem?_take_of_lt htaken, haddresses]
      rfl
    exact List.mem_flatten.2 ⟨_, List.mem_iff_getElem?.2 ⟨_, hbatch⟩,
      DialEntry.mem_ofBatch_iff.2 ⟨rfl, haddress⟩⟩

/-- Entries of different batches differ by their batches. -/
theorem nodup_due (ledger : DialLedger) : ledger.due.Nodup := by
  rw [due, List.nodup_flatten]
  constructor
  · intro entries hmem
    obtain ⟨batch, _, rfl⟩ := List.mem_mapIdx.1 hmem
    exact DialEntry.nodup_ofBatch batch _
  · apply List.pairwise_iff_getElem.2
    intro first second _ _ hlt entry hfirst hsecond
    rw [List.getElem_mapIdx] at hfirst hsecond
    have hbatch : first = second :=
      (DialEntry.mem_ofBatch_iff.1 hfirst).1.symm.trans (DialEntry.mem_ofBatch_iff.1 hsecond).1
    exact Nat.ne_of_lt hlt hbatch

/-- The dialer that the ledger is of. -/
def dialer (ledger : DialLedger) : Dialer where
  batches := ledger.handed.drop ledger.taken
  dialing := ledger.running.map DialEntry.address
  reports := (ledger.reports.map Prod.snd).drop ledger.followed

def hand (ledger : DialLedger) (addresses : List String) : DialLedger :=
  { ledger with handed := ledger.handed ++ [addresses] }

def take (ledger : DialLedger) : DialLedger :=
  match ledger.handed[ledger.taken]? with
  | none => ledger
  | some addresses =>
    { ledger with
      taken := ledger.taken + 1
      running := ledger.running ++ DialEntry.ofBatch ledger.taken addresses }

def conclude (ledger : DialLedger) (place : ℕ) (attempt : Attempt) : DialLedger :=
  match ledger.running[place]? with
  | none => ledger
  | some entry =>
    { ledger with
      running := ledger.running.eraseIdx place
      reports := ledger.reports ++ [(entry, dial entry.address attempt)] }

def follow (ledger : DialLedger) : DialLedger :=
  if ledger.followed < ledger.reports.length then { ledger with followed := ledger.followed + 1 }
  else ledger

/-- The ledger and its dialer take the same batch. -/
theorem dialer_take (ledger : DialLedger) : ledger.take.dialer = ledger.dialer.takeBatch := by
  unfold take
  split
  · next hnone =>
    have hempty : ledger.handed.drop ledger.taken = [] :=
      List.drop_eq_nil_of_le (List.getElem?_eq_none_iff.1 hnone)
    simp only [Dialer.takeBatch, dialer, hempty]
  · next addresses hsome =>
    have hnext : ledger.handed.drop ledger.taken =
        addresses :: ledger.handed.drop (ledger.taken + 1) := by
      obtain ⟨hlength, rfl⟩ := List.getElem?_eq_some_iff.1 hsome
      exact List.drop_eq_getElem_cons hlength
    simp only [Dialer.takeBatch, dialer, hnext, List.map_append, DialEntry.map_address_ofBatch]

theorem handed_take (ledger : DialLedger) : ledger.take.handed = ledger.handed := by
  unfold take
  split <;> rfl

theorem handed_conclude (ledger : DialLedger) (place : ℕ) (attempt : Attempt) :
    (ledger.conclude place attempt).handed = ledger.handed := by
  unfold conclude
  split <;> rfl

theorem handed_follow (ledger : DialLedger) : ledger.follow.handed = ledger.handed := by
  unfold follow
  split <;> rfl

/-- To follow a report is to take the oldest one that waits. -/
theorem dialer_follow (ledger : DialLedger) :
    ledger.dialer.reports = [] ∧ ledger.follow = ledger ∨
    ∃ report ∈ ledger.reports, ledger.dialer.reports = report.2 :: ledger.follow.dialer.reports ∧
      ledger.follow.dialer = { ledger.dialer with reports := ledger.follow.dialer.reports } := by
  unfold follow
  split
  · next hlt =>
    have hlength : ledger.followed < (ledger.reports.map Prod.snd).length := by
      rwa [List.length_map]
    have hreports := List.drop_eq_getElem_cons hlength
    rw [List.getElem_map] at hreports
    exact .inr ⟨_, List.getElem_mem hlt, hreports, rfl⟩
  · next hge =>
    have hnone : (ledger.reports.map Prod.snd).drop ledger.followed = [] :=
      List.drop_eq_nil_of_le (by simpa using hge)
    exact .inl ⟨hnone, rfl⟩

/-- What a ledger says holds together. -/
structure Balanced (ledger : DialLedger) : Prop where
  taken_le : ledger.taken ≤ ledger.handed.length
  followed_le : ledger.followed ≤ ledger.reports.length
  dialed_perm : ledger.dialed.Perm ledger.due
  reported : ∀ report ∈ ledger.reports, ∃ attempt, report.2 = dial report.1.address attempt

namespace Balanced

variable {ledger : DialLedger}

theorem empty : Balanced {} where
  taken_le := Nat.le_refl _
  followed_le := Nat.le_refl _
  dialed_perm := .nil
  reported report hmem := by cases hmem

/-- A dial is started for each entry of a batch that was taken, and for no other. -/
theorem mem_dialed_iff (h : ledger.Balanced) {entry : DialEntry} :
    entry ∈ ledger.dialed ↔ ledger.Holds entry ∧ entry.batch < ledger.taken :=
  h.dialed_perm.mem_iff.trans mem_due_iff

/-- No entry is dialed twice. -/
theorem nodup_dialed (h : ledger.Balanced) : ledger.dialed.Nodup :=
  h.dialed_perm.nodup_iff.2 ledger.nodup_due

/-- An entry is dialed once if its batch was taken, and not at all before. -/
theorem count_dialed (h : ledger.Balanced) {entry : DialEntry} (hentry : ledger.Holds entry) :
    ledger.dialed.count entry = if entry.batch < ledger.taken then 1 else 0 := by
  rw [h.nodup_dialed.count]
  simp only [h.mem_dialed_iff, hentry, true_and]

/-- A dial that was started has reported once if it does not run any more, and not at all before. -/
theorem count_reports (h : ledger.Balanced) {entry : DialEntry} (hentry : ledger.Holds entry) :
    (ledger.reports.map Prod.fst).count entry =
      if entry.batch < ledger.taken ∧ entry ∉ ledger.running then 1 else 0 := by
  obtain ⟨_, hreports, hdisjoint⟩ := List.nodup_append'.1 h.nodup_dialed
  have hmem : entry ∈ ledger.reports.map Prod.fst ↔
      entry.batch < ledger.taken ∧ entry ∉ ledger.running := by
    constructor
    · intro hreported
      have hdialed := h.mem_dialed_iff.1 (List.mem_append_right _ hreported)
      exact ⟨hdialed.2, fun hrunning ↦ hdisjoint hrunning hreported⟩
    · rintro ⟨htaken, hrunning⟩
      exact (List.mem_append.1 (h.mem_dialed_iff.2 ⟨hentry, htaken⟩)).resolve_left hrunning
  rw [hreports.count]
  simp only [hmem]

/-- A dialer that is open takes every batch. -/
theorem dialer_hand (h : ledger.Balanced) (addresses : List String) :
    ledger.dialer.dispatch addresses = ((ledger.hand addresses).dialer, .ok ()) := by
  simp only [Dialer.dispatch, dialer, hand, List.drop_append_of_le_length h.taken_le,
    Bool.false_eq_true, if_false]

theorem dialer_conclude (h : ledger.Balanced) (place : ℕ) (attempt : Attempt) :
    (ledger.conclude place attempt).dialer = ledger.dialer.finishDial place attempt := by
  unfold conclude Dialer.finishDial
  simp only [dialer, List.getElem?_map]
  cases ledger.running[place]? with
  | none => rfl
  | some entry =>
    have hlength : ledger.followed ≤ (ledger.reports.map Prod.snd).length := by
      rw [List.length_map]
      exact h.followed_le
    simp only [Option.map_some, List.map_append, List.map_cons, List.map_nil,
      List.drop_append_of_le_length hlength, List.eraseIdx_map]

theorem hand (h : ledger.Balanced) (addresses : List String) : (ledger.hand addresses).Balanced where
  taken_le := Nat.le_trans h.taken_le (by simp [DialLedger.hand])
  followed_le := h.followed_le
  dialed_perm := by
    have hsame : (ledger.hand addresses).due = ledger.due := by
      simp only [due, DialLedger.hand, List.take_append_of_le_length h.taken_le]
    rw [hsame]
    exact h.dialed_perm
  reported := h.reported

theorem take (h : ledger.Balanced) : ledger.take.Balanced := by
  unfold DialLedger.take
  split
  · exact h
  · next addresses hsome =>
    let entries := DialEntry.ofBatch ledger.taken addresses
    obtain ⟨hlength, hget⟩ := List.getElem?_eq_some_iff.1 hsome
    have hdue : ((ledger.handed.take (ledger.taken + 1)).mapIdx DialEntry.ofBatch).flatten =
        ledger.due ++ entries := by
      rw [List.take_succ_eq_append_getElem hlength, hget, List.mapIdx_concat, List.flatten_append,
        List.length_take_of_le h.taken_le]
      simp [due, entries]
    refine ⟨hlength, h.followed_le, ?_, h.reported⟩
    calc (ledger.running ++ entries) ++ ledger.reports.map Prod.fst
      _ = ledger.running ++ (entries ++ ledger.reports.map Prod.fst) := List.append_assoc _ _ _
      _ ~ ledger.running ++ (ledger.reports.map Prod.fst ++ entries) :=
        List.perm_append_comm.append_left _
      _ = ledger.dialed ++ entries := (List.append_assoc _ _ _).symm
      _ ~ ledger.due ++ entries := h.dialed_perm.append_right _
      _ = _ := hdue.symm

/-- A dial that ends moves from those that run to those that have reported. -/
theorem conclude (h : ledger.Balanced) (place : ℕ) (attempt : Attempt) :
    (ledger.conclude place attempt).Balanced := by
  unfold DialLedger.conclude
  split
  · exact h
  · next entry hentry =>
    obtain ⟨hlength, rfl⟩ := List.getElem?_eq_some_iff.1 hentry
    refine ⟨h.taken_le, Nat.le_trans h.followed_le (by simp), ?_, ?_⟩
    · let dials := ledger.reports.map Prod.fst
      calc ledger.running.eraseIdx place ++ (ledger.reports ++ [_]).map Prod.fst
        _ = ledger.running.eraseIdx place ++ (dials ++ [ledger.running[place]]) := by
          rw [List.map_append]
          rfl
        _ ~ ledger.running.eraseIdx place ++ (ledger.running[place] :: dials) :=
          (List.perm_append_singleton _ _).append_left _
        _ ~ ledger.running[place] :: ledger.running.eraseIdx place ++ dials := List.perm_middle
        _ ~ ledger.dialed := (List.getElem_cons_eraseIdx_perm hlength).append_right _
        _ ~ ledger.due := h.dialed_perm
    · intro report hmem
      rcases List.mem_append.1 hmem with hmem | hmem
      · exact h.reported report hmem
      · rw [List.mem_singleton.1 hmem]
        exact ⟨attempt, rfl⟩

theorem follow (h : ledger.Balanced) : ledger.follow.Balanced := by
  unfold DialLedger.follow
  split
  · next hlt => exact ⟨h.taken_le, hlt, h.dialed_perm, h.reported⟩
  · exact h

end Balanced

end DialLedger

end ServiceMesh

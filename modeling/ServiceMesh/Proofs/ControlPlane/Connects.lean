import Mathlib.Data.List.Induction
import ServiceMesh.ControlPlane
import ServiceMesh.Proofs.NameMap

/-!
# Overlapping connects

A connect begins, and finishes when the transport has answered; any number of others may begin and
finish in between, with whatever answers.  The configured peers are at all times the addresses of
the connects begun so far.  No answer takes any of them away, and what a connect hands to the
transport is all of them as they were when it began.
-/

namespace ServiceMesh

/-- Added names are there afterwards, and nothing that was there is lost. -/
theorem NameSet.contains_addAll (s : NameSet) (names : List String) (name : String) :
    (s.addAll names).contains name ↔ s.contains name ∨ name ∈ names := by
  induction names generalizing s with
  | nil => simp [addAll]
  | cons first names ih =>
    rw [addAll, List.foldl_cons, ← addAll, ih, NameMap.contains_insert, List.mem_cons]
    tauto

/-- To begin a connect adds what is left of its addresses when they are trimmed. -/
theorem ControlPlane.mem_configuredPeers_beginConnect (plane : ControlPlane)
    (request : ConnectRequest) (peer : String) :
    peer ∈ (plane.beginConnect request).1.configuredPeers ↔
      peer ∈ plane.configuredPeers ∨ peer ∈ trimmedAddresses request.addresses := by
  simp only [configuredPeers, NameMap.mem_names_iff]
  exact NameSet.contains_addAll _ _ _

/-- How far a connect has come. -/
inductive ConnectTask where
  | waiting (request : ConnectRequest)
  /-- The transport has been handed the addresses and has not answered. -/
  | dispatched (request : ConnectRequest) (dispatch : Dispatch)
  | returned (request : ConnectRequest) (dispatch : Dispatch) (failure : Option MeshError)

namespace ConnectTask

/-- The request of a connect that has not begun. -/
def pending? : ConnectTask → Option ConnectRequest
  | waiting request => some request
  | dispatched _ _ | returned _ _ _ => none

/-- The request of a connect that has begun. -/
def begun? : ConnectTask → Option ConnectRequest
  | waiting _ => none
  | dispatched request _ | returned request _ _ => some request

def dispatch? : ConnectTask → Option Dispatch
  | waiting _ => none
  | dispatched _ dispatch | returned _ dispatch _ => some dispatch

end ConnectTask

inductive ConnectStep where
  | begin (index : ℕ)
  | finish (index : ℕ) (answer : Except TransportError Unit)

structure Connects where
  plane : ControlPlane
  tasks : List ConnectTask

namespace Connects

/-- A new control plane, and connects that have not begun. -/
def start (id address : String) (requests : List ConnectRequest) : Connects :=
  ⟨ControlPlane.start id address, requests.map .waiting⟩

def opened (connects : Connects) (index : ℕ) (request : ConnectRequest) : Connects :=
  let (plane, dispatch) := connects.plane.beginConnect request
  ⟨plane, connects.tasks.set index (.dispatched request dispatch)⟩

def closed (connects : Connects) (index : ℕ) (request : ConnectRequest) (dispatch : Dispatch)
    (answer : Except TransportError Unit) : Connects :=
  let (plane, failure) := connects.plane.finishConnect dispatch answer
  ⟨plane, connects.tasks.set index (.returned request dispatch failure)⟩

/-- A connect begins once, and finishes once after that; no other step changes anything. -/
def step (connects : Connects) : ConnectStep → Connects
  | .begin index =>
    match connects.tasks[index]? with
    | some (.waiting request) => connects.opened index request
    | _ => connects
  | .finish index answer =>
    match connects.tasks[index]? with
    | some (.dispatched request dispatch) => connects.closed index request dispatch answer
    | _ => connects

def run (connects : Connects) (schedule : List ConnectStep) : Connects :=
  schedule.foldl step connects

def pending? (connects : Connects) (index : ℕ) : Option ConnectRequest :=
  connects.tasks[index]?.bind ConnectTask.pending?

def begun? (connects : Connects) (index : ℕ) : Option ConnectRequest :=
  connects.tasks[index]?.bind ConnectTask.begun?

def dispatch? (connects : Connects) (index : ℕ) : Option Dispatch :=
  connects.tasks[index]?.bind ConnectTask.dispatch?

/-- In a schedule, the connect at an index begins right after the steps `before`. -/
def BeginsAfter (schedule before : List ConnectStep) (index : ℕ) : Prop :=
  before ++ [.begin index] <+: schedule ∧ .begin index ∉ before

theorem run_append (connects : Connects) (schedule more : List ConnectStep) :
    connects.run (schedule ++ more) = (connects.run schedule).run more :=
  List.foldl_append

theorem run_concat (connects : Connects) (schedule : List ConnectStep) (last : ConnectStep) :
    connects.run (schedule ++ [last]) = (connects.run schedule).step last :=
  connects.run_append schedule [last]

/-- A connect that no other one overlaps is the whole operation. -/
theorem run_alone (plane : ControlPlane) (request : ConnectRequest)
    (answer : Except TransportError Unit) :
    run ⟨plane, [.waiting request]⟩ [.begin 0, .finish 0 answer] =
      ⟨(plane.connect request answer).1,
        [.returned request (plane.connect request answer).2.1
          (plane.connect request answer).2.2]⟩ := rfl

inductive StepEffect (connects : Connects) : ConnectStep → Connects → Prop where
  | opened {index : ℕ} {request : ConnectRequest}
      (htask : connects.tasks[index]? = some (.waiting request)) :
      StepEffect connects (.begin index) (connects.opened index request)
  | closed {index : ℕ} {request : ConnectRequest} {dispatch : Dispatch}
      (answer : Except TransportError Unit)
      (htask : connects.tasks[index]? = some (.dispatched request dispatch)) :
      StepEffect connects (.finish index answer) (connects.closed index request dispatch answer)
  | nothing {step : ConnectStep}
      (hspare : ∀ index, step = .begin index → connects.pending? index = none) :
      StepEffect connects step connects

/-- A step that meets a connect which has already begun, or has already finished, changes
nothing. -/
theorem step_effect (connects : Connects) (step : ConnectStep) :
    StepEffect connects step (connects.step step) := by
  cases step with
  | begin index =>
    simp only [Connects.step]
    split
    · next htask => exact .opened htask
    · next hspare =>
      refine .nothing ?_
      rintro _ ⟨⟩
      rw [pending?, Option.bind_eq_none_iff]
      rintro (_ | _ | _) htask
      · exact absurd htask (hspare _)
      · rfl
      · rfl
  | finish index answer =>
    simp only [Connects.step]
    split
    · next htask => exact .closed answer htask
    · exact .nothing fun _ hstep ↦ by cases hstep

/-- What is read off the calls when one of them is set. -/
theorem bind_getElem?_set {α : Type} {tasks : List ConnectTask} {index : ℕ}
    (h : index < tasks.length) (task : ConnectTask) (read : ConnectTask → Option α) (other : ℕ) :
    (tasks.set index task)[other]?.bind read =
      if other = index then read task else tasks[other]?.bind read := by
  split
  · next heq => rw [heq, List.getElem?_set_self h, Option.bind_some]
  · next hne => rw [List.getElem?_set_ne (Ne.symm hne)]

section Opened

variable {connects : Connects} {index : ℕ} {request : ConnectRequest}

theorem mem_configuredPeers_opened (connects : Connects) (index : ℕ) (request : ConnectRequest)
    (peer : String) :
    peer ∈ (connects.opened index request).plane.configuredPeers ↔
      peer ∈ connects.plane.configuredPeers ∨
        peer ∈ ControlPlane.trimmedAddresses request.addresses :=
  connects.plane.mem_configuredPeers_beginConnect request peer

theorem pending?_of_waiting (htask : connects.tasks[index]? = some (.waiting request)) :
    connects.pending? index = some request := by
  rw [pending?, htask]
  rfl

theorem waiting_of_pending? (hpending : connects.pending? index = some request) :
    connects.tasks[index]? = some (.waiting request) := by
  obtain ⟨task, htask, hrequest⟩ := Option.bind_eq_some_iff.1 hpending
  cases task with
  | waiting asked =>
    cases hrequest
    exact htask
  | dispatched _ _ | returned _ _ _ => cases hrequest

theorem begun?_of_waiting (htask : connects.tasks[index]? = some (.waiting request)) :
    connects.begun? index = none := by
  rw [begun?, htask]
  rfl

theorem pending?_opened (htask : connects.tasks[index]? = some (.waiting request)) (other : ℕ) :
    (connects.opened index request).pending? other =
      if other = index then none else connects.pending? other :=
  bind_getElem?_set (List.getElem?_eq_some_iff.1 htask).1 _ _ other

theorem begun?_opened (htask : connects.tasks[index]? = some (.waiting request)) (other : ℕ) :
    (connects.opened index request).begun? other =
      if other = index then some request else connects.begun? other :=
  bind_getElem?_set (List.getElem?_eq_some_iff.1 htask).1 _ _ other

/-- A connect hands over the peers with its own addresses among them. -/
theorem dispatch?_opened (htask : connects.tasks[index]? = some (.waiting request)) (other : ℕ) :
    (connects.opened index request).dispatch? other =
      if other = index then
        some ⟨(connects.opened index request).plane.configuredPeers, connects.plane.state = .idle⟩
      else connects.dispatch? other :=
  bind_getElem?_set (List.getElem?_eq_some_iff.1 htask).1 _ _ other

end Opened

section Closed

variable {connects : Connects} {index : ℕ} {request : ConnectRequest} {dispatch : Dispatch}

/-- Whatever the answer, the peers stay. -/
theorem peers_closed (connects : Connects) (index : ℕ) (request : ConnectRequest)
    (dispatch : Dispatch) (answer : Except TransportError Unit) :
    (connects.closed index request dispatch answer).plane.peers = connects.plane.peers := by
  cases answer <;> rfl

/-- What a call has in common before and after its answer is not changed by the answer. -/
theorem bind_tasks_closed {α : Type} {read : ConnectTask → Option α}
    (htask : connects.tasks[index]? = some (.dispatched request dispatch))
    (hread : ∀ failure, read (.returned request dispatch failure) =
      read (.dispatched request dispatch))
    (answer : Except TransportError Unit) (other : ℕ) :
    (connects.closed index request dispatch answer).tasks[other]?.bind read =
      connects.tasks[other]?.bind read := by
  rw [closed, bind_getElem?_set (List.getElem?_eq_some_iff.1 htask).1]
  split
  · next heq => rw [heq, htask, Option.bind_some, hread]
  · rfl

theorem pending?_closed (htask : connects.tasks[index]? = some (.dispatched request dispatch))
    (answer : Except TransportError Unit) (other : ℕ) :
    (connects.closed index request dispatch answer).pending? other = connects.pending? other :=
  bind_tasks_closed htask (fun _ ↦ rfl) answer other

theorem begun?_closed (htask : connects.tasks[index]? = some (.dispatched request dispatch))
    (answer : Except TransportError Unit) (other : ℕ) :
    (connects.closed index request dispatch answer).begun? other = connects.begun? other :=
  bind_tasks_closed htask (fun _ ↦ rfl) answer other

theorem dispatch?_closed (htask : connects.tasks[index]? = some (.dispatched request dispatch))
    (answer : Except TransportError Unit) (other : ℕ) :
    (connects.closed index request dispatch answer).dispatch? other = connects.dispatch? other :=
  bind_tasks_closed htask (fun _ ↦ rfl) answer other

end Closed

theorem pending?_step {connects : Connects} (step : ConnectStep) {index : ℕ}
    {request : ConnectRequest} :
    (connects.step step).pending? index = some request ↔
      connects.pending? index = some request ∧ step ≠ .begin index := by
  generalize hnext : connects.step step = next
  cases hnext ▸ step_effect connects step with
  | @opened other asked htask =>
    rw [pending?_opened htask]
    by_cases hindex : index = other
    · simp [hindex]
    · simp [hindex, Ne.symm hindex]
  | closed answer htask =>
    rw [pending?_closed htask]
    simp
  | nothing hspare =>
    refine (and_iff_left_of_imp ?_).symm
    rintro hpending rfl
    rw [hspare index rfl] at hpending
    cases hpending

theorem begun?_step {connects : Connects} (step : ConnectStep) {index : ℕ}
    {request : ConnectRequest} :
    (connects.step step).begun? index = some request ↔
      connects.begun? index = some request ∨
        step = .begin index ∧ connects.pending? index = some request := by
  generalize hnext : connects.step step = next
  cases hnext ▸ step_effect connects step with
  | @opened other asked htask =>
    rw [begun?_opened htask]
    by_cases hindex : index = other
    · subst hindex
      simp [begun?_of_waiting htask, pending?_of_waiting htask]
    · simp [hindex, Ne.symm hindex]
  | closed answer htask =>
    rw [begun?_closed htask]
    simp
  | nothing hspare =>
    refine (or_iff_left ?_).symm
    rintro ⟨rfl, hpending⟩
    rw [hspare index rfl] at hpending
    cases hpending

/-- A connect waits until the schedule begins it. -/
theorem pending?_run {connects : Connects} (schedule : List ConnectStep) {index : ℕ}
    {request : ConnectRequest} :
    (connects.run schedule).pending? index = some request ↔
      connects.pending? index = some request ∧ .begin index ∉ schedule := by
  induction schedule generalizing connects with
  | nil => simp [run]
  | cons step schedule ih =>
    calc (connects.run (step :: schedule)).pending? index = some request
      _ ↔ (connects.step step).pending? index = some request ∧ .begin index ∉ schedule := ih
      _ ↔ connects.pending? index = some request ∧ .begin index ∉ step :: schedule := by
        rw [pending?_step, List.mem_cons, not_or, and_assoc, ne_comm]

/-- A connect that has begun stays begun, and only a step of the schedule begins it. -/
theorem begun?_run {connects : Connects} (schedule : List ConnectStep) {index : ℕ}
    {request : ConnectRequest} :
    (connects.run schedule).begun? index = some request ↔
      connects.begun? index = some request ∨
        .begin index ∈ schedule ∧ connects.pending? index = some request := by
  induction schedule generalizing connects with
  | nil => simp [run]
  | cons step schedule ih =>
    calc (connects.run (step :: schedule)).begun? index = some request
      _ ↔ (connects.step step).begun? index = some request ∨
          .begin index ∈ schedule ∧ (connects.step step).pending? index = some request := ih
      _ ↔ connects.begun? index = some request ∨
          .begin index ∈ step :: schedule ∧ connects.pending? index = some request := by
        rw [begun?_step, pending?_step, List.mem_cons, eq_comm (a := step)]
        tauto

theorem begun?_start (id address : String) (requests : List ConnectRequest) (index : ℕ) :
    (start id address requests).begun? index = none := by
  simp only [begun?, start, List.getElem?_map]
  cases requests[index]? <;> rfl

theorem pending?_start (id address : String) (requests : List ConnectRequest) (index : ℕ) :
    (start id address requests).pending? index = requests[index]? := by
  simp only [pending?, start, List.getElem?_map]
  cases requests[index]? <;> rfl

/-- A connect has begun if it is one of those asked for and a step of the schedule begins it. -/
theorem begun?_start_run {id address : String} {requests : List ConnectRequest}
    {schedule : List ConnectStep} {index : ℕ} {request : ConnectRequest} :
    ((start id address requests).run schedule).begun? index = some request ↔
      .begin index ∈ schedule ∧ requests[index]? = some request := by
  rw [begun?_run, begun?_start, pending?_start]
  simp

/-- The configured peers are the addresses of the connects that have begun. -/
def Gathered (connects : Connects) : Prop :=
  ∀ peer, peer ∈ connects.plane.configuredPeers ↔
    ∃ index request, connects.begun? index = some request ∧
      peer ∈ ControlPlane.trimmedAddresses request.addresses

theorem gathered_start (id address : String) (requests : List ConnectRequest) :
    (start id address requests).Gathered := by
  intro peer
  simp only [begun?_start, reduceCtorEq, false_and, exists_false, iff_false]
  exact List.not_mem_nil

/-- A begin adds the addresses of its own connect; an answer adds and takes away none. -/
theorem Gathered.step {connects : Connects} (h : connects.Gathered) (step : ConnectStep) :
    (connects.step step).Gathered := by
  intro peer
  generalize hnext : connects.step step = next
  cases hnext ▸ step_effect connects step with
  | @opened index request htask =>
    rw [mem_configuredPeers_opened, h]
    constructor
    · rintro (⟨other, asked, hbegun, hpeer⟩ | hpeer)
      · have hother : other ≠ index := by
          rintro rfl
          rw [begun?_of_waiting htask] at hbegun
          cases hbegun
        exact ⟨other, asked, by rw [begun?_opened htask, if_neg hother, hbegun], hpeer⟩
      · exact ⟨index, request, by rw [begun?_opened htask, if_pos rfl], hpeer⟩
    · rintro ⟨other, asked, hbegun, hpeer⟩
      rw [begun?_opened htask] at hbegun
      split at hbegun
      · cases hbegun
        exact .inr hpeer
      · exact .inl ⟨other, asked, hbegun, hpeer⟩
  | closed answer htask =>
    simp only [ControlPlane.configuredPeers, peers_closed, begun?_closed htask]
    exact h peer
  | nothing => exact h peer

theorem Gathered.run {connects : Connects} (h : connects.Gathered) (schedule : List ConnectStep) :
    (connects.run schedule).Gathered := by
  induction schedule generalizing connects with
  | nil => exact h
  | cons step schedule ih => exact ih (h.step step)

/-- No step takes a configured peer away. -/
theorem configuredPeers_subset_step (connects : Connects) (step : ConnectStep) :
    connects.plane.configuredPeers ⊆ (connects.step step).plane.configuredPeers := by
  intro peer hpeer
  generalize hnext : connects.step step = next
  cases hnext ▸ step_effect connects step with
  | opened htask => exact (mem_configuredPeers_opened _ _ _ peer).2 (.inl hpeer)
  | closed answer htask => rwa [ControlPlane.configuredPeers, peers_closed]
  | nothing => exact hpeer

theorem configuredPeers_subset_run (connects : Connects) (schedule : List ConnectStep) :
    connects.plane.configuredPeers ⊆ (connects.run schedule).plane.configuredPeers := by
  induction schedule generalizing connects with
  | nil => exact List.Subset.refl _
  | cons step schedule ih =>
    exact List.Subset.trans (connects.configuredPeers_subset_step step) (ih _)

/-- Peers that are configured early in a schedule are configured later too. -/
theorem configuredPeers_subset_of_prefix (connects : Connects) {earlier schedule : List ConnectStep}
    (h : earlier <+: schedule) :
    (connects.run earlier).plane.configuredPeers ⊆
      (connects.run schedule).plane.configuredPeers := by
  obtain ⟨more, rfl⟩ := h
  rw [run_append]
  exact configuredPeers_subset_run _ _

/-! ## What the transport is handed -/

theorem exists_begun?_of_dispatch? {connects : Connects} {index : ℕ} {dispatch : Dispatch}
    (h : connects.dispatch? index = some dispatch) :
    ∃ request, connects.begun? index = some request := by
  obtain ⟨task, htask, hdispatch⟩ := Option.bind_eq_some_iff.1 h
  cases task with
  | waiting request => cases hdispatch
  | dispatched request _ | returned request _ _ => exact ⟨request, by rw [begun?, htask]; rfl⟩

/-- What was handed over once is not changed by any later step. -/
theorem dispatch?_step {connects : Connects} {index : ℕ} {dispatch : Dispatch}
    (h : connects.dispatch? index = some dispatch) (step : ConnectStep) :
    (connects.step step).dispatch? index = some dispatch := by
  generalize hnext : connects.step step = next
  cases hnext ▸ step_effect connects step with
  | @opened other request htask =>
    have hother : index ≠ other := by
      rintro rfl
      rw [dispatch?, htask] at h
      cases h
    rw [dispatch?_opened htask, if_neg hother, h]
  | closed answer htask => rw [dispatch?_closed htask, h]
  | nothing => exact h

theorem dispatch?_run {connects : Connects} {index : ℕ} {dispatch : Dispatch}
    (h : connects.dispatch? index = some dispatch) (schedule : List ConnectStep) :
    (connects.run schedule).dispatch? index = some dispatch := by
  induction schedule generalizing connects with
  | nil => exact h
  | cons step schedule ih => exact ih (dispatch?_step h step)

/-- In a schedule, a connect begins with the control plane as it is then. -/
theorem run_begin {connects : Connects} {before : List ConnectStep} {index : ℕ}
    {request : ConnectRequest} (hpending : connects.pending? index = some request)
    (hbefore : .begin index ∉ before) :
    (connects.run before).tasks[index]? = some (.waiting request) ∧
      connects.run (before ++ [.begin index]) = (connects.run before).opened index request := by
  have hwaiting : (connects.run before).tasks[index]? = some (.waiting request) :=
    waiting_of_pending? ((pending?_run before).2 ⟨hpending, hbefore⟩)
  refine ⟨hwaiting, ?_⟩
  rw [run_concat]
  simp only [Connects.step, hwaiting]

/-- What a connect hands over, and remembers, is settled when it begins. -/
theorem dispatch?_eq_of_beginsAfter {connects : Connects} {schedule before : List ConnectStep}
    {index : ℕ} (h : BeginsAfter schedule before index) {request : ConnectRequest}
    (hpending : connects.pending? index = some request) :
    (connects.run schedule).dispatch? index =
      some ((connects.run before).plane.beginConnect request).2 := by
  obtain ⟨⟨more, rfl⟩, hbefore⟩ := h
  obtain ⟨hwaiting, hopened⟩ := run_begin hpending hbefore
  rw [run_append, hopened]
  exact dispatch?_run (by rw [dispatch?_opened hwaiting, if_pos rfl]; rfl) more

/-- A connect hands over the peers as they are right after it has begun. -/
theorem dispatch?_of_beginsAfter {connects : Connects} {schedule before : List ConnectStep}
    {index : ℕ} (h : BeginsAfter schedule before index) {request : ConnectRequest}
    (hpending : connects.pending? index = some request) :
    ∃ dispatch, (connects.run schedule).dispatch? index = some dispatch ∧
      dispatch.addresses = (connects.run (before ++ [.begin index])).plane.configuredPeers := by
  refine ⟨_, dispatch?_eq_of_beginsAfter h hpending, ?_⟩
  rw [(run_begin hpending h.2).2]
  rfl

/-- Every connect hands over all peers configured so far, its own included. -/
theorem addresses_of_beginsAfter {connects : Connects} {schedule before : List ConnectStep}
    {index : ℕ} (h : BeginsAfter schedule before index) {request : ConnectRequest}
    (hpending : connects.pending? index = some request) {dispatch : Dispatch}
    (hdispatch : (connects.run schedule).dispatch? index = some dispatch) :
    dispatch.addresses = (connects.run (before ++ [.begin index])).plane.configuredPeers := by
  obtain ⟨handed, hhanded, haddresses⟩ := dispatch?_of_beginsAfter h hpending
  obtain rfl : handed = dispatch := Option.some_inj.1 (hhanded.symm.trans hdispatch)
  exact haddresses

theorem mem_trimmedAddresses {given : List String} {peer : String} :
    peer ∈ ControlPlane.trimmedAddresses given ↔
      peer ≠ "" ∧ ∃ address ∈ given, Text.trim address = peer := by
  simp only [ControlPlane.trimmedAddresses, List.mem_filter, List.mem_map, decide_eq_true_eq]
  exact and_comm

/-- However connects overlap and whatever the transport answers, the configured peers are always the
ascending list, without duplicates, of what is left of the addresses of all requests begun so far
when they are trimmed and empty ones dropped.  They never become fewer.  Each connect that has begun
has handed over just the peers as they were right after its begin, so what is handed over grows with
every connect that begins. -/
theorem connects_lose_nothing (id address : String) (requests : List ConnectRequest)
    (schedule : List ConnectStep) :
    let connects := start id address requests
    let last := connects.run schedule
    last.plane.configuredPeers.Pairwise (· < ·) ∧
    (∀ peer, peer ∈ last.plane.configuredPeers ↔
      ∃ index request, .begin index ∈ schedule ∧ requests[index]? = some request ∧
        peer ≠ "" ∧ ∃ given ∈ request.addresses, Text.trim given = peer) ∧
    (∀ earlier, earlier <+: schedule →
      (connects.run earlier).plane.configuredPeers ⊆ last.plane.configuredPeers) ∧
    (∀ before index, BeginsAfter schedule before index → index < requests.length →
      ∃ dispatch, last.dispatch? index = some dispatch ∧
        dispatch.addresses = (connects.run (before ++ [.begin index])).plane.configuredPeers) ∧
    ∀ before before' index index' dispatch dispatch',
      BeginsAfter schedule before index → BeginsAfter schedule before' index' →
      before.length ≤ before'.length →
      last.dispatch? index = some dispatch → last.dispatch? index' = some dispatch' →
      dispatch.addresses ⊆ dispatch'.addresses := by
  intro connects last
  have hgathered : last.Gathered := (gathered_start id address requests).run schedule
  have hbegun (index : ℕ) (request : ConnectRequest) : last.begun? index = some request ↔
      .begin index ∈ schedule ∧ requests[index]? = some request := begun?_start_run
  refine ⟨NameMap.names_ascending _, fun peer ↦ ?_,
    fun _ ↦ connects.configuredPeers_subset_of_prefix, fun before index hbegins hindex ↦ ?_, ?_⟩
  · simp only [hgathered peer, mem_trimmedAddresses, hbegun, and_assoc]
  · have hpending : connects.pending? index = some requests[index] := by
      rw [pending?_start, List.getElem?_eq_getElem hindex]
    exact dispatch?_of_beginsAfter hbegins hpending
  · intro before before' index index' dispatch dispatch' hbegins hbegins' hlength hone hother
    have hpending {index : ℕ} {dispatch : Dispatch} (h : last.dispatch? index = some dispatch) :
        ∃ request, connects.pending? index = some request := by
      obtain ⟨request, hasked⟩ := exists_begun?_of_dispatch? h
      exact ⟨request, by rw [pending?_start, ((hbegun _ _).1 hasked).2]⟩
    obtain ⟨_, hpending₁⟩ := hpending hone
    obtain ⟨_, hpending₂⟩ := hpending hother
    rw [addresses_of_beginsAfter hbegins hpending₁ hone,
      addresses_of_beginsAfter hbegins' hpending₂ hother]
    apply connects.configuredPeers_subset_of_prefix
    apply List.prefix_of_prefix_length_le hbegins.1 hbegins'.1
    simpa using hlength

/-- Three connects, of which two fail after others have begun. -/
def failingSteps : List ConnectStep :=
  [.begin 0, .begin 1, .finish 1 (.error .closed), .begin 2, .finish 0 (.error .closed),
    .finish 2 (.ok ())]

theorem connects_lose_nothing_failing :
    let requests := [[" b:1", "a:1 "], ["c:1", "", "a:1"], ["d:1"]].map ConnectRequest.ofAddresses
    let last := (start "n" "" requests).run failingSteps
    last.plane.configuredPeers = ["a:1", "b:1", "c:1", "d:1"] ∧
    last.dispatch? 0 = some ⟨["a:1", "b:1"], true⟩ ∧
    last.dispatch? 1 = some ⟨["a:1", "b:1", "c:1"], false⟩ ∧
    ["a:1", "b:1"] ⊆ ["a:1", "b:1", "c:1"] := by
  intro requests last
  have hfirst : last.dispatch? 0 = some ⟨["a:1", "b:1"], true⟩ := by decide +kernel
  have hsecond : last.dispatch? 1 = some ⟨["a:1", "b:1", "c:1"], false⟩ := by decide +kernel
  obtain ⟨-, -, -, -, hgrow⟩ := connects_lose_nothing "n" "" requests failingSteps
  exact ⟨by decide +kernel, hfirst, hsecond, hgrow [] [.begin 0] 0 1 _ _ ⟨⟨_, rfl⟩, by simp⟩
    ⟨⟨_, rfl⟩, by simp⟩ (Nat.zero_le _) hfirst hsecond⟩

end Connects

end ServiceMesh

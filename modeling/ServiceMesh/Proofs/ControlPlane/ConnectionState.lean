import ServiceMesh.Proofs.ControlPlane.Connects

/-!
# The state while connects overlap

A connect that finds the node idle opens the connection: the node is connecting from then on.  If it
fails, the node is idle again, unless another connect has succeeded meanwhile.  So the state is
connecting just as long as there is an opener in flight and no success, and there is never more than
one opener in flight.  Success is for good.
-/

namespace ServiceMesh

namespace ConnectTask

/-- What the transport was handed and has not answered. -/
def inFlight? : ConnectTask → Option Dispatch
  | dispatched _ dispatch => some dispatch
  | waiting _ | returned _ _ _ => none

/-- How a connect ended: with a failure or with none. -/
def outcome? : ConnectTask → Option (Option MeshError)
  | returned _ _ failure => some failure
  | waiting _ | dispatched _ _ => none

end ConnectTask

namespace Connects

def inFlight? (connects : Connects) (index : ℕ) : Option Dispatch :=
  connects.tasks[index]?.bind ConnectTask.inFlight?

def outcome? (connects : Connects) (index : ℕ) : Option (Option MeshError) :=
  connects.tasks[index]?.bind ConnectTask.outcome?

def InFlight (connects : Connects) (index : ℕ) : Prop := (connects.inFlight? index).isSome

instance (connects : Connects) (index : ℕ) : Decidable (connects.InFlight index) :=
  inferInstanceAs (Decidable (_ = true))

def Succeeded (connects : Connects) (index : ℕ) : Prop := connects.outcome? index = some none

/-- The connect at an index is in flight and found the node idle. -/
def Opener (connects : Connects) (index : ℕ) : Prop :=
  ∃ dispatch, connects.inFlight? index = some dispatch ∧ dispatch.foundIdle = true

/-- In a schedule, the connect at an index begins when the node is idle. -/
def BeginsIdle (connects : Connects) (schedule : List ConnectStep) (index : ℕ) : Prop :=
  ∃ before, BeginsAfter schedule before index ∧ (connects.run before).plane.state = .idle

section Opened

variable {connects : Connects} {index : ℕ} {request : ConnectRequest}

/-- To begin a connect moves an idle node on, and no other. -/
theorem state_opened (connects : Connects) (index : ℕ) (request : ConnectRequest) :
    (connects.opened index request).plane.state =
      if connects.plane.state = .idle then .connecting else connects.plane.state := by
  by_cases hidle : connects.plane.state = .idle <;>
    simp [opened, ControlPlane.beginConnect, hidle]

/-- Only a connect that finds the node idle becomes an opener, and no other one stops being one. -/
theorem opener_opened (htask : connects.tasks[index]? = some (.waiting request)) (other : ℕ) :
    (connects.opened index request).Opener other ↔
      if other = index then connects.plane.state = .idle else connects.Opener other := by
  have hread := bind_getElem?_set (List.getElem?_eq_some_iff.1 htask).1
    (.dispatched request (connects.plane.beginConnect request).2) ConnectTask.inFlight? other
  rw [Opener, inFlight?, opened, hread]
  split
  · simp [ConnectTask.inFlight?, ControlPlane.beginConnect]
  · rfl

theorem succeeded_opened (htask : connects.tasks[index]? = some (.waiting request)) (other : ℕ) :
    (connects.opened index request).Succeeded other ↔ connects.Succeeded other := by
  have hread := bind_getElem?_set (List.getElem?_eq_some_iff.1 htask).1
    (.dispatched request (connects.plane.beginConnect request).2) ConnectTask.outcome? other
  rw [Succeeded, outcome?, opened, hread]
  split
  · next heq =>
    rw [heq, Succeeded, outcome?, htask]
    rfl
  · rfl

end Opened

section Closed

variable {connects : Connects} {index : ℕ} {request : ConnectRequest} {dispatch : Dispatch}

theorem opener_of_dispatched
    (htask : connects.tasks[index]? = some (.dispatched request dispatch)) :
    connects.Opener index ↔ dispatch.foundIdle = true := by
  rw [Opener, inFlight?, htask]
  simp [ConnectTask.inFlight?]

/-- A connect that is answered is no opener any more, whatever the answer. -/
theorem opener_closed (htask : connects.tasks[index]? = some (.dispatched request dispatch))
    (answer : Except TransportError Unit) (other : ℕ) :
    (connects.closed index request dispatch answer).Opener other ↔
      other ≠ index ∧ connects.Opener other := by
  have hread := bind_getElem?_set (List.getElem?_eq_some_iff.1 htask).1
    (.returned request dispatch (connects.plane.finishConnect dispatch answer).2)
    ConnectTask.inFlight? other
  rw [Opener, inFlight?, closed, hread]
  by_cases hother : other = index
  · simp [hother, ConnectTask.inFlight?]
  · simp [hother, Opener, inFlight?]

/-- A connect succeeds if the transport takes what it is handed. -/
theorem succeeded_closed (htask : connects.tasks[index]? = some (.dispatched request dispatch))
    (answer : Except TransportError Unit) (other : ℕ) :
    (connects.closed index request dispatch answer).Succeeded other ↔
      (other = index ∧ answer = .ok ()) ∨ connects.Succeeded other := by
  have hread := bind_getElem?_set (List.getElem?_eq_some_iff.1 htask).1
    (.returned request dispatch (connects.plane.finishConnect dispatch answer).2)
    ConnectTask.outcome? other
  have hunfinished : ¬ connects.Succeeded index := by
    rw [Succeeded, outcome?, htask]
    intro hnone
    cases hnone
  rw [Succeeded, outcome?, closed, hread]
  by_cases hother : other = index
  · subst hother
    cases answer <;> simp [ConnectTask.outcome?, ControlPlane.finishConnect, hunfinished]
  · simp [hother, Succeeded, outcome?]

end Closed

/-- The state tells whether a connect has succeeded, and else whether there is an opener. -/
structure StateTells (connects : Connects) : Prop where
  connected_iff : connects.plane.state = .connected ↔ ∃ index, connects.Succeeded index
  exists_opener : connects.plane.state = .connecting → ∃ index, connects.Opener index
  ne_idle : ∀ index, connects.Opener index → connects.plane.state ≠ .idle
  opener_unique : ∀ index index', connects.Opener index → connects.Opener index' → index = index'

namespace StateTells

variable {connects : Connects}

/-- While no connect has succeeded, the node is connecting as long as there is an opener. -/
theorem connecting_iff (h : connects.StateTells) :
    connects.plane.state = .connecting ↔
      (¬ ∃ index, connects.Succeeded index) ∧ ∃ index, connects.Opener index := by
  rw [← h.connected_iff]
  constructor
  · intro hstate
    exact ⟨by simp [hstate], h.exists_opener hstate⟩
  · rintro ⟨hconnected, index, hopener⟩
    have hidle := h.ne_idle index hopener
    cases hstate : connects.plane.state <;> simp_all

theorem idle_iff (h : connects.StateTells) :
    connects.plane.state = .idle ↔
      (¬ ∃ index, connects.Succeeded index) ∧ ¬ ∃ index, connects.Opener index := by
  have hconnecting := h.connecting_iff
  rw [← h.connected_iff] at hconnecting ⊢
  cases hstate : connects.plane.state <;> simp_all

/-- A connect that begins while another opener is in flight finds the node connecting, so there is
one opener at most. -/
theorem opened (h : connects.StateTells) {index : ℕ} {request : ConnectRequest}
    (htask : connects.tasks[index]? = some (.waiting request)) :
    (connects.opened index request).StateTells := by
  have hopener := opener_opened htask
  have hstate := state_opened connects index request
  have hwaiting : ¬ connects.Opener index := by
    rw [Opener, inFlight?, htask]
    rintro ⟨dispatch, hnone, -⟩
    cases hnone
  by_cases hidle : connects.plane.state = .idle
  · -- the connect becomes the opener, as there was none
    rw [if_pos hidle] at hstate
    have hnone (other : ℕ) : ¬ connects.Opener other := fun hother ↦ h.ne_idle other hother hidle
    have hiff (other : ℕ) : (connects.opened index request).Opener other ↔ other = index := by
      rw [hopener]
      split <;> simp_all
    refine ⟨?_, fun _ ↦ ⟨index, (hiff index).2 rfl⟩, fun _ _ ↦ by simp [hstate], ?_⟩
    · simp only [hstate, succeeded_opened htask, ← h.connected_iff, hidle, reduceCtorEq]
    · intro one other hone hother
      exact ((hiff one).1 hone).trans ((hiff other).1 hother).symm
  · rw [if_neg hidle] at hstate
    have hiff (other : ℕ) : (connects.opened index request).Opener other ↔
        connects.Opener other := by
      rw [hopener]
      split
      · next heq => simp [heq, hidle, hwaiting]
      · rfl
    constructor
    · simpa only [hstate, succeeded_opened htask] using h.connected_iff
    · simpa only [hstate, hiff] using h.exists_opener
    · simpa only [hstate, hiff] using h.ne_idle
    · simpa only [hiff] using h.opener_unique

/-- A failure makes the node idle again only if the opener fails before any success. -/
theorem closed (h : connects.StateTells) {index : ℕ} {request : ConnectRequest}
    {dispatch : Dispatch} (htask : connects.tasks[index]? = some (.dispatched request dispatch))
    (answer : Except TransportError Unit) :
    (connects.closed index request dispatch answer).StateTells := by
  have hopener := opener_closed htask answer
  have hsucceeded := succeeded_closed htask answer
  have hunique : ∀ one other, (connects.closed index request dispatch answer).Opener one →
      (connects.closed index request dispatch answer).Opener other → one = other := by
    intro one other hone hother
    exact h.opener_unique one other ((hopener one).1 hone).2 ((hopener other).1 hother).2
  cases answer with
  | ok =>
    have hstate : (connects.closed index request dispatch (.ok ())).plane.state = .connected := rfl
    refine ⟨?_, by simp [hstate], by simp [hstate], hunique⟩
    simp only [hstate, true_iff]
    exact ⟨index, (hsucceeded index).2 (.inl ⟨rfl, rfl⟩)⟩
  | error cause =>
    have hsucceeded (other : ℕ) : (connects.closed index request dispatch (.error cause)).Succeeded
        other ↔ connects.Succeeded other := by simp [hsucceeded]
    by_cases hreset : connects.plane.state = .connecting ∧ dispatch.foundIdle = true
    · -- the only opener is gone
      have hstate : (connects.closed index request dispatch (.error cause)).plane.state = .idle :=
        if_pos hreset
      have hindex : connects.Opener index := (opener_of_dispatched htask).2 hreset.2
      refine ⟨?_, by simp [hstate], fun other hother ↦ ?_, hunique⟩
      · simp only [hstate, hsucceeded, ← h.connected_iff, hreset.1, reduceCtorEq]
      · obtain ⟨hne, hother⟩ := (hopener other).1 hother
        exact absurd (h.opener_unique other index hother hindex) hne
    · have hstate : (connects.closed index request dispatch (.error cause)).plane.state =
          connects.plane.state := if_neg hreset
      refine ⟨?_, fun hconnecting ↦ ?_, fun other hother ↦ ?_, hunique⟩
      · simpa only [hstate, hsucceeded] using h.connected_iff
      · rw [hstate] at hconnecting
        obtain ⟨other, hother⟩ := h.exists_opener hconnecting
        refine ⟨other, (hopener other).2 ⟨?_, hother⟩⟩
        rintro rfl
        exact hreset ⟨hconnecting, (opener_of_dispatched htask).1 hother⟩
      · rw [hstate]
        exact h.ne_idle other ((hopener other).1 hother).2

theorem step (h : connects.StateTells) (step : ConnectStep) : (connects.step step).StateTells := by
  generalize hnext : connects.step step = next
  cases hnext ▸ step_effect connects step with
  | opened htask => exact h.opened htask
  | closed answer htask => exact h.closed htask answer
  | nothing => exact h

/-- From the first step to the last, the state tells how the connects stand. -/
theorem run (h : connects.StateTells) (schedule : List ConnectStep) :
    (connects.run schedule).StateTells := by
  induction schedule generalizing connects with
  | nil => exact h
  | cons step schedule ih => exact ih (h.step step)

end StateTells

theorem stateTells_start (id address : String) (requests : List ConnectRequest) :
    (start id address requests).StateTells := by
  have htask (index : ℕ) : (start id address requests).inFlight? index = none ∧
      (start id address requests).outcome? index = none := by
    simp only [inFlight?, outcome?, start, List.getElem?_map]
    cases requests[index]? <;> exact ⟨rfl, rfl⟩
  have hnone (index : ℕ) : ¬ (start id address requests).Opener index := by
    rintro ⟨dispatch, hdispatch, -⟩
    rw [(htask index).1] at hdispatch
    cases hdispatch
  refine ⟨?_, fun hstate ↦ (by cases hstate), fun index hopener ↦ absurd hopener (hnone index),
    fun index _ hopener ↦ absurd hopener (hnone index)⟩
  simp only [Succeeded, htask, reduceCtorEq, exists_false, iff_false]
  exact fun hstate ↦ by cases hstate

/-- What is in flight was handed over. -/
theorem dispatch?_of_inFlight? {connects : Connects} {index : ℕ} {dispatch : Dispatch}
    (h : connects.inFlight? index = some dispatch) : connects.dispatch? index = some dispatch := by
  obtain ⟨task, htask, hdispatch⟩ := Option.bind_eq_some_iff.1 h
  cases task with
  | dispatched request _ =>
    rw [dispatch?, htask]
    exact hdispatch
  | waiting _ | returned _ _ _ => cases hdispatch

/-- An opener is a connect in flight that began when the node was idle. -/
theorem opener_run_iff {id address : String} {requests : List ConnectRequest}
    {schedule : List ConnectStep} {index : ℕ} :
    ((start id address requests).run schedule).Opener index ↔
      ((start id address requests).run schedule).InFlight index ∧
        (start id address requests).BeginsIdle schedule index := by
  -- a connect in flight remembers whether the node was idle when it began
  have hremembers {before : List ConnectStep} {dispatch : Dispatch}
      (hdispatch : ((start id address requests).run schedule).inFlight? index = some dispatch)
      (hbegins : BeginsAfter schedule before index) :
      dispatch.foundIdle = true ↔
        ((start id address requests).run before).plane.state = .idle := by
    have hhanded := dispatch?_of_inFlight? hdispatch
    obtain ⟨request, hbegun⟩ := exists_begun?_of_dispatch? hhanded
    have hpending : (start id address requests).pending? index = some request := by
      rw [pending?_start, (begun?_start_run.1 hbegun).2]
    rw [dispatch?_eq_of_beginsAfter hbegins hpending, Option.some_inj] at hhanded
    rw [← hhanded]
    exact decide_eq_true_iff
  constructor
  · rintro ⟨dispatch, hdispatch, hfound⟩
    obtain ⟨request, hbegun⟩ := exists_begun?_of_dispatch? (dispatch?_of_inFlight? hdispatch)
    obtain ⟨before, more, hschedule, hbefore⟩ :=
      List.eq_append_cons_of_mem (begun?_start_run.1 hbegun).1
    have hbegins : BeginsAfter schedule before index := ⟨⟨more, by simp [hschedule]⟩, hbefore⟩
    refine ⟨?_, before, hbegins, (hremembers hdispatch hbegins).1 hfound⟩
    rw [InFlight, hdispatch, Option.isSome_some]
  · rintro ⟨hflight, before, hbegins, hidle⟩
    obtain ⟨dispatch, hdispatch⟩ := Option.isSome_iff_exists.1 hflight
    exact ⟨dispatch, hdispatch, (hremembers hdispatch hbegins).2 hidle⟩

/-- A connect that has succeeded is over, and no step changes that. -/
theorem Succeeded.step {connects : Connects} {index : ℕ} (h : connects.Succeeded index)
    (step : ConnectStep) : (connects.step step).Succeeded index := by
  generalize hnext : connects.step step = next
  cases hnext ▸ step_effect connects step with
  | opened htask => exact (succeeded_opened htask index).2 h
  | closed answer htask => exact (succeeded_closed htask answer index).2 (.inr h)
  | nothing => exact h

theorem Succeeded.run {connects : Connects} {index : ℕ} (h : connects.Succeeded index)
    (schedule : List ConnectStep) : (connects.run schedule).Succeeded index := by
  induction schedule generalizing connects with
  | nil => exact h
  | cons step schedule ih => exact ih (h.step step)

/-- However connects overlap and whatever the transport answers: the node is connected just if a
connect has succeeded; it is connecting just if none has and a connect is in flight that began when
the node was idle; and else it is idle.  There is never more than one such connect.  A node that is
connected stays so, and without a connect in flight it is not connecting. -/
theorem state_run_iff (id address : String) (requests : List ConnectRequest)
    (schedule : List ConnectStep) :
    let connects := start id address requests
    let last := connects.run schedule
    (last.plane.state = .connected ↔ ∃ index, last.Succeeded index) ∧
    (last.plane.state = .connecting ↔ (¬ ∃ index, last.Succeeded index) ∧
      ∃ index, last.InFlight index ∧ connects.BeginsIdle schedule index) ∧
    (last.plane.state = .idle ↔ (¬ ∃ index, last.Succeeded index) ∧
      ¬ ∃ index, last.InFlight index ∧ connects.BeginsIdle schedule index) ∧
    (∀ index index', last.InFlight index → connects.BeginsIdle schedule index →
      last.InFlight index' → connects.BeginsIdle schedule index' → index = index') ∧
    (∀ earlier, earlier <+: schedule → (connects.run earlier).plane.state = .connected →
      last.plane.state = .connected) ∧
    ((∀ index, ¬ last.InFlight index) → last.plane.state ≠ .connecting) := by
  intro connects last
  have htells (schedule : List ConnectStep) : (connects.run schedule).StateTells :=
    (stateTells_start id address requests).run schedule
  have hlast : last.StateTells := htells schedule
  have hopener (index : ℕ) :
      last.Opener index ↔ last.InFlight index ∧ connects.BeginsIdle schedule index :=
    opener_run_iff
  simp only [← hopener]
  refine ⟨hlast.connected_iff, hlast.connecting_iff, hlast.idle_iff, ?_, ?_, ?_⟩
  · intro index index' hflight hidle hflight' hidle'
    exact hlast.opener_unique _ _ ((hopener index).2 ⟨hflight, hidle⟩)
      ((hopener index').2 ⟨hflight', hidle'⟩)
  · rintro earlier ⟨more, rfl⟩ hconnected
    obtain ⟨index, hsucceeded⟩ := (htells earlier).connected_iff.1 hconnected
    refine hlast.connected_iff.2 ⟨index, ?_⟩
    show (connects.run (earlier ++ more)).Succeeded index
    rw [run_append]
    exact hsucceeded.run more
  · intro hnone hconnecting
    obtain ⟨index, hindex⟩ := hlast.exists_opener hconnecting
    exact hnone index ((hopener index).1 hindex).1

/-- Three connects: the opener fails while the second is in flight, so that the third opens again;
the second succeeds, and the third fails. -/
def reopeningSteps : List ConnectStep :=
  [.begin 0, .begin 1, .finish 0 (.error .closed), .begin 2, .finish 1 (.ok ()),
    .finish 2 (.error .closed)]

theorem state_run_iff_reopening :
    let requests := [["a:1"], ["b:1"], ["c:1"]].map ConnectRequest.ofAddresses
    let connects := start "n" "" requests
    (connects.run (reopeningSteps.take 3)).plane.state = .idle ∧
    (connects.run (reopeningSteps.take 4)).plane.state = .connecting ∧
    (connects.run reopeningSteps).plane.state = .connected ∧
    ¬ (connects.run reopeningSteps).InFlight 2 := by
  intro requests connects
  have hconnected : (connects.run (reopeningSteps.take 5)).plane.state = .connected := by
    decide +kernel
  obtain ⟨-, -, -, -, hstays, -⟩ := state_run_iff "n" "" requests reopeningSteps
  exact ⟨by decide +kernel, by decide +kernel, hstays _ (List.take_prefix _ _) hconnected,
    by decide +kernel⟩

end Connects

end ServiceMesh

import ServiceMesh.MeshNode
import ServiceMesh.Proofs.ControlPlane.Connects
import ServiceMesh.Proofs.ControlPlane.PeerReports
import ServiceMesh.Proofs.Dials
import ServiceMesh.Proofs.Text

/-!
# A node that reaches out

Connects begin, hand what they gathered to the dialer, and finish when they have its answer.  The
dialer takes batches and starts their dials, dials finish in any order, and the node follows their
reports in the order of arrival.  All these steps may interleave.  What is handed over, dialed,
reported and registered is configured at all times, and what is registered can be dialed.
-/

namespace ServiceMesh

theorem address_dial (address : String) (attempt : Attempt) :
    (dial address attempt).address = address := by
  unfold dial
  split
  · cases attempt <;> rfl
  · rfl

/-- Only an address with a port can be up, and it is reported as it was dialed. -/
theorem of_dial_eq_up {address peer : String} {attempt : Attempt} {latency : ℕ}
    (h : dial address attempt = .up peer latency) : peer = address ∧ hasPort address = true := by
  unfold dial at h
  split at h
  · next hport =>
    cases attempt with
    | connected _ =>
      cases h
      exact ⟨rfl, hport⟩
    | failed _ | timedOut => cases h
  · cases h

namespace ControlPlane

variable {plane : ControlPlane}

/-- Reports do not change what is configured. -/
theorem configuredPeers_follow (plane : ControlPlane) (event : PeerEvent) :
    (plane.follow event).configuredPeers = plane.configuredPeers := by
  cases event with
  | up address latency =>
    rw [follow, register_frame]
    rfl
  | down address reason =>
    rw [follow]
    split
    · by_cases hlocal : address = plane.localId
      · rw [hlocal, remove_local]
      · rw [remove_eq hlocal]
        rfl
    · rfl

/-- To follow a report is one operation at most. -/
theorem follow_eq_perform (plane : ControlPlane) (event : PeerEvent) :
    plane.follow event = plane ∨ ∃ operation, plane.follow event = plane.perform operation := by
  cases event with
  | up address latency => exact .inr ⟨.register address address ∅ (latencyMetric latency), rfl⟩
  | down address reason =>
    rw [follow]
    split
    · exact .inr ⟨.remove address, rfl⟩
    · exact .inl rfl

/-- Reports do not unregister the local node, nor the links from it. -/
theorem anchored_follow (h : plane.registry.Anchored plane.localId) (event : PeerEvent) :
    (plane.follow event).localId = plane.localId ∧
      (plane.follow event).registry.Anchored plane.localId := by
  rcases plane.follow_eq_perform event with hsame | ⟨operation, hoperation⟩
  · rw [hsame]
    exact ⟨rfl, h⟩
  · obtain ⟨hlocal, hchange⟩ := perform_spec h.registered operation
    rw [hoperation]
    exact ⟨hlocal, h.change hchange⟩

/-- A node other than the local one that is registered after a report was registered at the same
address before, or the report tells that it is up. -/
theorem get?_follow (hlocal : plane.registry.contains plane.localId = true) {event : PeerEvent}
    {id : String} {node : Node} (hother : id ≠ plane.localId)
    (h : (plane.follow event).registry.get? id = some node) :
    (∃ former, plane.registry.get? id = some former ∧ former.address = node.address) ∨
      ∃ latency, event = .up id latency ∧ node.address = id := by
  cases event with
  | up peer latency =>
    rw [follow] at h
    by_cases hrefused : peer = "" ∨ peer = plane.localId
    · obtain ⟨cause, hregister⟩ := register_refused hrefused peer ∅ (latencyMetric latency)
      rw [hregister] at h
      exact .inl ⟨node, h, rfl⟩
    · obtain ⟨hnamed, hpeer⟩ := not_or.1 hrefused
      rw [get?_register hlocal hnamed hpeer] at h
      by_cases hsame : id = peer
      · rw [if_pos hsame] at h
        cases h
        exact .inr ⟨latency, by rw [hsame], hsame.symm⟩
      · rw [if_neg hsame] at h
        obtain ⟨former, hformer, hnode⟩ := Option.map_eq_some_iff.1 h
        rw [if_neg hother] at hnode
        exact .inl ⟨former, hformer, by rw [hnode]⟩
  | down peer reason =>
    rw [follow] at h
    split at h
    · next hregistered =>
      by_cases hpeer : peer = plane.localId
      · rw [hpeer, remove_local] at h
        exact .inl ⟨node, h, rfl⟩
      · rw [registry_remove hpeer, Registry.get?_remove hregistered] at h
        split at h
        · cases h
        · obtain ⟨former, hformer, rfl⟩ := Option.map_eq_some_iff.1 h
          exact .inl ⟨former, hformer, rfl⟩
    · exact .inl ⟨node, h, rfl⟩

end ControlPlane

/-- How far a connect has come. -/
inductive ConnectCall where
  | begun (dispatch : Dispatch)
  /-- The addresses are handed over. -/
  | answered (dispatch : Dispatch) (answer : Except TransportError Unit)
  | returned

inductive OutreachStep where
  | begin (request : ConnectRequest)
  | hand (call : ℕ)
  | finish (call : ℕ)
  | take
  | conclude (place : ℕ) (attempt : Attempt)
  | follow

structure Outreach where
  node : MeshNode
  calls : List ConnectCall := []
  ledger : DialLedger := {}

namespace Outreach

def start (id address : String) : Outreach :=
  let plane := ControlPlane.start id address
  { node := { plane, tracker := plane.track } }

def configured (outreach : Outreach) : List String := outreach.node.plane.configuredPeers

def begun (outreach : Outreach) (request : ConnectRequest) : Outreach :=
  let (plane, dispatch) := outreach.node.plane.beginConnect request
  { outreach with
    node := { outreach.node with plane }
    calls := outreach.calls ++ [.begun dispatch] }

def handed (outreach : Outreach) (call : ℕ) (dispatch : Dispatch) : Outreach :=
  let (dialer, answer) := outreach.node.dialer.dispatch dispatch.addresses
  { node := { outreach.node with dialer }
    calls := outreach.calls.set call (.answered dispatch answer)
    ledger := outreach.ledger.hand dispatch.addresses }

def finished (outreach : Outreach) (call : ℕ) (dispatch : Dispatch)
    (answer : Except TransportError Unit) : Outreach :=
  let (plane, _) := outreach.node.plane.finishConnect dispatch answer
  { outreach with
    node := { outreach.node with plane }
    calls := outreach.calls.set call .returned }

def took (outreach : Outreach) : Outreach :=
  { outreach with
    node := { outreach.node with dialer := outreach.node.dialer.takeBatch }
    ledger := outreach.ledger.take }

def concluded (outreach : Outreach) (place : ℕ) (attempt : Attempt) : Outreach :=
  { outreach with
    node := { outreach.node with dialer := outreach.node.dialer.finishDial place attempt }
    ledger := outreach.ledger.conclude place attempt }

def followed (outreach : Outreach) : Outreach :=
  { outreach with node := outreach.node.followReport, ledger := outreach.ledger.follow }

/-- A connect begins, is handed over once and then finishes once; a step that has nothing to do
changes nothing. -/
def step (outreach : Outreach) : OutreachStep → Outreach
  | .begin request => outreach.begun request
  | .hand call =>
    match outreach.calls[call]? with
    | some (.begun dispatch) => outreach.handed call dispatch
    | _ => outreach
  | .finish call =>
    match outreach.calls[call]? with
    | some (.answered dispatch answer) => outreach.finished call dispatch answer
    | _ => outreach
  | .take => outreach.took
  | .conclude place attempt => outreach.concluded place attempt
  | .follow => outreach.followed

def run (outreach : Outreach) (steps : List OutreachStep) : Outreach := steps.foldl step outreach

/-- A connect that goes through without other steps in between is the connect of the node. -/
theorem node_run_connect (outreach : Outreach) (request : ConnectRequest) :
    (outreach.run [.begin request, .hand outreach.calls.length,
      .finish outreach.calls.length]).node = outreach.node.connect request := by
  simp [run, step, begun, handed, finished, MeshNode.connect]

/-- The start of a node is a run. -/
theorem node_run_start (settings : Settings) (random : ℕ) :
    ((start (settings.id random) settings.address).run (if settings.peers.isEmpty then [] else
      [.begin (.ofAddresses settings.peers), .hand 0, .finish 0])).node =
        MeshNode.start settings random := by
  unfold MeshNode.start
  split
  · rfl
  · exact node_run_connect _ _

inductive Effect (outreach : Outreach) : Outreach → Prop where
  | begun (request : ConnectRequest) : Effect outreach (outreach.begun request)
  | handed {call : ℕ} {dispatch : Dispatch}
      (hcall : ConnectCall.begun dispatch ∈ outreach.calls) :
      Effect outreach (outreach.handed call dispatch)
  | finished (call : ℕ) (dispatch : Dispatch) (answer : Except TransportError Unit) :
      Effect outreach (outreach.finished call dispatch answer)
  | took : Effect outreach outreach.took
  | concluded (place : ℕ) (attempt : Attempt) : Effect outreach (outreach.concluded place attempt)
  | followed : Effect outreach outreach.followed
  | nothing : Effect outreach outreach

/-- A step does what its name says, or nothing. -/
theorem step_effect (outreach : Outreach) (step : OutreachStep) :
    outreach.Effect (outreach.step step) := by
  cases step with
  | begin request => exact .begun request
  | hand call =>
    simp only [Outreach.step]
    split
    · next hcall => exact .handed (List.mem_of_getElem? hcall)
    · exact .nothing
  | finish call =>
    simp only [Outreach.step]
    split
    · exact .finished _ _ _
    · exact .nothing
  | take => exact .took
  | conclude place attempt => exact .concluded place attempt
  | follow => exact .followed

variable {outreach next : Outreach}

/-- The ledger is of the dialer, and it holds together. -/
structure Accounted (outreach : Outreach) : Prop where
  dialer_eq : outreach.node.dialer = outreach.ledger.dialer
  balanced : outreach.ledger.Balanced

theorem accounted_start (id address : String) : (start id address).Accounted :=
  ⟨rfl, .empty⟩

/-- The ledger keeps up with the dialer, whatever happens. -/
theorem Accounted.effect (h : outreach.Accounted) (heffect : outreach.Effect next) :
    next.Accounted := by
  cases heffect with
  | begun request => exact ⟨h.dialer_eq, h.balanced⟩
  | finished call dispatch answer => exact ⟨h.dialer_eq, h.balanced⟩
  | nothing => exact h
  | @handed call dispatch hcall =>
    refine ⟨?_, h.balanced.hand _⟩
    rw [handed, h.dialer_eq, h.balanced.dialer_hand]
  | took =>
    refine ⟨?_, h.balanced.take⟩
    rw [took, h.dialer_eq, DialLedger.dialer_take]
  | concluded place attempt =>
    refine ⟨?_, h.balanced.conclude place attempt⟩
    rw [concluded, h.dialer_eq, h.balanced.dialer_conclude]
  | followed =>
    refine ⟨?_, h.balanced.follow⟩
    rcases outreach.ledger.dialer_follow with ⟨hnone, hsame⟩ | ⟨report, _, hreports, hdialer⟩
    · rw [followed, MeshNode.followReport, h.dialer_eq, hnone, hsame]
      exact h.dialer_eq
    · rw [followed, MeshNode.followReport, h.dialer_eq, hreports]
      exact hdialer.symm

/-- A connect that begins is configured at once, before anything is dialed. -/
theorem mem_configured_begun (outreach : Outreach) (request : ConnectRequest) (peer : String) :
    peer ∈ (outreach.begun request).configured ↔
      peer ∈ outreach.configured ∨ peer ∈ ControlPlane.trimmedAddresses request.addresses :=
  outreach.node.plane.mem_configuredPeers_beginConnect request peer

theorem configured_finished (outreach : Outreach) (call : ℕ) (dispatch : Dispatch)
    (answer : Except TransportError Unit) :
    (outreach.finished call dispatch answer).configured = outreach.configured := by
  cases answer <;> rfl

theorem configured_followed (outreach : Outreach) :
    outreach.followed.configured = outreach.configured := by
  rw [configured, followed, MeshNode.followReport]
  split
  · rfl
  · exact ControlPlane.configuredPeers_follow _ _

namespace Effect

/-- Configured addresses are never given up. -/
theorem configured_subset (heffect : outreach.Effect next) :
    outreach.configured ⊆ next.configured := by
  cases heffect with
  | begun request => exact fun peer hpeer ↦ (mem_configured_begun _ _ peer).2 (.inl hpeer)
  | finished call dispatch answer =>
    rw [configured_finished]
    exact List.Subset.refl _
  | followed =>
    rw [configured_followed]
    exact List.Subset.refl _
  | handed _ | took | concluded _ _ | nothing => exact List.Subset.refl _

/-- What is configured anew is trimmed. -/
theorem mem_configured (heffect : outreach.Effect next) {peer : String}
    (h : peer ∈ next.configured) :
    peer ∈ outreach.configured ∨ peer ≠ "" ∧ Text.trim peer = peer := by
  cases heffect with
  | begun request =>
    apply ((mem_configured_begun _ _ peer).1 h).imp_right
    intro hgiven
    obtain ⟨hnamed, given, _, rfl⟩ := Connects.mem_trimmedAddresses.1 hgiven
    exact ⟨hnamed, Text.trim_trim given⟩
  | finished call dispatch answer => exact .inl (configured_finished _ _ _ _ ▸ h)
  | followed => exact .inl (outreach.configured_followed ▸ h)
  | handed _ | took | concluded _ _ | nothing => exact .inl h

/-- A connect that begins is to hand over all that is configured then. -/
theorem mem_calls (heffect : outreach.Effect next) {dispatch : Dispatch}
    (h : .begun dispatch ∈ next.calls) :
    .begun dispatch ∈ outreach.calls ∨ dispatch.addresses = next.configured := by
  cases heffect with
  | begun request =>
    apply (List.mem_append.1 h).imp_right
    intro hlast
    cases List.mem_singleton.1 hlast
    rfl
  | handed _ | finished _ _ _ =>
    rcases List.mem_or_eq_of_mem_set h with hmem | heq
    · exact .inl hmem
    · cases heq
  | took | concluded _ _ | followed | nothing => exact .inl h

/-- A batch that is handed over is what a connect was to hand over. -/
theorem mem_handed (heffect : outreach.Effect next) {batch : List String}
    (h : batch ∈ next.ledger.handed) :
    batch ∈ outreach.ledger.handed ∨
      ∃ dispatch, .begun dispatch ∈ outreach.calls ∧ batch = dispatch.addresses := by
  cases heffect with
  | @handed call dispatch hcall =>
    apply (List.mem_append.1 h).imp_right
    exact fun hlast ↦ ⟨dispatch, hcall, List.mem_singleton.1 hlast⟩
  | begun _ | finished _ _ _ | nothing => exact .inl h
  | took => exact .inl (outreach.ledger.handed_take ▸ h)
  | concluded place attempt => exact .inl (outreach.ledger.handed_conclude place attempt ▸ h)
  | followed => exact .inl (outreach.ledger.handed_follow ▸ h)

end Effect

/-- All addresses on the way to the dialer are configured, and configured addresses are trimmed. -/
structure Gathered (outreach : Outreach) : Prop where
  begun : ∀ dispatch, .begun dispatch ∈ outreach.calls →
    dispatch.addresses ⊆ outreach.configured
  handed : ∀ batch ∈ outreach.ledger.handed, batch ⊆ outreach.configured
  trimmed : ∀ peer ∈ outreach.configured, peer ≠ "" ∧ Text.trim peer = peer

theorem gathered_start (id address : String) : (start id address).Gathered where
  begun dispatch hmem := by cases hmem
  handed batch hmem := by cases hmem
  trimmed peer hmem := by cases hmem

/-- Nothing gets on its way to the dialer that is not configured. -/
theorem Gathered.effect (h : outreach.Gathered) (heffect : outreach.Effect next) :
    next.Gathered where
  begun dispatch hmem := by
    rcases heffect.mem_calls hmem with hmem | hall
    · exact List.Subset.trans (h.begun dispatch hmem) heffect.configured_subset
    · rw [hall]
      exact List.Subset.refl _
  handed batch hmem := by
    rcases heffect.mem_handed hmem with hmem | ⟨dispatch, hcall, rfl⟩
    · exact List.Subset.trans (h.handed batch hmem) heffect.configured_subset
    · exact List.Subset.trans (h.begun dispatch hcall) heffect.configured_subset
  trimmed peer hpeer := (heffect.mem_configured hpeer).elim (h.trimmed peer) id

/-! ## What is registered can be dialed -/

/-- All dials are of configured addresses. -/
theorem Gathered.address_mem (h : outreach.Gathered) {entry : DialEntry}
    (hentry : outreach.ledger.Holds entry) : entry.address ∈ outreach.configured := by
  obtain ⟨batch, hbatch, haddress⟩ := hentry
  exact h.handed batch (List.mem_of_getElem? hbatch) (List.mem_of_getElem? haddress)

/-- The local node is the anchor, and all other nodes are registered at configured addresses that can
be dialed. -/
structure Vetted (outreach : Outreach) (localId : String) : Prop where
  localId_eq : outreach.node.plane.localId = localId
  anchored : outreach.node.plane.registry.Anchored localId
  registered : ∀ id node, outreach.node.plane.registry.get? id = some node → id ≠ localId →
    node.address = id ∧ id ∈ outreach.configured ∧ hasPort id = true

theorem vetted_start (id address : String) : (start id address).Vetted id where
  localId_eq := rfl
  anchored := .start id address ∅
  registered other node hnode hother := by
    have hnone : (Registry.insert {} id address ∅).get? other = none :=
      Registry.get?_insert_of_ne _ hother _ _
    cases hnone.symm.trans hnode

/-- Only reports change the registry. -/
theorem Effect.plane_cases (heffect : outreach.Effect next) (h : outreach.Accounted) :
    next.node.plane.localId = outreach.node.plane.localId ∧
      next.node.plane.registry = outreach.node.plane.registry ∨
    ∃ report ∈ outreach.ledger.reports,
      next.node.plane = outreach.node.plane.follow report.2 := by
  cases heffect with
  | finished call dispatch answer => cases answer <;> exact .inl ⟨rfl, rfl⟩
  | begun _ | handed _ | took | concluded _ _ | nothing => exact .inl ⟨rfl, rfl⟩
  | followed =>
    rcases outreach.ledger.dialer_follow with ⟨hnone, _⟩ | ⟨report, hreport, hreports, _⟩
    · rw [Outreach.followed, MeshNode.followReport, h.dialer_eq, hnone]
      exact .inl ⟨rfl, rfl⟩
    · rw [Outreach.followed, MeshNode.followReport, h.dialer_eq, hreports]
      exact .inr ⟨report, hreport, rfl⟩

/-- A report that a peer is up is of a configured address that can be dialed. -/
theorem mem_configured_of_up (haccounted : outreach.Accounted) (hgathered : outreach.Gathered)
    {report : DialEntry × PeerEvent} (hreport : report ∈ outreach.ledger.reports) {peer : String}
    {latency : ℕ} (hup : report.2 = .up peer latency) :
    peer ∈ outreach.configured ∧ hasPort peer = true := by
  obtain ⟨attempt, hdial⟩ := haccounted.balanced.reported report hreport
  obtain ⟨rfl, hport⟩ := of_dial_eq_up (hdial.symm.trans hup)
  have hdialed : report.1 ∈ outreach.ledger.dialed :=
    List.mem_append_right _ (List.mem_map_of_mem hreport)
  exact ⟨hgathered.address_mem (haccounted.balanced.mem_dialed_iff.1 hdialed).1, hport⟩

/-- A node comes into the registry by a report of its dial, and only dials of configured addresses
with a port report success. -/
theorem Vetted.effect {localId : String} (h : outreach.Vetted localId)
    (haccounted : outreach.Accounted) (hgathered : outreach.Gathered)
    (heffect : outreach.Effect next) : next.Vetted localId := by
  have hsubset := heffect.configured_subset
  rcases heffect.plane_cases haccounted with ⟨hlocal, hregistry⟩ | ⟨report, hreport, hplane⟩
  · refine ⟨hlocal.trans h.localId_eq, hregistry ▸ h.anchored, fun id node hnode hother ↦ ?_⟩
    rw [hregistry] at hnode
    exact (h.registered id node hnode hother).imp_right (And.imp_left (hsubset ·))
  · have hanchored : outreach.node.plane.registry.Anchored outreach.node.plane.localId :=
      h.localId_eq.symm ▸ h.anchored
    obtain ⟨hlocal, hnext⟩ := ControlPlane.anchored_follow hanchored report.2
    rw [h.localId_eq] at hlocal hnext
    refine ⟨hplane ▸ hlocal, hplane ▸ hnext, fun id node hnode hother ↦ ?_⟩
    rw [hplane] at hnode
    rcases ControlPlane.get?_follow hanchored.registered (h.localId_eq.symm ▸ hother) hnode with
      ⟨former, hformer, haddress⟩ | ⟨latency, hup, haddress⟩
    · obtain ⟨hid, hconfigured, hport⟩ := h.registered id former hformer hother
      exact ⟨haddress.symm.trans hid, hsubset hconfigured, hport⟩
    · obtain ⟨hconfigured, hport⟩ := mem_configured_of_up haccounted hgathered hreport hup
      exact ⟨haddress, hsubset hconfigured, hport⟩

/-- All three invariants hold at the start and are kept by every step. -/
theorem run_start (id address : String) (steps : List OutreachStep) :
    ((start id address).run steps).Accounted ∧ ((start id address).run steps).Gathered ∧
      ((start id address).run steps).Vetted id := by
  induction steps using List.reverseRecOn with
  | nil => exact ⟨accounted_start id address, gathered_start id address, vetted_start id address⟩
  | append_singleton steps step ih =>
    obtain ⟨haccounted, hgathered, hvetted⟩ := ih
    have heffect := ((start id address).run steps).step_effect step
    rw [run, List.foldl_concat]
    exact ⟨haccounted.effect heffect, hgathered.effect heffect,
      hvetted.effect haccounted hgathered heffect⟩

/-- Let the steps of a new node and its dialer interleave in any way.  A ledger of its dials tells of
just the batches that wait, the dials that run and the reports that wait.  All that connects have to
hand over, that was handed over, dialed or reported, is configured.  An entry of a batch is dialed
once if the batch was taken, and not at all before; it has reported once if its dial does not run any
more, and not at all before.  Any registered node but the local one has its id as its address, which
is configured, trimmed, not empty, and has a port. -/
theorem registers_dialable_peers (id address : String) (steps : List OutreachStep) :
    let last := (start id address).run steps
    last.node.dialer = last.ledger.dialer ∧
    (∀ dispatch, .begun dispatch ∈ last.calls → dispatch.addresses ⊆ last.configured) ∧
    (∀ batch ∈ last.ledger.handed, batch ⊆ last.configured) ∧
    (∀ entry ∈ last.ledger.dialed,
      last.ledger.Holds entry ∧ entry.address ∈ last.configured) ∧
    (∀ report ∈ last.ledger.reports, report.2.address ∈ last.configured ∧
      ∃ attempt, report.2 = dial report.1.address attempt) ∧
    (∀ entry, last.ledger.Holds entry →
      last.ledger.dialed.count entry = if entry.batch < last.ledger.taken then 1 else 0) ∧
    (∀ entry, last.ledger.Holds entry →
      (last.ledger.reports.map Prod.fst).count entry =
        if entry.batch < last.ledger.taken ∧ entry ∉ last.ledger.running then 1 else 0) ∧
    ∀ other node, last.node.plane.registry.get? other = some node → other ≠ id →
      node.address = other ∧ other ∈ last.configured ∧ Text.trim other = other ∧ other ≠ "" ∧
        hasPort other = true := by
  intro last
  obtain ⟨haccounted, hgathered, hvetted⟩ := run_start id address steps
  have hbalanced := haccounted.balanced
  have hdialed {entry : DialEntry} (hentry : entry ∈ last.ledger.dialed) :
      last.ledger.Holds entry ∧ entry.address ∈ last.configured := by
    have hholds := (hbalanced.mem_dialed_iff.1 hentry).1
    exact ⟨hholds, hgathered.address_mem hholds⟩
  refine ⟨haccounted.dialer_eq, hgathered.begun, hgathered.handed, fun _ ↦ hdialed,
    fun report hreport ↦ ?_, fun _ ↦ hbalanced.count_dialed, fun _ ↦ hbalanced.count_reports,
    fun other node hnode hother ↦ ?_⟩
  · obtain ⟨attempt, hdial⟩ := hbalanced.reported report hreport
    refine ⟨?_, attempt, hdial⟩
    rw [hdial, address_dial]
    exact (hdialed (List.mem_append_right _ (List.mem_map_of_mem hreport))).2
  · obtain ⟨haddress, hconfigured, hport⟩ := hvetted.registered other node hnode hother
    obtain ⟨hnamed, htrimmed⟩ := hgathered.trimmed other hconfigured
    exact ⟨haddress, hconfigured, htrimmed, hnamed, hport⟩

/-- Two connects overlap, and the dials of the later batch finish first. -/
def overlappingSteps : List OutreachStep :=
  [.begin (.ofAddresses [" a:1", "b"]), .begin (.ofAddresses ["c:1"]), .hand 0, .take, .hand 1,
    .take, .conclude 2 (.connected 1), .follow, .conclude 1 .timedOut, .finish 0, .follow]

theorem registers_dialable_peers_overlapping :
    let last := (start "n" "n:1").run overlappingSteps
    last.configured = ["a:1", "b", "c:1"] ∧
    last.ledger.dialed.count ⟨1, 0, "a:1"⟩ = 1 ∧
    (last.ledger.reports.map Prod.fst).count ⟨0, 0, "a:1"⟩ = 0 ∧
    (last.ledger.reports.map Prod.fst).count ⟨0, 1, "b"⟩ = 1 ∧
    last.node.plane.registry.get? "a:1" = some { address := "a:1" } ∧
    Text.trim "a:1" = "a:1" := by
  intro last
  obtain ⟨_, _, _, _, _, hdialed, hreported, hregistered⟩ :=
    registers_dialable_peers "n" "n:1" overlappingSteps
  have hnode : last.node.plane.registry.get? "a:1" = some { address := "a:1" } := by
    decide +kernel
  refine ⟨by decide +kernel, ?_, ?_, ?_, hnode, ?_⟩
  · exact (hdialed ⟨1, 0, "a:1"⟩ ⟨["a:1", "b", "c:1"], by decide +kernel, rfl⟩).trans
      (by decide +kernel)
  · exact (hreported ⟨0, 0, "a:1"⟩ ⟨["a:1", "b"], by decide +kernel, rfl⟩).trans
      (by decide +kernel)
  · exact (hreported ⟨0, 1, "b"⟩ ⟨["a:1", "b"], by decide +kernel, rfl⟩).trans
      (by decide +kernel)
  · exact (hregistered "a:1" _ hnode (by decide)).2.2.1

end Outreach

end ServiceMesh

import Mathlib.Logic.Function.Iterate
import ServiceMesh.Proofs.StartupPeers
import ServiceMesh.Proofs.Text

/-!
# The timer that refreshes peers

Whatever is set, a node has an id, and its peers are well written.  Refreshes go on as long as the
node runs, and each one hands all configured peers to the dialer, if the interval between them is
longer than zero.  What is no number has the default for its value, but zero is a number, so a node
with the interval zero has no timer and never dials a peer again.
-/

namespace ServiceMesh

namespace MeshNode

variable {node : MeshNode}

theorem configuredPeers_refresh (node : MeshNode) :
    node.refresh.plane.configuredPeers = node.plane.configuredPeers := by
  unfold refresh connect Dialer.dispatch
  cases node.dialer.closed <;> rfl

/-- A refresh hands all configured peers over. -/
theorem dialer_refresh (hopen : node.dialer.closed = false) :
    node.refresh.dialer = { node.dialer with
      batches := node.dialer.batches ++ [node.plane.configuredPeers] } := by
  have hdispatch (addresses : List String) : node.dialer.dispatch addresses =
      ({ node.dialer with batches := node.dialer.batches ++ [addresses] }, .ok ()) :=
    if_neg (Bool.eq_false_iff.1 hopen)
  simp only [refresh, connect, hdispatch]
  rfl

/-- Nothing that a refresh does changes what the next one hands over. -/
theorem batches_iterate_refresh (hopen : node.dialer.closed = false) (count : ℕ) :
    (refresh^[count] node).dialer.batches =
      node.dialer.batches ++ List.replicate count node.plane.configuredPeers := by
  induction count generalizing node with
  | zero => exact (List.append_nil _).symm
  | succ count ih =>
    have hnext : node.refresh.dialer.closed = false := by rw [dialer_refresh hopen, hopen]
    rw [Function.iterate_succ_apply, ih hnext, dialer_refresh hopen, configuredPeers_refresh,
      List.append_assoc]
    rfl

theorem closed_start (settings : Settings) (random : ℕ) :
    (start settings random).dialer.closed = false := by
  rw [start]
  split <;> rfl

end MeshNode

namespace Settings

/-- A node that is given no id, or an empty one, makes up its own. -/
theorem id_ne_empty (lookup : String → Option String) (random : ℕ) :
    (ofLookup lookup).id random ≠ "" := by
  rw [id, ofLookup]
  cases hgiven : (lookup "MESH_NODE_ID").filter (· ≠ "") with
  | none => simp [randomId, ← String.toList_inj]
  | some given => simpa using (Option.filter_eq_some_iff.1 hgiven).2

theorem peers_well_written {lookup : String → Option String} {peer : String}
    (h : peer ∈ (ofLookup lookup).peers) :
    peer ≠ "" ∧ Text.trim peer = peer ∧ ',' ∉ peer.toList := by
  rw [ofLookup] at h
  cases hvalue : lookup "MESH_PEERS" with
  | none => simp [hvalue] at h
  | some value =>
    have hitem : peer ∈ listItems value := by simpa [hvalue] using h
    have htrimmed := hitem
    rw [listItems_eq, Connects.mem_trimmedAddresses] at htrimmed
    obtain ⟨hne, given, -, rfl⟩ := htrimmed
    exact ⟨hne, Text.trim_trim given, comma_not_mem_of_mem_listItems hitem⟩

/-- Only a numeral that is zero gives zero, for a text that is no number gives the default. -/
theorem numberOr_eq_zero_iff {default : ℕ} (hdefault : default ≠ 0) {value : Option String} :
    numberOr default value = 0 ↔ ∃ text ∈ value, Text.IsZero text.toList := by
  rw [numberOr]
  cases value with
  | none => simpa using hdefault
  | some text =>
    simp only [Option.bind_some, Option.mem_some_iff, exists_eq_left']
    rw [← Text.numeral?_eq_zero_iff]
    cases Text.numeral? (UInt64.size - 1) text.toList with
    | none => simpa using hdefault
    | some number => simp

/-- The timer is lost to a zero that is set, and to nothing else. -/
theorem refreshPeriod?_ofLookup_eq_none_iff {lookup : String → Option String} :
    (ofLookup lookup).refreshPeriod? = none ↔
      ∃ text ∈ lookup "MESH_TOPOLOGY_INTERVAL_SECS", Text.IsZero text.toList := by
  rw [refreshPeriod?, ite_eq_left_iff, ofLookup, ← numberOr_eq_zero_iff (by decide : 30 ≠ 0)]
  simp only [reduceCtorEq, imp_false, not_not]

theorem refreshPeriod?_eq_some_iff {settings : Settings} {period : ℕ} :
    settings.refreshPeriod? = some period ↔ settings.refreshSeconds = period ∧ 0 < period := by
  rw [refreshPeriod?, Option.ite_none_left_eq_some, Option.some_inj, and_comm]
  exact and_congr_right fun heq ↦ heq ▸ Nat.pos_iff_ne_zero.symm

theorem mem_configuredPeers_start {lookup : String → Option String} {random : ℕ} {peer : String} :
    peer ∈ (MeshNode.start (ofLookup lookup) random).plane.configuredPeers ↔
      peer ∈ (ofLookup lookup).peers := by
  have htrimmed :
      ControlPlane.trimmedAddresses (ofLookup lookup).peers = (ofLookup lookup).peers := by
    rw [peers_ofLookup, ControlPlane.trimmedAddresses_trimmedAddresses]
  rw [plane_start, configuredPeers_startUp, htrimmed, NameMap.mem_names_iff,
    NameSet.contains_addAll]
  exact or_iff_right Bool.false_ne_true

/-- A node after so many full periods in which it does nothing but refresh its peers. -/
def refreshed (settings : Settings) (random periods : ℕ) : MeshNode :=
  MeshNode.refresh^[settings.refreshCount periods] (MeshNode.start settings random)

/-- Without a timer nothing happens, however long the node runs. -/
theorem refreshed_of_no_timer {settings : Settings} (h : settings.refreshPeriod? = none)
    (random periods : ℕ) : settings.refreshed random periods = MeshNode.start settings random := by
  rw [refreshed, refreshCount, h]
  rfl

/-- Every full period hands over the same peers once more. -/
theorem batches_refreshed {settings : Settings} {period : ℕ}
    (h : settings.refreshPeriod? = some period) (random periods : ℕ) :
    (settings.refreshed random periods).dialer.batches =
      (MeshNode.start settings random).dialer.batches ++
        List.replicate periods (MeshNode.start settings random).plane.configuredPeers := by
  have hcount : settings.refreshCount periods = periods := by
    rw [refreshCount, h]
    rfl
  rw [refreshed, hcount]
  exact MeshNode.batches_iterate_refresh (MeshNode.closed_start settings random) periods

/-- Whatever is set, a node has an id that is not empty, and its peers are trimmed, not empty and
free of commas.  It has no timer just if its interval is set to zero, and then it stays as it
started, however long it runs.  Otherwise its timer has a period longer than zero, and in every
period it hands its configured peers to the dialer, which are those of its settings. -/
theorem refreshes_unless_interval_zero (lookup : String → Option String) (random : ℕ) :
    let settings := ofLookup lookup
    let node := MeshNode.start settings random
    settings.id random ≠ "" ∧
    (∀ peer ∈ settings.peers, peer ≠ "" ∧ Text.trim peer = peer ∧ ',' ∉ peer.toList) ∧
    (∀ peer, peer ∈ node.plane.configuredPeers ↔ peer ∈ settings.peers) ∧
    (settings.refreshPeriod? = none ↔
      ∃ text ∈ lookup "MESH_TOPOLOGY_INTERVAL_SECS", Text.IsZero text.toList) ∧
    (settings.refreshPeriod? = none → ∀ periods, settings.refreshed random periods = node) ∧
    ∀ period, settings.refreshPeriod? = some period → 0 < period ∧
      ∀ periods, (settings.refreshed random periods).dialer.batches =
        node.dialer.batches ++ List.replicate periods node.plane.configuredPeers := by
  intro settings node
  refine ⟨id_ne_empty lookup random, fun peer ↦ peers_well_written,
    fun peer ↦ mem_configuredPeers_start, refreshPeriod?_ofLookup_eq_none_iff,
    fun hnone ↦ refreshed_of_no_timer hnone random, fun period hperiod ↦ ?_⟩
  exact ⟨(refreshPeriod?_eq_some_iff.1 hperiod).2, batches_refreshed hperiod random⟩

/-- The variables of a node with two peers and an interval. -/
def variablesWith (interval name : String) : Option String :=
  [("MESH_NODE_ID", "n"), ("MESH_PEERS", " b:2 ,, a:1"),
    ("MESH_TOPOLOGY_INTERVAL_SECS", interval)].lookup name

theorem refreshes_unless_interval_zero_seven :
    let settings := ofLookup (variablesWith "+007")
    let timerless := ofLookup (variablesWith "+00")
    "b:2" ∈ settings.peers ∧ Text.trim "b:2" = "b:2" ∧ settings.refreshPeriod? = some 7 ∧
    (settings.refreshed 0 2).dialer.batches = List.replicate 3 ["a:1", "b:2"] ∧
    timerless.refreshPeriod? = none ∧
    (timerless.refreshed 0 2).dialer.batches = [["a:1", "b:2"]] := by
  intro settings timerless
  obtain ⟨-, hpeers, -, -, -, hperiods⟩ := refreshes_unless_interval_zero (variablesWith "+007") 0
  obtain ⟨-, -, -, -, hstays, -⟩ := refreshes_unless_interval_zero (variablesWith "+00") 0
  have hpeer : "b:2" ∈ settings.peers := by decide +kernel
  have hperiod : settings.refreshPeriod? = some 7 := by decide +kernel
  have hnone : timerless.refreshPeriod? = none := by decide +kernel
  refine ⟨hpeer, (hpeers "b:2" hpeer).2.1, hperiod, ((hperiods 7 hperiod).2 2).trans ?_, hnone, ?_⟩
  · decide +kernel
  · rw [hstays hnone 2]
    decide +kernel

/-- With the interval zero, peers are dialed at the start and never again. -/
theorem interval_zero_ends_refreshes :
    let settings := ofLookup (variablesWith "0")
    ¬ 0 < settings.refreshSeconds ∧ settings.refreshPeriod? = none ∧
    ∀ periods, (settings.refreshed 0 periods).dialer.batches = [["a:1", "b:2"]] := by
  intro settings
  have hnone : settings.refreshPeriod? = none := by decide +kernel
  refine ⟨by decide +kernel, hnone, fun periods ↦ ?_⟩
  rw [refreshed_of_no_timer hnone]
  decide +kernel

end Settings

end ServiceMesh

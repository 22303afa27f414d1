import Mathlib.Data.String.Basic
import ServiceMesh.MeshNode
import ServiceMesh.Proofs.ControlPlane.Connects
import ServiceMesh.Proofs.Text

/-!
# Peers at the start

The peers of the settings are the items of a list that is cut at its commas, each without the blanks
around it, and without those that are empty then.  A connect takes blanks and empty addresses off
once more, which changes nothing, and keeps the addresses as a set: so after the start the configured
peers are these items in ascending order, each once, as they would be had the connect been given the
items as they were cut.
-/

namespace ServiceMesh

theorem ConnectRequest.addresses_ofAddresses (addresses : List String) :
    (ofAddresses addresses).addresses = addresses := by
  rw [ofAddresses, ConnectRequest.addresses, List.map_map]
  exact List.map_id' _

namespace ControlPlane

theorem trimmedAddresses_append (addresses more : List String) :
    trimmedAddresses (addresses ++ more) =
      trimmedAddresses addresses ++ trimmedAddresses more := by
  rw [trimmedAddresses, List.map_append, List.filter_append]
  rfl

/-- Addresses that are trimmed and not empty all stay. -/
theorem trimmedAddresses_trimmedAddresses (addresses : List String) :
    trimmedAddresses (trimmedAddresses addresses) = trimmedAddresses addresses := by
  have hself : ∀ address ∈ trimmedAddresses addresses, Text.trim address = address := by
    intro address hmem
    obtain ⟨-, given, -, rfl⟩ := Connects.mem_trimmedAddresses.1 hmem
    exact Text.trim_trim given
  have htrim : (trimmedAddresses addresses).map Text.trim = trimmedAddresses addresses :=
    (List.map_congr_left hself).trans (List.map_id' _)
  rw [trimmedAddresses, htrim, trimmedAddresses, List.filter_filter]
  simp only [Bool.and_self]

/-- What the transport answers does not matter to the peers. -/
theorem configuredPeers_connect_start (id address : String) (request : ConnectRequest)
    (answer : Except TransportError Unit) :
    ((start id address).connect request answer).1.configuredPeers =
      (NameSet.addAll ∅ (trimmedAddresses request.addresses)).names := by
  cases answer <;> rfl

end ControlPlane

namespace Settings

def rawItems (value : String) : List String :=
  (value.toList.splitOn ',').map String.ofList

/-- The list parser and the connect trim in the same way. -/
theorem listItems_eq (value : String) :
    listItems value = ControlPlane.trimmedAddresses (rawItems value) := by
  rw [listItems, ControlPlane.trimmedAddresses, rawItems, Text.pieces_eq_splitOn, List.map_map]
  congr 2
  funext piece
  rw [Function.comp_apply, Text.trim, String.toList_ofList]

/-- An item is what is left of a piece between two commas, unless nothing is. -/
theorem mem_listItems_iff {value item : String} :
    item ∈ listItems value ↔
      item ≠ "" ∧ ∃ piece ∈ value.toList.splitOn ',', Text.TrimmedTo piece item.toList := by
  rw [listItems_eq, Connects.mem_trimmedAddresses, rawItems]
  refine and_congr_right' ?_
  have htrim (piece : List Char) :
      Text.trim (String.ofList piece) = item ↔ Text.TrimmedTo piece item.toList := by
    rw [← String.toList_inj, Text.trim, String.toList_ofList, String.toList_ofList,
      Text.trimChars_eq_iff]
  simp only [List.mem_map, exists_exists_and_eq_and, htrim]

theorem rawItems_append (value value' : String) :
    rawItems (value ++ "," ++ value') = rawItems value ++ rawItems value' := by
  have hcomma : (value ++ "," ++ value').toList = value.toList ++ ',' :: value'.toList := by simp
  rw [rawItems, hcomma, List.splitOn_append_cons_self, List.map_append]
  rfl

/-- A comma between two lists makes one list of them. -/
theorem listItems_append (value value' : String) :
    listItems (value ++ "," ++ value') = listItems value ++ listItems value' := by
  rw [listItems_eq, rawItems_append, ControlPlane.trimmedAddresses_append, ← listItems_eq,
    ← listItems_eq]

theorem comma_not_mem_of_mem_listItems {value item : String} (h : item ∈ listItems value) :
    ',' ∉ item.toList := by
  rw [listItems, List.mem_filter, List.mem_map] at h
  obtain ⟨⟨piece, hpiece, rfl⟩, -⟩ := h
  rw [String.toList_ofList]
  exact fun hmem ↦ Text.not_mem_of_mem_pieces hpiece ((Text.trimChars_sublist piece).subset hmem)

/-- The items of a list that is put together from items. -/
theorem listItems_intercalate (value : String) :
    listItems (",".intercalate (listItems value)) = listItems value := by
  by_cases hnone : listItems value = []
  · rw [hnone]
    decide +kernel
  · have hcut : rawItems (",".intercalate (listItems value)) = listItems value := by
      have hpieces : ∀ piece ∈ (listItems value).map String.toList, ',' ∉ piece :=
        List.forall_mem_map.2 fun _ ↦ comma_not_mem_of_mem_listItems
      have hcomma : ",".toList = [','] := rfl
      rw [rawItems, String.toList_intercalate, hcomma,
        List.splitOn_intercalate ',' hpieces (by simpa using hnone), List.map_map]
      exact List.map_id'' (fun _ ↦ String.ofList_toList) _
    rw [listItems_eq, hcut, listItems_eq, ControlPlane.trimmedAddresses_trimmedAddresses]

/-- The control plane of a node after the connect at its start, which is left out if there are no
peers in the settings. -/
def startUp (settings : Settings) (random : ℕ) (answer : Except TransportError Unit) :
    ControlPlane :=
  let plane := ControlPlane.start (settings.id random) settings.address
  if settings.peers.isEmpty then plane else (plane.connect (.ofAddresses settings.peers) answer).1

/-- The dialer of a new node takes the batch. -/
theorem plane_start (settings : Settings) (random : ℕ) :
    (MeshNode.start settings random).plane = settings.startUp random (.ok ()) := by
  rw [MeshNode.start, startUp]
  split <;> rfl

theorem configuredPeers_startUp (settings : Settings) (random : ℕ)
    (answer : Except TransportError Unit) :
    (settings.startUp random answer).configuredPeers =
      (NameSet.addAll ∅ (ControlPlane.trimmedAddresses settings.peers)).names := by
  rw [startUp]
  split
  · next hnone =>
    rw [List.isEmpty_iff.1 hnone]
    rfl
  · rw [ControlPlane.configuredPeers_connect_start, ConnectRequest.addresses_ofAddresses]

theorem peers_ofLookup (lookup : String → Option String) :
    (ofLookup lookup).peers =
      ControlPlane.trimmedAddresses (((lookup "MESH_PEERS").map rawItems).getD []) := by
  rw [ofLookup]
  cases lookup "MESH_PEERS" with
  | none => rfl
  | some value => exact listItems_eq value

/-- Without a list there are no peers. -/
theorem mem_peers_ofLookup {lookup : String → Option String} {peer : String} :
    peer ∈ (ofLookup lookup).peers ↔ peer ≠ "" ∧ ∃ value ∈ lookup "MESH_PEERS",
      ∃ item ∈ value.toList.splitOn ',', Text.TrimmedTo item peer.toList := by
  rw [ofLookup]
  cases lookup "MESH_PEERS" with
  | none => simp
  | some value => simpa using mem_listItems_iff

/-- Whatever list of peers is set, if any, and whatever the transport answers, a node that has
started has just the items of the list for its configured peers, in ascending order: what is left of
them when the list is cut at its commas and blanks are taken off both ends, unless nothing is.  A
connect to the items as they are cut would give the same peers.  Two lists with a comma between them
have the items of both, and items with commas between them are the items of the list so made. -/
theorem startUp_configures_listed_peers (lookup : String → Option String) (random : ℕ)
    (answer : Except TransportError Unit) :
    let settings := ofLookup lookup
    let peers := (settings.startUp random answer).configuredPeers
    let cut := ((lookup "MESH_PEERS").map rawItems).getD []
    (peers.Pairwise (· < ·) ∧
      ∀ peer, peer ∈ peers ↔ peer ≠ "" ∧ ∃ value ∈ lookup "MESH_PEERS",
        ∃ item ∈ value.toList.splitOn ',', Text.TrimmedTo item peer.toList) ∧
    (MeshNode.start settings random).plane.configuredPeers = peers ∧
    ((ControlPlane.start (settings.id random) settings.address).connect (.ofAddresses cut)
      answer).1.configuredPeers = peers ∧
    (∀ value value', listItems (value ++ "," ++ value') = listItems value ++ listItems value') ∧
    ∀ value, listItems (",".intercalate (listItems value)) = listItems value := by
  intro settings peers cut
  have hpeers : peers = (NameSet.addAll ∅ settings.peers).names := by
    have htrimmed : ControlPlane.trimmedAddresses settings.peers = settings.peers := by
      rw [peers_ofLookup, ControlPlane.trimmedAddresses_trimmedAddresses]
    rw [← htrimmed]
    exact configuredPeers_startUp settings random answer
  refine ⟨⟨NameMap.names_ascending _, fun peer ↦ ?mem⟩, ?node, ?cut, listItems_append,
    listItems_intercalate⟩
  case mem =>
    rw [← mem_peers_ofLookup, hpeers, NameMap.mem_names_iff, NameSet.contains_addAll]
    exact or_iff_right Bool.false_ne_true
  case node =>
    rw [plane_start]
    exact (configuredPeers_startUp _ _ _).trans (configuredPeers_startUp _ _ _).symm
  case cut =>
    rw [hpeers, peers_ofLookup, ControlPlane.configuredPeers_connect_start,
      ConnectRequest.addresses_ofAddresses]

end Settings

end ServiceMesh

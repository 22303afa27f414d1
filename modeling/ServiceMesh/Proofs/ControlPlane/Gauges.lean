import ServiceMesh.Proofs.ControlPlane.Anchor

/-!
# Gauges and counters

Whatever changes the number of nodes or of routes sets its gauge afterwards, and whatever is refused
changes neither.  A connect is counted when it begins, and once more when the transport refuses it.
So between operations the metrics tell the state, as words of 64 bits tell numbers.
-/

namespace ServiceMesh.ControlPlane

/-- What became of an operation, if it is a connect. -/
def connectOutcome (plane : ControlPlane) : Operation → List (Option MeshError)
  | .connect request answer => [(plane.connect request answer).2.2]
  | .register .. | .link .. | .remove _ | .advert _ => []

def connectOutcomes (plane : ControlPlane) : List Operation → List (Option MeshError)
  | [] => []
  | operation :: operations =>
    plane.connectOutcome operation ++ (plane.perform operation).connectOutcomes operations

/-- The metrics agree with the state, and with what became of the connects so far. -/
structure Gauged (plane : ControlPlane) (outcomes : List (Option MeshError)) : Prop where
  nodes : plane.metrics.nodes = Int64.ofNat plane.registry.size
  routes : plane.metrics.routes = Int64.ofNat plane.routes.table.size
  connects : plane.metrics.connects = UInt64.ofNat outcomes.length
  failures : plane.metrics.connectErrors = UInt64.ofNat (outcomes.countP Option.isSome)

theorem gauged_start (id address : String) : (start id address).Gauged [] :=
  ⟨rfl, rfl, rfl, rfl⟩

namespace Gauged

variable {plane : ControlPlane} {outcomes : List (Option MeshError)}

/-- A registration that is not refused sets the gauge of nodes. -/
theorem register (h : plane.Gauged outcomes) (hlocal : plane.registry.contains plane.localId = true)
    (id address : String) (metadata : NameMap String) (metric : Int64) :
    (plane.register id address metadata metric).1.Gauged outcomes := by
  rcases register_cases hlocal id address metadata metric with hsame | ⟨-, -, hregister⟩
  · rwa [hsame]
  · rw [hregister]
    exact ⟨rfl, h.routes, h.connects, h.failures⟩

/-- A link changes the registry, but not the number of nodes in it. -/
theorem link (h : plane.Gauged outcomes) (source target : String) (metric : Int64) :
    (plane.link source target metric).1.Gauged outcomes := by
  unfold ControlPlane.link
  split
  · refine ⟨?_, h.routes, h.connects, h.failures⟩
    rw [Registry.size_modify]
    exact h.nodes
  · exact h

/-- A removal sets both gauges, and a refused one leaves nodes and routes as they are. -/
theorem remove (h : plane.Gauged outcomes) (id : String) : (plane.remove id).1.Gauged outcomes := by
  by_cases hlocal : id = plane.localId
  · rwa [hlocal, remove_local]
  · rw [remove_eq hlocal]
    exact ⟨rfl, rfl, h.connects, h.failures⟩

/-- An advert sets the gauge of routes if it was admitted, and changes no routes otherwise. -/
theorem process (h : plane.Gauged outcomes) (advert : Advert) :
    (plane.process advert).1.Gauged outcomes := by
  rcases plane.process_cases advert with hsame | hgauged
  · rwa [hsame]
  · rw [hgauged]
    exact ⟨h.nodes, rfl, h.connects, h.failures⟩

/-- A connect is counted, and counted as failed just if it fails. -/
theorem connect (h : plane.Gauged outcomes) (request : ConnectRequest)
    (answer : Except TransportError Unit) :
    (plane.connect request answer).1.Gauged
      (outcomes ++ [(plane.connect request answer).2.2]) := by
  have hconnects : plane.metrics.connects + 1 =
      UInt64.ofNat (outcomes ++ [(plane.connect request answer).2.2]).length := by
    rw [h.connects, List.length_append, UInt64.ofNat_add]
    rfl
  refine ⟨?_, ?_, ?_, ?_⟩
  · cases answer <;> exact h.nodes
  · cases answer <;> exact h.routes
  · cases answer <;> exact hconnects
  · rw [List.countP_append, UInt64.ofNat_add, ← h.failures]
    cases answer with
    | ok => exact (UInt64.add_zero _).symm
    | error cause => rfl

theorem perform (h : plane.Gauged outcomes) (hlocal : plane.registry.contains plane.localId = true)
    (operation : Operation) :
    (plane.perform operation).Gauged (outcomes ++ plane.connectOutcome operation) := by
  cases operation with
  | register id address metadata metric =>
    rw [connectOutcome, List.append_nil]
    exact h.register hlocal id address metadata metric
  | link source target metric =>
    rw [connectOutcome, List.append_nil]
    exact h.link source target metric
  | remove id =>
    rw [connectOutcome, List.append_nil]
    exact h.remove id
  | advert advert =>
    rw [connectOutcome, List.append_nil]
    exact h.process advert
  | connect request answer => exact h.connect request answer

/-- The metrics agree with the state after all operations if they do before them. -/
theorem run (h : plane.Gauged outcomes) (hanchored : plane.registry.Anchored plane.localId)
    (operations : List Operation) :
    (plane.run operations).Gauged (outcomes ++ plane.connectOutcomes operations) := by
  induction operations generalizing plane outcomes with
  | nil =>
    rw [connectOutcomes, List.append_nil]
    exact h
  | cons operation operations ih =>
    rw [connectOutcomes, ← List.append_assoc]
    exact ih (h.perform hanchored.registered operation) (anchored_perform hanchored operation)

end Gauged

/-- Let a new control plane be driven by any operations, with any answers of the transport.  After
them the gauges tell how many nodes are registered and how many routes are stored, and the counters
how many connects there were and how many of them failed.  A gauge or a counter is a word of 64 bits,
so it is the number itself as long as this fits. -/
theorem metrics_tell_state (id address : String) (operations : List Operation) :
    let plane := (start id address).run operations
    let outcomes := (start id address).connectOutcomes operations
    let failed := outcomes.countP Option.isSome
    (plane.metrics.nodes = Int64.ofNat plane.registry.size ∧
      plane.metrics.routes = Int64.ofNat plane.routes.table.size ∧
      plane.metrics.connects = UInt64.ofNat outcomes.length ∧
      plane.metrics.connectErrors = UInt64.ofNat failed) ∧
    (plane.registry.size < 2 ^ 63 → plane.metrics.nodes.toInt = plane.registry.size) ∧
    (plane.routes.table.size < 2 ^ 63 → plane.metrics.routes.toInt = plane.routes.table.size) ∧
    (outcomes.length < 2 ^ 64 →
      plane.metrics.connects.toNat = outcomes.length ∧ plane.metrics.connectErrors.toNat = failed) := by
  intro plane outcomes failed
  obtain ⟨hnodes, hroutes, hconnects, hfailures⟩ :=
    (gauged_start id address).run (anchored_start id address) operations
  refine ⟨⟨hnodes, hroutes, hconnects, hfailures⟩, fun hsize ↦ ?_, fun hsize ↦ ?_,
    fun hlength ↦ ⟨?_, ?_⟩⟩
  · exact (congrArg Int64.toInt hnodes).trans (Int64.toInt_ofNat_of_lt hsize)
  · exact (congrArg Int64.toInt hroutes).trans (Int64.toInt_ofNat_of_lt hsize)
  · exact (congrArg UInt64.toNat hconnects).trans (UInt64.toNat_ofNat_of_lt' hlength)
  · have hfailed : failed < 2 ^ 64 := List.countP_le_length.trans_lt hlength
    exact (congrArg UInt64.toNat hfailures).trans (UInt64.toNat_ofNat_of_lt' hfailed)

end ServiceMesh.ControlPlane

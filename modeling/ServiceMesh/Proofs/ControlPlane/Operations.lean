import ServiceMesh.Proofs.ControlPlane.Changes

/-!
# Operations on a control plane

A control plane is driven by whole operations, one after another: nodes are registered and removed,
links are made, adverts are taken in, and connects end with any answer of the transport.  To the
registry an operation does one of four things, and it never registers or removes the local node.
-/

namespace ServiceMesh

inductive Operation where
  | register (id address : String) (metadata : NameMap String) (metric : Int64)
  | link (source target : String) (metric : Int64)
  | remove (id : String)
  | advert (advert : Advert)
  | connect (request : ConnectRequest) (answer : Except TransportError Unit)

/-- What an operation does to the registry around the node `anchor`. -/
inductive RegistryChange (anchor : String) (registry : Registry) : Registry → Prop where
  | nothing : RegistryChange anchor registry registry
  | registered (id address : String) (metadata : NameMap String) (metric : Int64)
      (hnamed : id ≠ "") (hother : id ≠ anchor) :
      RegistryChange anchor registry
        ((registry.insert id address metadata).modify anchor (·.addLink id metric))
  | linked (source target : String) (metric : Int64)
      (hsource : registry.contains source = true) :
      RegistryChange anchor registry (registry.modify source (·.addLink target metric))
  | removed (id : String) (hother : id ≠ anchor) :
      RegistryChange anchor registry (registry.remove id)

namespace ControlPlane

/-- The control plane after an operation, be it successful or refused. -/
def perform (plane : ControlPlane) : Operation → ControlPlane
  | .register id address metadata metric => (plane.register id address metadata metric).1
  | .link source target metric => (plane.link source target metric).1
  | .remove id => (plane.remove id).1
  | .advert advert => (plane.process advert).1
  | .connect request answer => (plane.connect request answer).1

def run (plane : ControlPlane) (operations : List Operation) : ControlPlane :=
  operations.foldl perform plane

variable {plane : ControlPlane}

/-- As long as the local node is registered, an operation keeps its id, and does no more to the
registry than one of the changes around it. -/
theorem perform_spec (hlocal : plane.registry.contains plane.localId = true)
    (operation : Operation) :
    (plane.perform operation).localId = plane.localId ∧
      RegistryChange plane.localId plane.registry (plane.perform operation).registry := by
  cases operation with
  | register id address metadata metric =>
    rcases register_cases hlocal id address metadata metric with
      hsame | ⟨hnamed, hother, hregister⟩
    · rw [perform, hsame]
      exact ⟨rfl, .nothing⟩
    · rw [perform, hregister]
      exact ⟨rfl, .registered id address metadata metric hnamed hother⟩
  | link source target metric =>
    rw [perform, link]
    split
    · next hsource => exact ⟨rfl, .linked source target metric hsource⟩
    · exact ⟨rfl, .nothing⟩
  | remove id =>
    by_cases hother : id = plane.localId
    · rw [perform, hother, remove_local]
      exact ⟨rfl, .nothing⟩
    · rw [perform, remove_eq hother]
      exact ⟨rfl, .removed id hother⟩
  | advert advert =>
    rw [perform, process_frame]
    exact ⟨rfl, .nothing⟩
  | connect request answer =>
    rw [perform, connect_frame]
    exact ⟨rfl, .nothing⟩

end ControlPlane

end ServiceMesh

import ServiceMesh.Main
import ServiceMesh.Proofs.ControlPlane.Access
import ServiceMesh.Proofs.ControlPlane.Commuting
import ServiceMesh.Proofs.ControlPlane.ConnectionState
import ServiceMesh.Proofs.ControlPlane.Gauges
import ServiceMesh.Proofs.ControlPlane.Links
import ServiceMesh.Proofs.ControlPlane.Orphans
import ServiceMesh.Proofs.ControlPlane.Redelivery
import ServiceMesh.Proofs.ControlPlane.Removal
import ServiceMesh.Proofs.ControlPlane.Replication
import ServiceMesh.Proofs.ControlPlane.Tracking
import ServiceMesh.Proofs.Outreach
import ServiceMesh.Proofs.Ports
import ServiceMesh.Proofs.RefreshTimer
import ServiceMesh.Proofs.Replica
import ServiceMesh.Proofs.Stragglers
import ServiceMesh.Proofs.Table.Lookup
import ServiceMesh.Proofs.Table.Selection
import ServiceMesh.Proofs.Topology.Locality
import ServiceMesh.Proofs.Topology.Pruning
import ServiceMesh.Proofs.Topology.Refresh
import ServiceMesh.Proofs.Topology.Rounds
import ServiceMesh.Proofs.Wire.Messages
import ServiceMesh.Proofs.Wire.RouteForms
import ServiceMesh.Proofs.Wire.Trees
import ServiceMesh.Registry.Instances

import ServiceMesh.Decimal
import ServiceMesh.Route

/-!
# Metrics

Two gauges follow the sizes of the route table and the registry; counters count connects, failed
connects, and table events by their kind.  Counters are words of 64 bits.

In the text that exposes them, each metric has a line of help, a line with its type, and its
samples; a family without samples is left out.  Metrics come in the order of their names, samples in
the order of their labels.  A value is written as the double nearest to it: the shortest digits that
give the double back, and zeros.
-/

namespace ServiceMesh

structure Metrics where
  routes : Int64 := 0
  nodes : Int64 := 0
  created : UInt64 := 0
  updated : UInt64 := 0
  deleted : UInt64 := 0
  connects : UInt64 := 0
  connectErrors : UInt64 := 0
  deriving DecidableEq, Inhabited

namespace Metrics

def setRoutes (metrics : Metrics) (count : Nat) : Metrics :=
  { metrics with routes := Int64.ofNat count }

def setNodes (metrics : Metrics) (count : Nat) : Metrics :=
  { metrics with nodes := Int64.ofNat count }

def countConnect (metrics : Metrics) : Metrics :=
  { metrics with connects := metrics.connects + 1 }

def countConnectError (metrics : Metrics) : Metrics :=
  { metrics with connectErrors := metrics.connectErrors + 1 }

/-- Counts so many events of a kind. -/
def countEvents (metrics : Metrics) (kind : EventKind) (count : UInt64) : Metrics :=
  match kind with
  | .create => { metrics with created := metrics.created + count }
  | .update => { metrics with updated := metrics.updated + count }
  | .delete => { metrics with deleted := metrics.deleted + count }

def countEvent (metrics : Metrics) (kind : EventKind) : Metrics := metrics.countEvents kind 1

end Metrics

namespace Exposition

/-- The digits of a whole number as a double. -/
def magnitudeText (value : Nat) : String :=
  match Decimal.Binary64.nearest value 1 with
  | some double => double.shortest.wholeText
  | none => toString value

def valueText (value : Int) : String :=
  (if value < 0 then "-" else "") ++ magnitudeText value.natAbs

inductive Kind where
  | gauge
  | counter

def Kind.name : Kind → String
  | .gauge => "gauge"
  | .counter => "counter"

/-- A sample: its labels as written, and its value. -/
structure Sample where
  labels : String := ""
  value : Int

structure Family where
  name : String
  help : String
  kind : Kind
  samples : List Sample

def Family.lines (family : Family) : List String :=
  if family.samples.isEmpty then []
  else
    s!"# HELP {family.name} {family.help}" :: s!"# TYPE {family.name} {family.kind.name}" ::
      family.samples.map fun sample ↦ s!"{family.name}{sample.labels} {valueText sample.value}"

end Exposition

namespace Metrics

open Exposition

/-- The sample of the events of one kind, once there are any. -/
def eventSample (kind : EventKind) (count : UInt64) : List Sample :=
  if count = 0 then [] else [⟨s!"\x7bevent=\"{kind.name}\"\x7d", count.toNat⟩]

def families (metrics : Metrics) : List Family := [
  ⟨"mesh_connect_errors_total", "Connect operations that failed in the transport", .counter,
    [⟨"", metrics.connectErrors.toNat⟩]⟩,
  ⟨"mesh_connect_total", "Connect operations dispatched", .counter,
    [⟨"", metrics.connects.toNat⟩]⟩,
  ⟨"mesh_nodes", "Nodes registered in the peer graph", .gauge, [⟨"", metrics.nodes.toInt⟩]⟩,
  ⟨"mesh_route_events_total", "Routing table events by kind", .counter,
    eventSample .create metrics.created ++ eventSample .delete metrics.deleted ++
      eventSample .update metrics.updated⟩,
  ⟨"mesh_routes", "Routes stored in the routing table", .gauge, [⟨"", metrics.routes.toInt⟩]⟩]

def expose (metrics : Metrics) : String :=
  String.join ((metrics.families.flatMap Family.lines).map (· ++ "\n"))

end Metrics

end ServiceMesh

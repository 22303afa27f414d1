import ServiceMesh.ControlPlane
import ServiceMesh.Text

/-!
# Dialing peers

The dialer takes batches of addresses and starts one dial per address.  Dials finish in any order,
each with one event.  An address without a port is not dialed at all.
-/

namespace ServiceMesh

/-- The host and the port of an address, which stand on the two sides of its last colon.  The host
must not be empty. -/
def hostAndPort? (address : String) : Option (String × Nat) :=
  match Text.cutAtLast ':' address.toList with
  | none => none
  | some (host, port) =>
    if host = [] then none
    else (Text.numeral? (UInt16.size - 1) port).map (String.ofList host, ·)

def hasPort (address : String) : Bool := (hostAndPort? address).isSome

/-- What the network makes of an attempt to connect. -/
inductive Attempt where
  /-- The connection came about after so many nanoseconds. -/
  | connected (latency : Nat)
  | failed (reason : String)
  | timedOut
  deriving DecidableEq, Inhabited

/-- The event of a dial. -/
def dial (address : String) (attempt : Attempt) : PeerEvent :=
  if hasPort address then
    match attempt with
    | .connected latency => .up address latency
    | .failed reason => .down address reason
    | .timedOut => .down address "timeout"
  else .down address "missing port"

structure Dialer where
  /-- A closed dialer takes no batches any more. -/
  closed : Bool := false
  /-- Batches that wait to be taken. -/
  batches : List (List String) := []
  /-- Addresses that are being dialed. -/
  dialing : List String := []
  /-- Events that wait to be followed, the oldest first. -/
  reports : List PeerEvent := []
  deriving Inhabited

namespace Dialer

/-- The name under which the transport is known. -/
def transportName : String := "tcp"

/-- Hands a batch over; it is dialed later. -/
def dispatch (dialer : Dialer) (addresses : List String) :
    Dialer × Except TransportError Unit :=
  if dialer.closed then (dialer, .error .closed)
  else ({ dialer with batches := dialer.batches ++ [addresses] }, .ok ())

/-- Takes the next batch and starts its dials. -/
def takeBatch (dialer : Dialer) : Dialer :=
  match dialer.batches with
  | [] => dialer
  | batch :: batches => { dialer with batches, dialing := dialer.dialing ++ batch }

/-- Finishes the dial at a place, with what the network makes of it. -/
def finishDial (dialer : Dialer) (place : Nat) (attempt : Attempt) : Dialer :=
  match dialer.dialing[place]? with
  | none => dialer
  | some address =>
    { dialer with
      dialing := dialer.dialing.eraseIdx place
      reports := dialer.reports ++ [dial address attempt] }

/-- Finishes all dials, the oldest first. -/
def finishAll (dialer : Dialer) (network : String → Attempt) : Dialer :=
  { dialer with
    dialing := []
    reports := dialer.reports ++ dialer.dialing.map fun address ↦ dial address (network address) }

end Dialer

end ServiceMesh

import Std.Async
import Std.Http
import Std.Sync
import ServiceMesh.MeshNode

/-!
# The node program

Runs a node by the settings in its environment until it is interrupted.  The node itself is a value
behind a lock; this module only dials, waits, listens, and changes that value step by step.
-/

open Std.Async Std.Net

namespace ServiceMesh.Program

/-- The node that runs. -/
abbrev Shared := Std.Mutex MeshNode

def settingNames : List String := [
  "MESH_NODE_ID", "MESH_ADDRESS", "MESH_NETWORK", "MESH_PEERS", "MESH_DIAL_TIMEOUT_MS",
  "MESH_TOPOLOGY_INTERVAL_SECS", "MESH_HTTP_ADDR"]

def readSettings : IO Settings := do
  let values ← settingNames.mapM fun name ↦ return (name, ← IO.getEnv name)
  return Settings.ofLookup fun name ↦ (values.lookup name).join

/-- A number of so many random bytes. -/
def randomNumber (count : USize) : IO Nat := do
  return (← IO.getRandomBytes count).foldl (fun value byte ↦ 256 * value + byte.toNat) 0

def milliseconds (count : Nat) : Std.Time.Millisecond.Offset :=
  Std.Time.Millisecond.Offset.ofNat (min count (Nat.pow 2 62))

/-- The socket addresses of a host and a port. -/
def resolve (address : String) : Async (List SocketAddress) := do
  match hostAndPort? address with
  | none => return []
  | some (host, port) =>
    let hosts ← match IPv4Addr.ofString host with
      | some ip => pure [IPAddr.v4 ip]
      | none =>
        let bare := String.ofList (host.toList.filter fun c ↦ c ≠ '[' ∧ c ≠ ']')
        match IPv6Addr.ofString bare with
        | some ip => pure [IPAddr.v6 ip]
        | none => (·.toList) <$> DNS.getAddrInfo host ""
    return hosts.map fun
      | .v4 ip => .v4 ⟨ip, UInt16.ofNat port⟩
      | .v6 ip => .v6 ⟨ip, UInt16.ofNat port⟩

def connectTo (address : String) : Async Attempt := do
  try
    let start ← IO.monoNanosNow
    match ← resolve address with
    | [] => return .failed "no address"
    | target :: _ =>
      let client ← TCP.Socket.Client.mk
      client.connect target
      return .connected ((← IO.monoNanosNow) - start)
  catch failure => return .failed (toString failure)

/-- Dials an address, if it can be dialed, and lets the node follow the outcome. -/
def dialPeer (shared : Shared) (timeout : Nat) (address : String) : Async Unit := do
  let attempt ←
    if hasPort address then
      Async.race (connectTo address) (do
        sleep (milliseconds timeout)
        return .timedOut)
    else pure .timedOut
  shared.atomically (modify fun node ↦ (node.finishDial address attempt).catchUp)

/-- Takes the next batch of addresses and dials them side by side. -/
def dialBatch (shared : Shared) (timeout : Nat) : Async Unit := do
  let batch ← shared.atomically (modifyGet fun node ↦
    (node.dialer.batches.headD [], { node with dialer := node.dialer.takeBatch }))
  for address in batch do
    background (dialPeer shared timeout address)

/-- Dials the configured peers again and again, one period after the other. -/
def refreshPeers (shared : Shared) (settings : Settings) : Async Unit := do
  match settings.refreshPeriod? with
  | none => return
  | some seconds =>
    repeat
      sleep (milliseconds (1000 * seconds))
      shared.atomically (modify MeshNode.refresh)
      dialBatch shared settings.dialTimeoutMillis

/-- Answers requests from the state of the node. -/
structure Surface where
  shared : Shared

instance : Std.Http.Server.Handler Surface where
  ResponseBody := Std.Http.Body.Full
  onRequest surface request := do
    let node ← surface.shared.atomically get
    let method := toString request.line.method
    let reply := MeshNode.reply node.plane method (toString request.line.uri)
    let status := (Std.Http.Status.ofCode none (UInt16.ofNat reply.status)).getD .ok
    (Std.Http.Response.withStatus status).fromBytes reply.body.toUTF8

/-- Runs a node until it is interrupted. -/
def run (settings : Settings) : Async Unit := do
  let node := MeshNode.start settings (← randomNumber 16)
  let shared ← Std.Mutex.new node
  dialBatch shared settings.dialTimeoutMillis
  background (refreshPeers shared settings)
  match ← resolve settings.httpAddress with
  | [] => throw (.userError s!"cannot listen at {settings.httpAddress}")
  | address :: _ =>
    let server ← Std.Http.Server.serve address (Surface.mk shared)
    let interrupt ← Signal.Waiter.mk .sigint false
    let _ ← await (← interrupt.wait)
    server.shutdown

end ServiceMesh.Program

def main : IO UInt32 := do
  try
    (ServiceMesh.Program.run (← ServiceMesh.Program.readSettings)).block
    return 0
  catch failure =>
    IO.eprintln s!"Error: {failure}"
    return 1

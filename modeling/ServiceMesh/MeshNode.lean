import ServiceMesh.Dialer
import ServiceMesh.Text

/-!
# A running node

A node is its control plane, a dialer for its peers, and a tracker of its route table.  At its start
it connects to the peers in its settings, if there are any, and only then it listens.  Over HTTP it
serves health and metrics under one path each, whatever the method.

Settings are looked up by name, as in an environment.  What is not set, or is no number where a
number is wanted, has a default.
-/

namespace ServiceMesh

structure Settings where
  /-- The id of the node, unless one is to be made up. -/
  givenId : Option String
  /-- Where peers reach the node. -/
  address : String
  /-- The network that the node routes for. -/
  network : String
  /-- The peers to connect to at the start. -/
  peers : List String
  dialTimeoutMillis : Nat
  /-- The seconds between two refreshes of the peers. -/
  refreshSeconds : Nat
  /-- Where health and metrics are served. -/
  httpAddress : String
  deriving DecidableEq

namespace Settings

/-- The items of a list, separated by commas; neither blanks around them count nor empty items. -/
def listItems (value : String) : List String :=
  ((Text.pieces ',' value.toList).map fun piece ↦ String.ofList (Text.trimChars piece)).filter
    (· ≠ "")

/-- The value of a number of 64 bits, or a default. -/
def numberOr (default : Nat) (value : Option String) : Nat :=
  (value.bind fun text ↦ Text.numeral? (UInt64.size - 1) text.toList).getD default

def ofLookup (lookup : String → Option String) : Settings where
  givenId := (lookup "MESH_NODE_ID").filter (· ≠ "")
  address := (lookup "MESH_ADDRESS").getD "0.0.0.0:8085"
  network := (lookup "MESH_NETWORK").getD "mesh"
  peers := ((lookup "MESH_PEERS").map listItems).getD []
  dialTimeoutMillis := numberOr 5000 (lookup "MESH_DIAL_TIMEOUT_MS")
  refreshSeconds := numberOr 30 (lookup "MESH_TOPOLOGY_INTERVAL_SECS")
  httpAddress := (lookup "MESH_HTTP_ADDR").getD "0.0.0.0:9090"

/-- The period of the timer by which a node refreshes its peers.  A timer needs a period longer than
zero, so with zero seconds there is no timer and no refresh. -/
def refreshPeriod? (settings : Settings) : Option Nat :=
  if settings.refreshSeconds = 0 then none else some settings.refreshSeconds

/-- The number of refreshes in so many full periods. -/
def refreshCount (settings : Settings) (periods : Nat) : Nat :=
  if settings.refreshPeriod?.isSome then periods else 0

/-- So many hexadecimal digits of a number, the last ones. -/
def hexTail : (count : Nat) → Nat → List Char
  | 0, _ => []
  | count + 1, value => hexTail count (value / 16) ++ [Nat.digitChar (value % 16)]

/-- A random id: 122 random bits, with the marks of version 4 in their places. -/
def randomId (random : Nat) : String :=
  let group := fun (count shift : Nat) ↦ hexTail count (random >>> shift)
  let variant := 8 + (random >>> 60) % 4
  String.ofList (group 8 90 ++ '-' :: group 4 74 ++ '-' :: '4' :: group 3 62 ++
    '-' :: Nat.digitChar variant :: group 3 48 ++ '-' :: group 12 0)

/-- The id of the node, made up from random bits if none is given. -/
def id (settings : Settings) (random : Nat) : String := settings.givenId.getD (randomId random)

end Settings

end ServiceMesh

namespace ServiceMesh.Http

structure Reply where
  status : Nat
  body : String
  deriving DecidableEq, Inhabited

/-- What follows the scheme, in a target that is given in full. -/
def afterScheme? : List Char → Option (List Char)
  | [] => none
  | ':' :: '/' :: '/' :: rest => some rest
  | c :: rest => if c.isAlphanum ∨ c ∈ ['+', '-', '.'] then afterScheme? rest else none

def endsPath (c : Char) : Bool := c = '?' || c = '#'

/-- The path of a request target, without its query.  A target in full has a scheme and a host
before its path, and may have no path of its own. -/
def path (target : String) : String :=
  let chars := match afterScheme? target.toList with
    | none => target.toList
    | some rest => rest.dropWhile fun c ↦ c ≠ '/' ∧ !endsPath c
  match chars.takeWhile (!endsPath ·) with
  | [] => "/"
  | path => String.ofList path

/-- The reply to a request, given the text of the metrics.  A reply to `HEAD` has no body. -/
def reply (metrics : String) (method target : String) : Reply :=
  let (status, body) := match path target with
    | "/healthz" => (200, "OK\n")
    | "/metrics" => (200, metrics)
    | _ => (404, "Not Found\n")
  ⟨status, if method = "HEAD" then "" else body⟩

end ServiceMesh.Http

namespace ServiceMesh

structure MeshNode where
  plane : ControlPlane
  dialer : Dialer := {}
  tracker : Tracker
  deriving Inhabited

namespace MeshNode

/-- Connects through the dialer. -/
def connect (node : MeshNode) (request : ConnectRequest) : MeshNode :=
  let (plane, dispatch) := node.plane.beginConnect request
  let (dialer, answer) := node.dialer.dispatch dispatch.addresses
  let (plane, _) := plane.finishConnect dispatch answer
  { node with plane, dialer }

/-- The node of some settings, before it listens. -/
def start (settings : Settings) (random : Nat) : MeshNode :=
  let plane := ControlPlane.start (settings.id random) settings.address
  let node := { plane, tracker := plane.track }
  if settings.peers.isEmpty then node else node.connect (.ofAddresses settings.peers)

/-- Follows the oldest report of the dialer. -/
def followReport (node : MeshNode) : MeshNode :=
  match node.dialer.reports with
  | [] => node
  | report :: reports =>
    { node with plane := node.plane.follow report, dialer := { node.dialer with reports } }

/-- Finishes the dial of an address and follows its report. -/
def finishDial (node : MeshNode) (address : String) (attempt : Attempt) : MeshNode :=
  let place := node.dialer.dialing.idxOf address
  { node with dialer := node.dialer.finishDial place attempt }.followReport

/-- Takes one batch, finishes its dials, and follows their reports. -/
def settle (node : MeshNode) (network : String → Attempt) : MeshNode :=
  let dialer := node.dialer.takeBatch.finishAll network
  { node with
    plane := node.plane.followAll dialer.reports
    dialer := { dialer with reports := [] } }

/-- Dials all configured peers again. -/
def refresh (node : MeshNode) : MeshNode := node.connect {}

/-- Lets the tracker read what there is to read. -/
def catchUp (node : MeshNode) : MeshNode :=
  let (plane, tracker) := node.plane.catchUp node.tracker
  { node with plane, tracker }

def reply (plane : ControlPlane) (method target : String) : Http.Reply :=
  Http.reply plane.metrics.expose method target

/-- A part of a host that is written as four numbers; it has no sign. -/
def octet? (part : List Char) : Option Nat :=
  if '+' ∈ part then none else Text.numeral? 255 part

/-- A host by which a machine knows itself: the loopback, or all of its addresses. -/
def isOwnHost (host : String) : Bool :=
  host = "localhost" || host = "[::1]" || host = "[::]" ||
    match (Text.pieces '.' host.toList).map octet? with
    | [some a, some b, some c, some d] => a = 127 || (a = 0 && b = 0 && c = 0 && d = 0)
    | _ => false

/-- Whether a machine can listen at an address, given those that are in use.  A host in brackets
is read together with its port, which must then have no sign. -/
def canListen (inUse : List String) (address : String) : Bool :=
  match hostAndPort? address with
  | some (host, _) =>
    isOwnHost host && !inUse.contains address && !(host.startsWith "[" && address.contains '+')
  | none => false

end MeshNode

end ServiceMesh

import UnknownTunnel.Foundation.Bytes
import UnknownTunnel.Foundation.Pieces
import UnknownTunnel.Foundation.Table
import UnknownTunnel.Transport.UdpLink

/-!
# Forwarded UDP datagrams on two nodes

`sendUDPDatagram` cuts a datagram into fragments that carry the flow ID, the
number of the datagram within its flow object, their position and their
count. The peer collects fragments by flow ID and number and passes the
joined datagram on: to the client if it is the entry of the flow, otherwise
to the service, for which it makes a flow object of its own if it has none.
The counter of datagrams is part of the flow object.

## Implementation notes

Remote flow objects are named by their position in a list that only grows,
since `deleteRemoteUDP` compares objects, and a goroutine that read a reply
before its flow was torn down may send it afterwards. A call of
`sendUDPDatagram` is a list of messages still to be sent; any of the sends may
fail and end the call. Messages on the way arrive in any order and may be lost
or repeated. The services of the configuration that are UDP services are a
parameter, and the outcome of a dial or a write is a choice of the step.
-/

namespace UnknownTunnel.App

open Foundation Transport

/-- The data of a fragment. -/
def udpChunkSize : Nat := 1200
/-- The longest datagram of IPv4. -/
def maxUDPDatagram : Nat := 65507
/-- The most flows that a node keeps of either kind. -/
def maxUDPFlows : Nat := 65536
/-- The most datagrams that are collected at a time. -/
def maxUDPAssemblies : Nat := 4096

/-- Two minutes, in nanoseconds. -/
def udpFlowIdle : Nat := 120 * 10 ^ 9

/-- Thirty seconds, in nanoseconds. -/
def udpAssemblyLifetime : Nat := 30 * 10 ^ 9

/-- A message of type `TypeUDPData`. -/
structure UdpMessage where
  connID : Nat
  seq : Nat
  name : Bytes
  payload : Bytes
  deriving DecidableEq

/-- The key under which the peer collects a message. -/
def UdpMessage.key (m : UdpMessage) : Nat × Nat := (m.connID, m.seq)

/-- A call of `sendUDPDatagram`. -/
structure UdpCall where
  flowID : Nat
  service : Bytes
  datagramID : Nat
  data : Bytes
  deriving DecidableEq

/-! ## Sending -/

/-- The position, the number of fragments and the data. -/
def fragmentPayload (data : Bytes) (part : Nat) : Bytes :=
  Bytes.bePut 2 part ++
    (Bytes.bePut 2 (Pieces.pieceCount udpChunkSize data.length) ++
      Pieces.piece udpChunkSize data part)

/-- The payloads of the fragments of a datagram. -/
def fragmentPayloads (data : Bytes) : List Bytes :=
  (List.range (Pieces.pieceCount udpChunkSize data.length)).map (fragmentPayload data)

/-- The error of `sendUDPDatagram` that is not the error of a send. -/
inductive DatagramError
  | tooLong
  deriving DecidableEq

def DatagramError.text : DatagramError → String
  | .tooLong => "UDP datagram exceeds maximum size"

/-- The messages of a call in which no send fails. -/
def sendUDPDatagram (call : UdpCall) : Except DatagramError (List UdpMessage) :=
  if maxUDPDatagram < call.data.length then .error .tooLong
  else
    .ok ((fragmentPayloads call.data).map fun payload =>
      { connID := call.flowID, seq := call.datagramID, name := call.service, payload })

/-- What a call has to send, nothing if it is refused. -/
def UdpCall.messages (call : UdpCall) : List UdpMessage :=
  match sendUDPDatagram call with
  | .ok messages => messages
  | .error _ => []

/-! ## Collecting fragments -/

/-- A missing chunk is the empty list: a nil slice and an empty chunk are
not told apart. -/
structure UdpAssembly where
  created : Nat
  name : Bytes
  total : Nat
  received : Nat
  chunks : List Bytes
  deriving DecidableEq

abbrev Assemblies := Table (Nat × Nat) UdpAssembly

namespace UdpAssembly

def fresh (now : Nat) (name : Bytes) (total : Nat) : UdpAssembly where
  created := now
  name := name
  total := total
  received := 0
  chunks := List.replicate total []

/-- The assembly after a chunk whose position it has. -/
def put (a : UdpAssembly) (name : Bytes) (part : Nat) (chunk : Bytes) : UdpAssembly :=
  let named := if a.name = [] ∧ name ≠ [] then { a with name := name } else a
  if a.chunks[part]? = some [] then
    { named with chunks := a.chunks.set part chunk, received := a.received + 1 }
  else named

/-- The service name and the datagram of a complete assembly. -/
def joined (a : UdpAssembly) : Option (Bytes × Bytes) :=
  if maxUDPDatagram < (a.chunks.map List.length).sum then none
  else some (a.name, a.chunks.flatten)

end UdpAssembly

/-- A chunk is put into its assembly, which is taken out when it is complete. -/
def storeChunk (m : UdpMessage) (part : Nat) (a : UdpAssembly) (assemblies : Assemblies) :
    Assemblies × Option (Bytes × Bytes) :=
  let stored := a.put m.name part (m.payload.drop 4)
  if stored.received ≠ stored.total then (assemblies.insert m.key stored, none)
  else (assemblies.erase m.key, stored.joined)

/-- The assemblies after a message, and what is passed to `handleUDPDatagram`. -/
def handleUDPChunk (now : Nat) (m : UdpMessage) (assemblies : Assemblies) :
    Assemblies × Option (Bytes × Bytes) :=
  if m.payload.length < 4 then (assemblies, none)
  else
    let part := Bytes.beGet (Bytes.slice 0 2 m.payload)
    let total := Bytes.beGet (Bytes.slice 2 4 m.payload)
    if total < 1 ∨ 128 < total ∨ total ≤ part then (assemblies, none)
    else
      match Finmap.lookup m.key assemblies with
      | none =>
          if maxUDPAssemblies ≤ assemblies.size then (assemblies, none)
          else storeChunk m part (.fresh now m.name total) assemblies
      | some a =>
          if a.total ≠ total then (assemblies.erase m.key, none)
          else storeChunk m part a assemblies

/-! ## A node -/

/-- The flow of a client. -/
structure EntryUDPFlow where
  service : Bytes
  last : Nat
  seq : Nat
  deriving DecidableEq

/-- The flow to a service. -/
structure RemoteUDPFlow where
  flowID : Nat
  service : Bytes
  last : Nat
  seq : Nat
  deriving DecidableEq

/-- The outcome of resolving and dialing a service and of a write to it. -/
structure DatagramIO where
  dialed : Bool
  written : Bool

/-- `remoteUDP` holds positions in `remotes`, the flow objects ever made. -/
structure UdpNode where
  entryUDP : Table Nat EntryUDPFlow := ∅
  entryUDPKeys : Table Bytes Nat := ∅
  remoteUDP : Table Nat Nat := ∅
  remotes : List RemoteUDPFlow := []
  assemblies : Assemblies := ∅

namespace UdpNode

/-- The flow of a client, made if need be. `draws` are the values of
`randomID`, of which at most ten are tried. -/
def getEntryUDPFlow (key service : Bytes) (draws : List Nat) (now : Nat) (node : UdpNode) :
    Option (Nat × EntryUDPFlow) :=
  match (Finmap.lookup key node.entryUDPKeys).bind fun id =>
      (Finmap.lookup id node.entryUDP).map fun flow => (id, flow) with
  | some (id, flow) => some (id, { flow with last := now })
  | none =>
      if maxUDPFlows ≤ node.entryUDP.size then none
      else
        ((draws.take 10).find? fun id => (Finmap.lookup id node.entryUDP).isNone).map fun id =>
          (id, { service, last := now, seq := 0 })

/-- A datagram read from a client: the node, and the call it leads to. -/
def readEntry (key service : Bytes) (draws : List Nat) (now : Nat) (data : Bytes)
    (node : UdpNode) : Option (UdpNode × UdpCall) :=
  (node.getEntryUDPFlow key service draws now).map fun (id, flow) =>
    ({ node with
        entryUDP := node.entryUDP.insert id { flow with seq := flow.seq + 1 }
        entryUDPKeys := node.entryUDPKeys.insert key id },
      { flowID := id, service, datagramID := flow.seq + 1, data })

/-- A reply read by `remoteUDPReadLoop`. -/
def readRemote (object now : Nat) (data : Bytes) (node : UdpNode) : Option (UdpNode × UdpCall) :=
  node.remotes[object]?.map fun flow =>
    ({ node with
        remotes := node.remotes.set object { flow with last := now, seq := flow.seq + 1 } },
      { flowID := flow.flowID, service := [], datagramID := flow.seq + 1, data })

def deleteRemoteUDP (flowID object : Nat) (node : UdpNode) : UdpNode :=
  if Finmap.lookup flowID node.remoteUDP = some object then
    { node with remoteUDP := node.remoteUDP.erase flowID }
  else node

/-- The write to the service through a flow object. -/
def writeRemote (io : DatagramIO) (now flowID object : Nat) (node : UdpNode) : UdpNode :=
  let touched := { node with
    remotes := node.remotes.modify object fun flow => { flow with last := now } }
  if io.written then touched else touched.deleteRemoteUDP flowID object

/-- The datagram goes to the client of an entry flow, or to the service of a flow that
is made if there is none. -/
def handleUDPDatagram (services : Bytes → Bool) (io : DatagramIO) (now flowID : Nat)
    (service : Bytes) (node : UdpNode) : UdpNode :=
  match Finmap.lookup flowID node.entryUDP with
  | some flow => { node with entryUDP := node.entryUDP.insert flowID { flow with last := now } }
  | none =>
      match Finmap.lookup flowID node.remoteUDP with
      | some object => node.writeRemote io now flowID object
      | none =>
          if maxUDPFlows ≤ node.remoteUDP.size then node
          else if services service ∧ io.dialed then
            let made : UdpNode := { node with
              remoteUDP := node.remoteUDP.insert flowID node.remotes.length
              remotes := node.remotes ++ [{ flowID, service, last := now, seq := 0 }] }
            made.writeRemote io now flowID node.remotes.length
          else node

/-- Entry flows that are not idle. -/
def entryAlive (now : Nat) (flow : EntryUDPFlow) : Bool := now - flow.last ≤ udpFlowIdle

/-- Remote flows that are not idle. -/
def remoteAlive (now : Nat) (node : UdpNode) (object : Nat) : Bool :=
  match node.remotes[object]? with
  | some flow => now - flow.last ≤ udpFlowIdle
  | none => true

def cleanup (now : Nat) (node : UdpNode) : UdpNode :=
  { node with
    assemblies := node.assemblies.filter fun _ a => now - a.created ≤ udpAssemblyLifetime
    entryUDP := node.entryUDP.filter fun _ flow => entryAlive now flow
    entryUDPKeys := node.entryUDPKeys.filter fun _ id =>
      match Finmap.lookup id node.entryUDP with
      | some flow => entryAlive now flow
      | none => true
    remoteUDP := node.remoteUDP.filter fun _ object => node.remoteAlive now object }

end UdpNode

/-! ## Two nodes -/

/-- Both nodes, the calls of `sendUDPDatagram` under way on each, and the
messages on the way to each. The datagrams passed to `sendUDPDatagram` and to
`handleUDPDatagram` are recorded with their flow. -/
structure UdpNodes where
  node : Side → UdpNode
  calls : Side → List (List UdpMessage)
  wire : Side → List UdpMessage
  sent : Side → List (Nat × Bytes)
  passed : Side → List (Nat × Bytes)

/-- The steps of the nodes and of the network between them. -/
inductive UdpNodesEvent
  | entryRead (X : Side) (key service : Bytes) (draws : List Nat) (now : Nat) (data : Bytes)
  | remoteRead (X : Side) (object now : Nat) (data : Bytes)
  | remoteError (X : Side) (object : Nat)
  | send (X : Side) (call : Nat) (sent : Bool)
  | lose (X : Side) (i : Nat)
  | duplicate (X : Side) (i : Nat)
  | deliver (X : Side) (i now : Nat) (io : DatagramIO)
  | cleanup (X : Side) (now : Nat)

namespace UdpNodes

def start : UdpNodes where
  node := fun _ => {}
  calls := fun _ => []
  wire := fun _ => []
  sent := fun _ => []
  passed := fun _ => []

/-- The call of `sendUDPDatagram` that a step makes. -/
def call (N : UdpNodes) : UdpNodesEvent → Option (Side × UdpNode × UdpCall)
  | .entryRead X key service draws now data =>
      ((N.node X).readEntry key service draws now data).map fun read => (X, read)
  | .remoteRead X object now data =>
      ((N.node X).readRemote object now data).map fun read => (X, read)
  | _ => none

/-- A call of `sendUDPDatagram` begins. -/
def begin (N : UdpNodes) (X : Side) (node : UdpNode) (call : UdpCall) : UdpNodes :=
  { N with
    node := Function.update N.node X node
    calls := Function.update N.calls X (N.calls X ++ [call.messages])
    sent := Function.update N.sent X (N.sent X ++ [(call.flowID, call.data)]) }

/-- A call sends its next message, or fails. -/
def sendNext (N : UdpNodes) (X : Side) (call : Nat) (sent : Bool) : UdpNodes :=
  match (N.calls X)[call]? with
  | some (m :: rest) =>
      if sent then
        { N with
          calls := Function.update N.calls X ((N.calls X).set call rest)
          wire := Function.update N.wire X.peer (N.wire X.peer ++ [m]) }
      else { N with calls := Function.update N.calls X ((N.calls X).set call []) }
  | _ => N

/-- A message is handled. -/
def handle (services : Side → Bytes → Bool) (N : UdpNodes) (X : Side) (i now : Nat)
    (io : DatagramIO) : UdpNodes :=
  match (N.wire X)[i]? with
  | none => N
  | some m =>
      let (assemblies, whole) := handleUDPChunk now m (N.node X).assemblies
      let node := { N.node X with assemblies }
      let wire := Function.update N.wire X ((N.wire X).eraseIdx i)
      match whole with
      | none => { N with node := Function.update N.node X node, wire }
      | some (service, data) =>
          { N with
            node := Function.update N.node X
              (node.handleUDPDatagram (services X) io now m.connID service)
            wire
            passed := Function.update N.passed X (N.passed X ++ [(m.connID, data)]) }

/-- A read fills a buffer of `maxUDPDatagram` bytes at most. -/
def enabled (_ : UdpNodes) : UdpNodesEvent → Prop
  | .entryRead _ _ _ _ _ data => data.length ≤ maxUDPDatagram
  | .remoteRead _ _ _ data => data.length ≤ maxUDPDatagram
  | _ => True

def apply (services : Side → Bytes → Bool) (N : UdpNodes) (e : UdpNodesEvent) : UdpNodes :=
  match N.call e with
  | some (X, node, call) => N.begin X node call
  | none =>
      match e with
      | .remoteError X object =>
          match (N.node X).remotes[object]? with
          | some flow =>
              { N with
                node := Function.update N.node X
                  ((N.node X).deleteRemoteUDP flow.flowID object) }
          | none => N
      | .send X call sent => N.sendNext X call sent
      | .lose X i => { N with wire := Function.update N.wire X ((N.wire X).eraseIdx i) }
      | .duplicate X i =>
          { N with wire := Function.update N.wire X (N.wire X ++ (N.wire X)[i]?.toList) }
      | .deliver X i now io => N.handle services X i now io
      | .cleanup X now => { N with node := Function.update N.node X ((N.node X).cleanup now) }
      | _ => N

end UdpNodes

/-- Two nodes with the given UDP services. -/
def udpNodesMachine (services : Side → Bytes → Bool) : Machine UdpNodes UdpNodesEvent where
  init N := N = UdpNodes.start
  enabled := UdpNodes.enabled
  apply := UdpNodes.apply services

end UnknownTunnel.App

import UnknownTunnel.App.UdpNodes
import UnknownTunnel.ConfigFile.Validate

/-!
# The UDP flows of one node

A node keeps a flow for each client of each of its forwards, found by a key
made of the forward's name and the client's address, and a flow for each ID
under which its peer sends datagrams to a service. Flows are made and removed
by the readers of the forwards, the loop that handles messages, the readers of
the service sockets, the periodic cleanup and `Close`.

## Implementation notes

What a goroutine does between locking and unlocking `udpMu` is one step, and
so is each test of `closed` and each write to a socket. The socket of a forward
is named by the forward's position in the configuration, and a service socket
by the position of its flow in a list that only grows. Counters of datagrams
are in the model of two nodes; the tables here project to those there.

The state records, besides what the node keeps, for which forward and client
each ID was allocated, where replies went, and the messages that a datagram
written to a service was joined from.
-/

namespace UnknownTunnel.App

open Foundation ConfigFile

/-- What `Network` and `String` of a `net.Addr` return. -/
structure Addr where
  network : Bytes
  text : Bytes
  deriving DecidableEq

/-- An `entryUDPFlow` without its counter. -/
structure EntryFlow where
  pc : Nat
  client : Addr
  service : Bytes
  last : Nat
  deriving DecidableEq

/-- A `remoteUDPFlow` without its counter, with the ID it was made for and the
address that its socket was dialed to. -/
structure ServiceFlow where
  flowID : Nat
  address : Bytes
  service : Bytes
  last : Nat
  deriving DecidableEq

/-- What `udpMu` guards, and `closed`. -/
structure UdpFlows where
  closed : Bool := false
  entryUDP : Table Nat EntryFlow := ∅
  entryUDPKeys : Table Bytes Nat := ∅
  remoteUDP : Table Nat Nat := ∅
  remotes : List ServiceFlow := []
  assemblies : Assemblies := ∅

/-- Where `handleUDPDatagram` writes a datagram. -/
inductive Delivery
  | reply (pc : Nat) (client : Addr)
  | service (object : Nat)
  | dropped
  deriving DecidableEq

/-- The key of a client of a forward: its parts separated by vertical bars. -/
def flowKey (forwardName : Bytes) (client : Addr) : Bytes :=
  forwardName ++ [124] ++ client.network ++ [124] ++ client.text

namespace UdpFlows

/-- The flow under which a key is listed. -/
def entryFlow (key : Bytes) (F : UdpFlows) : Option (Nat × EntryFlow) :=
  (Finmap.lookup key F.entryUDPKeys).bind fun id =>
    (Finmap.lookup id F.entryUDP).map fun flow => (id, flow)

/-- The locked part of `getEntryUDPFlow`. `draws` are the values of
`randomID`, of which at most ten are tried. -/
def getEntryUDPFlow (forwardName service : Bytes) (pc : Nat) (client : Addr) (draws : List Nat)
    (now : Nat) (F : UdpFlows) : UdpFlows × Option Nat :=
  match F.entryFlow (flowKey forwardName client) with
  | some (id, flow) =>
      ({ F with entryUDP := F.entryUDP.insert id { flow with last := now } }, some id)
  | none =>
      if maxUDPFlows ≤ F.entryUDP.size then (F, none)
      else
        match (draws.take 10).find? fun id => (Finmap.lookup id F.entryUDP).isNone with
        | none => (F, none)
        | some id =>
            ({ F with
                entryUDP := F.entryUDP.insert id { pc, client, service, last := now }
                entryUDPKeys := F.entryUDPKeys.insert (flowKey forwardName client) id },
              some id)

/-- The locked part of `handleUDPDatagram`. `dialed` is the outcome of
resolving and dialing the service. -/
def handleUDPDatagram (services : Services) (dialed : Bool) (now flowID : Nat) (service : Bytes)
    (F : UdpFlows) : UdpFlows × Delivery :=
  match Finmap.lookup flowID F.entryUDP with
  | some flow =>
      ({ F with entryUDP := F.entryUDP.insert flowID { flow with last := now } },
        .reply flow.pc flow.client)
  | none =>
      match Finmap.lookup flowID F.remoteUDP with
      | some object =>
          ({ F with remotes := F.remotes.modify object fun flow => { flow with last := now } },
            .service object)
      | none =>
          if maxUDPFlows ≤ F.remoteUDP.size then (F, .dropped)
          else
            match services.lookup service with
            | none => (F, .dropped)
            | some svc =>
                if svc.network = udp ∧ dialed then
                  ({ F with
                      remoteUDP := F.remoteUDP.insert flowID F.remotes.length
                      remotes := F.remotes ++
                        [{ flowID, address := svc.address, service, last := now }] },
                    .service F.remotes.length)
                else (F, .dropped)

def deleteRemoteUDP (flowID object : Nat) (F : UdpFlows) : UdpFlows :=
  if Finmap.lookup flowID F.remoteUDP = some object then
    { F with remoteUDP := F.remoteUDP.erase flowID }
  else F

/-- The flow of a client is kept for a while after its last use. -/
def entryAlive (now : Nat) (flow : EntryFlow) : Bool := now - flow.last ≤ udpFlowIdle

/-- Whether `cleanup` keeps the keys that are listed for an ID. -/
def keyAlive (now : Nat) (F : UdpFlows) (id : Nat) : Bool :=
  match Finmap.lookup id F.entryUDP with
  | some flow => entryAlive now flow
  | none => true

def remoteAlive (now : Nat) (F : UdpFlows) (object : Nat) : Bool :=
  match F.remotes[object]? with
  | some flow => now - flow.last ≤ udpFlowIdle
  | none => true

/-- Old assemblies and flows that have not been used for a while are dropped. -/
def cleanup (now : Nat) (F : UdpFlows) : UdpFlows :=
  { F with
    assemblies := F.assemblies.filter fun _ a => now - a.created ≤ udpAssemblyLifetime
    entryUDP := F.entryUDP.filter fun _ flow => entryAlive now flow
    entryUDPKeys := F.entryUDPKeys.filter fun _ id => F.keyAlive now id
    remoteUDP := F.remoteUDP.filter fun _ object => F.remoteAlive now object }

/-- The locked part of `Close`. -/
def clear (F : UdpFlows) : UdpFlows :=
  { F with entryUDP := ∅, entryUDPKeys := ∅, remoteUDP := ∅, assemblies := ∅ }

end UdpFlows

/-! ## Projection -/

/-- What the model of two nodes keeps of a flow. -/
def EntryFlow.brief (flow : EntryFlow) : Bytes × Nat := (flow.service, flow.last)

def EntryUDPFlow.brief (flow : EntryUDPFlow) : Bytes × Nat := (flow.service, flow.last)

def ServiceFlow.brief (flow : ServiceFlow) : Nat × Bytes × Nat :=
  (flow.flowID, flow.service, flow.last)

def RemoteUDPFlow.brief (flow : RemoteUDPFlow) : Nat × Bytes × Nat :=
  (flow.flowID, flow.service, flow.last)

/-- A node of the model of two nodes has the same flows, without their sockets
and clients. -/
structure Projects (F : UdpFlows) (node : UdpNode) : Prop where
  entryUDP : ∀ id, (Finmap.lookup id F.entryUDP).map EntryFlow.brief =
    (Finmap.lookup id node.entryUDP).map EntryUDPFlow.brief
  entryUDPKeys : ∀ key, Finmap.lookup key F.entryUDPKeys = Finmap.lookup key node.entryUDPKeys
  remoteUDP : F.remoteUDP = node.remoteUDP
  remotes : F.remotes.map ServiceFlow.brief = node.remotes.map RemoteUDPFlow.brief
  assemblies : F.assemblies = node.assemblies

namespace Projects

variable {F : UdpFlows} {node : UdpNode} (h : Projects F node)
include h

theorem isSome_entryUDP (id : Nat) :
    (Finmap.lookup id F.entryUDP).isSome = (Finmap.lookup id node.entryUDP).isSome := by
  simpa using congrArg Option.isSome (h.entryUDP id)

theorem size_entryUDP : F.entryUDP.size = node.entryUDP.size :=
  Table.size_congr h.isSome_entryUDP

theorem length_remotes : F.remotes.length = node.remotes.length := by
  simpa using congrArg List.length h.remotes

theorem get_remotes (object : Nat) :
    F.remotes[object]?.map ServiceFlow.brief = node.remotes[object]?.map RemoteUDPFlow.brief := by
  simpa using congrArg (fun remotes => remotes[object]?) h.remotes

/-- An entry flow is replaced on both sides. -/
theorem insert_entryUDP {id : Nat} {flow : EntryFlow} {flow' : EntryUDPFlow}
    (hbrief : flow.brief = flow'.brief) (id' : Nat) :
    (Finmap.lookup id' (F.entryUDP.insert id flow)).map EntryFlow.brief =
      (Finmap.lookup id' (node.entryUDP.insert id flow')).map EntryUDPFlow.brief := by
  rw [Table.lookup_insert_eq, Table.lookup_insert_eq]
  split
  · exact congrArg some hbrief
  · exact h.entryUDP id'

/-- The flow of a key is found on both sides, or on neither. -/
theorem entryFlow (key : Bytes) :
    (F.entryFlow key = none ∧
      ((Finmap.lookup key node.entryUDPKeys).bind fun id =>
        (Finmap.lookup id node.entryUDP).map fun flow => (id, flow)) = none) ∨
    ∃ id flow flow', F.entryFlow key = some (id, flow) ∧
      ((Finmap.lookup key node.entryUDPKeys).bind fun id =>
        (Finmap.lookup id node.entryUDP).map fun flow => (id, flow)) = some (id, flow') ∧
      flow.service = flow'.service ∧ Finmap.lookup key node.entryUDPKeys = some id := by
  rw [UdpFlows.entryFlow, h.entryUDPKeys key]
  cases Finmap.lookup key node.entryUDPKeys with
  | none => exact Or.inl ⟨rfl, rfl⟩
  | some id =>
      have hbrief := h.entryUDP id
      rw [Option.bind_some, Option.bind_some]
      cases hF : Finmap.lookup id F.entryUDP with
      | none =>
          rw [hF, Option.map_none, eq_comm, Option.map_eq_none_iff] at hbrief
          rw [hbrief]
          exact Or.inl ⟨rfl, rfl⟩
      | some flow =>
          rw [hF, Option.map_some, eq_comm, Option.map_eq_some_iff] at hbrief
          obtain ⟨flow', hflow', heq⟩ := hbrief
          rw [hflow']
          exact Or.inr ⟨id, flow, flow', rfl, rfl, (congrArg Prod.fst heq).symm, rfl⟩

/-- A call of `getEntryUDPFlow` returns the same ID and leaves the same flows. -/
theorem getEntryUDPFlow (forwardName service : Bytes) (pc : Nat) (client : Addr)
    (draws : List Nat) (now : Nat) (data : Bytes) :
    match node.readEntry (flowKey forwardName client) service draws now data with
    | none => F.getEntryUDPFlow forwardName service pc client draws now = (F, none)
    | some (after, call) =>
        (F.getEntryUDPFlow forwardName service pc client draws now).2 = some call.flowID ∧
          Projects (F.getEntryUDPFlow forwardName service pc client draws now).1 after := by
  rw [UdpNode.readEntry, UdpNode.getEntryUDPFlow, UdpFlows.getEntryUDPFlow]
  rcases h.entryFlow (flowKey forwardName client) with
    ⟨hF, hN⟩ | ⟨id, flow, flow', hF, hN, hservice, hkey⟩
  · rw [hF, hN, h.size_entryUDP]
    by_cases hsize : maxUDPFlows ≤ node.entryUDP.size
    · simp only [hsize, if_true, Option.map_none]
    · have hfree : (fun id => (Finmap.lookup id F.entryUDP).isNone) =
          fun id => (Finmap.lookup id node.entryUDP).isNone := by
        ext id
        rw [← Option.not_isSome, ← Option.not_isSome, h.isSome_entryUDP]
      simp only [hsize, if_false, hfree]
      cases (draws.take 10).find? fun id => (Finmap.lookup id node.entryUDP).isNone with
      | none => rfl
      | some id =>
          refine ⟨rfl, h.insert_entryUDP rfl, ?_, h.remoteUDP, h.remotes, h.assemblies⟩
          intro key
          rw [Table.lookup_insert_eq, Table.lookup_insert_eq, h.entryUDPKeys]
  · rw [hF, hN]
    refine ⟨rfl, h.insert_entryUDP ?_, ?_, h.remoteUDP, h.remotes, h.assemblies⟩
    · simp only [EntryFlow.brief, EntryUDPFlow.brief, hservice]
    · intro key
      change Finmap.lookup key F.entryUDPKeys = _
      rw [h.entryUDPKeys, Table.lookup_insert_eq]
      by_cases hk : key = flowKey forwardName client
      · rw [if_pos hk, hk, hkey]
      · rw [if_neg hk]

/-- The time of the last use of a service flow is set on both sides. -/
theorem touch_remotes (object now : Nat) :
    (F.remotes.modify object fun flow => { flow with last := now }).map ServiceFlow.brief =
      (node.remotes.modify object fun flow => { flow with last := now }).map
        RemoteUDPFlow.brief := by
  have htouch := congrArg (Option.map fun b : Nat × Bytes × Nat => (b.1, b.2.1, now))
    (h.get_remotes object)
  rw [Option.map_map, Option.map_map] at htouch
  apply List.ext_getElem?
  intro i
  rw [List.getElem?_map, List.getElem?_map, List.getElem?_modify, List.getElem?_modify]
  by_cases hi : object = i
  · simp only [hi, if_true, Option.map_eq_map, Option.map_map] at htouch ⊢
    exact htouch
  · simp only [hi, if_false, id_map', h.get_remotes]

/-- The locked part of `handleUDPDatagram` leaves the same flows, if the write
that follows it does not fail. -/
theorem handleUDPDatagram (services : Services) (dialed : Bool) (now flowID : Nat)
    (service : Bytes) :
    Projects (F.handleUDPDatagram services dialed now flowID service).1
      (node.handleUDPDatagram (fun name => (services.lookup name).any fun s => s.network = udp)
        ⟨dialed, true⟩ now flowID service) := by
  have hentry := h.entryUDP flowID
  rw [UdpFlows.handleUDPDatagram, UdpNode.handleUDPDatagram, h.remoteUDP]
  cases hF : Finmap.lookup flowID F.entryUDP with
  | some flow =>
      rw [hF, Option.map_some, eq_comm, Option.map_eq_some_iff] at hentry
      obtain ⟨flow', hflow', heq⟩ := hentry
      rw [hflow']
      have hservice : flow'.service = flow.service := congrArg Prod.fst heq
      refine ⟨h.insert_entryUDP ?_, h.entryUDPKeys, rfl, h.remotes, h.assemblies⟩
      simp only [EntryFlow.brief, EntryUDPFlow.brief, hservice]
  | none =>
      rw [hF, Option.map_none, eq_comm, Option.map_eq_none_iff] at hentry
      rw [hentry]
      cases hR : Finmap.lookup flowID node.remoteUDP with
      | some object =>
          exact ⟨h.entryUDP, h.entryUDPKeys, rfl, h.touch_remotes object now, h.assemblies⟩
      | none =>
          simp only
          by_cases hsize : maxUDPFlows ≤ node.remoteUDP.size
          · rw [if_pos hsize, if_pos hsize]
            exact h
          · rw [if_neg hsize, if_neg hsize]
            cases hS : services.lookup service with
            | none => simpa [hS] using h
            | some svc =>
                simp only
                by_cases hdial : svc.network = udp ∧ dialed = true
                · rw [if_pos hdial, if_pos (by simpa [hS] using hdial)]
                  refine ⟨h.entryUDP, h.entryUDPKeys, ?_, ?_, h.assemblies⟩
                  · simp [UdpNode.writeRemote, h.length_remotes]
                  · simp [UdpNode.writeRemote, List.modify_eq_take_drop, List.modifyHead, h.remotes,
                      ServiceFlow.brief, RemoteUDPFlow.brief]
                · rw [if_neg hdial, if_neg (by simpa [hS] using hdial)]
                  exact h

theorem deleteRemoteUDP (flowID object : Nat) :
    Projects (F.deleteRemoteUDP flowID object) (node.deleteRemoteUDP flowID object) := by
  have heq := h.remoteUDP
  simp only [UdpFlows.deleteRemoteUDP, UdpNode.deleteRemoteUDP, heq]
  split
  · exact ⟨h.entryUDP, h.entryUDPKeys, rfl, h.remotes, h.assemblies⟩
  · exact h

theorem keyAlive (now id : Nat) :
    F.keyAlive now id = match Finmap.lookup id node.entryUDP with
      | some flow => UdpNode.entryAlive now flow
      | none => true := by
  have hentry := h.entryUDP id
  rw [UdpFlows.keyAlive]
  cases hF : Finmap.lookup id F.entryUDP with
  | none =>
      rw [hF, Option.map_none, eq_comm, Option.map_eq_none_iff] at hentry
      rw [hentry]
  | some flow =>
      rw [hF, Option.map_some, eq_comm, Option.map_eq_some_iff] at hentry
      obtain ⟨flow', hflow', heq⟩ := hentry
      have hlast : flow'.last = flow.last := congrArg Prod.snd heq
      rw [hflow']
      simp only [UdpFlows.entryAlive, UdpNode.entryAlive, hlast]

theorem remoteAlive (now object : Nat) :
    F.remoteAlive now object = node.remoteAlive now object := by
  have hget := h.get_remotes object
  rw [UdpFlows.remoteAlive, UdpNode.remoteAlive]
  cases hF : F.remotes[object]? with
  | none =>
      rw [hF, Option.map_none, eq_comm, Option.map_eq_none_iff] at hget
      rw [hget]
  | some flow =>
      rw [hF, Option.map_some, eq_comm, Option.map_eq_some_iff] at hget
      obtain ⟨flow', hflow', heq⟩ := hget
      have hlast : flow'.last = flow.last := congrArg (fun b => b.2.2) heq
      rw [hflow']
      simp only [hlast]

theorem cleanup (now : Nat) : Projects (F.cleanup now) (node.cleanup now) := by
  have hassemblies := h.assemblies
  have hremote := h.remoteUDP
  refine ⟨?_, ?_, ?_, h.remotes, ?_⟩
  · intro id
    have hentry := congrArg
      (Option.filter fun b : Bytes × Nat => decide (now - b.2 ≤ udpFlowIdle)) (h.entryUDP id)
    rw [Option.filter_map, Option.filter_map] at hentry
    rw [UdpFlows.cleanup, UdpNode.cleanup, Table.lookup_filter_eq, Table.lookup_filter_eq]
    exact hentry
  · intro key
    rw [UdpFlows.cleanup, UdpNode.cleanup, Table.lookup_filter_eq, Table.lookup_filter_eq,
      h.entryUDPKeys]
    have halive := funext (h.keyAlive now)
    exact congrArg (fun alive => Option.filter alive (Finmap.lookup key node.entryUDPKeys)) halive
  · simp only [UdpFlows.cleanup, UdpNode.cleanup, hremote, h.remoteAlive]
  · simp only [UdpFlows.cleanup, UdpNode.cleanup, hassemblies]

end Projects

/-! ## The goroutines -/

/-- Where the loop that handles messages stands with a joined datagram: before
the test of `closed`, before locking, and before the write to a service. -/
inductive DatagramStage
  | idle
  | joined (flowID : Nat) (service data : Bytes) (messages : List UdpMessage)
  | entering (flowID : Nat) (service data : Bytes) (messages : List UdpMessage)
  | writing (flowID object : Nat) (data : Bytes) (messages : List UdpMessage)
  deriving DecidableEq

/-- A write to a service socket, with the messages of the datagram. -/
structure ServiceWrite where
  object : Nat
  data : Bytes
  messages : List UdpMessage
  deriving DecidableEq

/-- The flows and the goroutines that use them. `calls` are the calls of
`getEntryUDPFlow` that have found `closed` unset, `parts` the messages put into
the assembly of a key. -/
structure FlowSystem where
  flows : UdpFlows
  calls : List (Nat × Addr)
  incoming : DatagramStage
  parts : Nat × Nat → List UdpMessage
  allocated : List (Nat × Nat × Addr)
  replies : List (Nat × Nat × Addr)
  written : List ServiceWrite

/-- The critical sections on the tables, and the calls between them. -/
inductive FlowEvent
  | read (i : Nat) (client : Addr)
  | enter (call : Nat) (draws : List Nat) (now : Nat)
  | message (now : Nat) (m : UdpMessage)
  | check
  | look (now : Nat) (dialed : Bool)
  | write (written : Bool)
  | remoteError (object : Nat)
  | cleanup (now : Nat)
  | close
  | clear

namespace FlowSystem

def start : FlowSystem where
  flows := {}
  calls := []
  incoming := .idle
  parts := fun _ => []
  allocated := []
  replies := []
  written := []

variable (cfg : Config)

/-- The reader of a forward, which is not a TCP forward, gets addresses from a
UDP socket: the name of their network has no vertical bar. -/
def enabled (S : FlowSystem) : FlowEvent → Prop
  | .read i client => (∃ f ∈ cfg.forwards[i]?, f.protocol ≠ tcp) ∧ 124 ∉ client.network
  | .message _ _ => S.incoming = .idle
  | .clear => S.flows.closed = true
  | _ => True

instance decidableEnabled (S : FlowSystem) : ∀ e, Decidable (S.enabled cfg e)
  | .read i client => inferInstanceAs (Decidable
      ((∃ f ∈ cfg.forwards[i]?, f.protocol ≠ tcp) ∧ 124 ∉ client.network))
  | .message _ _ => inferInstanceAs (Decidable (S.incoming = .idle))
  | .clear => inferInstanceAs (Decidable (S.flows.closed = true))
  | .enter _ _ _ | .check | .look _ _ | .write _ | .remoteError _ | .cleanup _ | .close =>
      isTrue trivial

/-- The locked part of a call of `getEntryUDPFlow`. -/
def enter (S : FlowSystem) (call : Nat) (draws : List Nat) (now : Nat) : FlowSystem :=
  match S.calls[call]? with
  | none => S
  | some (i, client) =>
      match cfg.forwards[i]? with
      | none => S
      | some f =>
          let (flows, id) := S.flows.getEntryUDPFlow f.name f.service i client draws now
          let made := (S.flows.entryFlow (flowKey f.name client)).isNone
          { S with
            flows
            calls := S.calls.eraseIdx call
            allocated :=
              S.allocated ++ if made then id.toList.map fun id => (id, i, client) else [] }

/-- Whether `handleUDPChunk` takes the part number and the total of a message. -/
def fits (m : UdpMessage) : Prop :=
  4 ≤ m.payload.length ∧
    Bytes.beGet (Bytes.slice 0 2 m.payload) < Bytes.beGet (Bytes.slice 2 4 m.payload) ∧
    Bytes.beGet (Bytes.slice 2 4 m.payload) ≤ 128

instance (m : UdpMessage) : Decidable (fits m) := inferInstanceAs (Decidable (_ ∧ _))

/-- The messages in the assembly of a key, with one more. -/
def gather (S : FlowSystem) (m : UdpMessage) : List UdpMessage :=
  match Finmap.lookup m.key S.flows.assemblies with
  | none => [m]
  | some _ => S.parts m.key ++ [m]

/-- The locked part of `handleUDPChunk`. -/
def receive (S : FlowSystem) (now : Nat) (m : UdpMessage) : FlowSystem :=
  let (assemblies, whole) := handleUDPChunk now m S.flows.assemblies
  { S with
    flows := { S.flows with assemblies }
    parts := if fits m then Function.update S.parts m.key (S.gather m) else S.parts
    incoming :=
      match whole with
      | none => .idle
      | some (service, data) => .joined m.connID service data (S.gather m) }

/-- The locked part of `handleUDPDatagram`, and the write of a reply. -/
def look (S : FlowSystem) (now : Nat) (dialed : Bool) : FlowSystem :=
  match S.incoming with
  | .entering flowID service data messages =>
      let (flows, delivery) := S.flows.handleUDPDatagram cfg.services dialed now flowID service
      match delivery with
      | .reply pc client =>
          { S with flows, incoming := .idle, replies := S.replies ++ [(flowID, pc, client)] }
      | .service object => { S with flows, incoming := .writing flowID object data messages }
      | .dropped => { S with flows, incoming := .idle }
  | _ => S

def apply (S : FlowSystem) : FlowEvent → FlowSystem
  | .read i client =>
      if S.flows.closed then S else { S with calls := S.calls ++ [(i, client)] }
  | .enter call draws now => S.enter cfg call draws now
  | .message now m => S.receive now m
  | .check =>
      match S.incoming with
      | .joined flowID service data messages =>
          { S with
            incoming := if S.flows.closed then .idle else .entering flowID service data messages }
      | _ => S
  | .look now dialed => S.look cfg now dialed
  | .write written =>
      match S.incoming with
      | .writing flowID object data messages =>
          { S with
            flows := if written then S.flows else S.flows.deleteRemoteUDP flowID object
            incoming := .idle
            written := S.written ++ [⟨object, data, messages⟩] }
      | _ => S
  | .remoteError object =>
      match S.flows.remotes[object]? with
      | some flow => { S with flows := S.flows.deleteRemoteUDP flow.flowID object }
      | none => S
  | .cleanup now => { S with flows := S.flows.cleanup now }
  | .close => { S with flows := { S.flows with closed := true } }
  | .clear => { S with flows := S.flows.clear }

end FlowSystem

/-- The UDP flows of a node with the given configuration. -/
def flowMachine (cfg : Config) : Machine FlowSystem FlowEvent where
  init S := S = FlowSystem.start
  enabled := FlowSystem.enabled cfg
  apply := FlowSystem.apply cfg

instance (cfg : Config) : ∀ S e, Decidable ((flowMachine cfg).enabled S e) :=
  FlowSystem.decidableEnabled cfg

end UnknownTunnel.App

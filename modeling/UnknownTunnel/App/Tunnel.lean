import UnknownTunnel.App.Dedupe
import UnknownTunnel.App.MessageSize
import UnknownTunnel.App.TcpOrder
import UnknownTunnel.Foundation.Channel
import UnknownTunnel.Transport.Forwarding
import UnknownTunnel.Transport.Handshake

/-!
# One direction of the whole tunnel

A node sends its messages over any number of links of either carrier. The
peer's manager forwards what its sessions receive to one queue, from which the
application takes message after message: it drops duplicates, writes the
chunks of TCP flows to their connections and IP packets to its TUN device.

## Implementation notes

The links are the channels of a bank. `Manager.Send` may hand a message to any
link and any number of times, which covers every order of carriers, failover
and retry. A session's receive queue may lag behind what its link has
delivered; the first payload of a link is the key confirmation, which is
consumed before the session is added to the manager. A connection ID stands
for one connection of the sender. The goroutines that open and close
connections of the receiver are free to do so at any time.
-/

namespace UnknownTunnel.App

open Foundation ConfigFile Protocol Transport

/-! ## The sender -/

/-- The counter `msgID`, the messages passed to `send`, the chunks that
`pumpTCP` has read from each connection, and the packets of `tunReadLoop`. -/
structure Sender where
  msgID : UInt64
  sent : List Message
  pumped : UInt64 → List Bytes
  tunRead : List Bytes

/-- One message of a place where `send` is called. -/
structure SenderEvent where
  site : SendSite
  message : Message

namespace Sender

def start (seed : UInt64) : Sender := ⟨seed, [], fun _ => [], []⟩

/-- `pumpTCP` numbers its chunks from one on. -/
def numbered (S : Sender) : SendSite → Prop
  | .pumpTCP connID seq _ =>
      seq = UInt64.ofNat ((S.pumped connID).length + 1) ∧ (S.pumped connID).length + 2 < 2 ^ 64
  | _ => True

def enabled (cfg : Config) (S : Sender) (e : SenderEvent) : Prop :=
  e.site.Possible cfg ∧ e.message ∈ e.site.messages cfg ∧ S.numbered e.site

/-- What the place has read, beside the message it sends. -/
def record (S : Sender) : SendSite → Sender
  | .pumpTCP connID _ read =>
      { S with pumped := Function.update S.pumped connID (S.pumped connID ++ [read]) }
  | .tunReadLoop packet => { S with tunRead := S.tunRead ++ [packet] }
  | _ => S

/-- `send` draws the next ID. -/
def send (S : Sender) (m : Message) : Sender :=
  { S with
    msgID := sendID S.msgID
    sent := S.sent ++ [{ m with id := sendID S.msgID }] }

def apply (S : Sender) (e : SenderEvent) : Sender := (S.record e.site).send e.message

end Sender

/-! ## The receiver -/

/-- A connection of the receiver with the ID it was registered under. -/
structure Stream where
  connID : UInt64
  state : TcpState

/-- The application at the receiving end. A stream stays in the list when it
is closed; `tcpConns` has the registered ones. `tunWritten` has the packets passed
to `Write` of the device, whether or not the write succeeds. -/
structure Receiver where
  app : Incoming
  streams : List Stream
  tcpConns : Table UInt64 Nat
  tunOpen : Bool
  tunWritten : List Bytes

/-- What other goroutines do to the receiver. -/
inductive ReceiverEvent
  | register (connID : UInt64)
  | closeTCP (connID : UInt64)
  | closeTun

namespace Receiver

def start : Receiver := ⟨⟨newSeen, []⟩, [], ∅, true, []⟩

def closeTCP (R : Receiver) (connID : UInt64) : Receiver :=
  { R with tcpConns := R.tcpConns.erase connID }

def apply (R : Receiver) : ReceiverEvent → Receiver
  | .register connID =>
      { R with
        streams := R.streams ++ [⟨connID, newTCPState⟩]
        tcpConns := R.tcpConns.insert connID R.streams.length }
  | .closeTCP connID => R.closeTCP connID
  | .closeTun => { R with tunOpen := false }

/-- A packet is written if Layer 3 is enabled, the filter lets it pass and the device
is open. -/
def handleIPPacket (cfg : Config) (R : Receiver) (packet : Bytes) : Receiver :=
  if cfg.l3.enabled = true ∧ Tun.packetAllowed packet cfg.l3.allowProtocols = some true ∧
      R.tunOpen = true then
    { R with tunWritten := R.tunWritten ++ [packet] }
  else R

/-- `writes` is what the connection answers. An error closes the connection. -/
def handleTCPData (writes : Nat → List ConnWrite) (R : Receiver) (m : Message) : Receiver :=
  match Finmap.lookup m.connID R.tcpConns with
  | none => R
  | some j =>
      match R.streams[j]? with
      | none => R
      | some stream =>
          let result := stream.state.writeOrdered writes m.seq.toNat m.payload
          let written := { R with streams := R.streams.set j ⟨stream.connID, result.1⟩ }
          if result.2 = none then written else written.closeTCP m.connID

/-- The messages that touch connections or the device at once. The other ones
start goroutines or answer the peer. -/
def handleMessage (cfg : Config) (writes : Nat → List ConnWrite) (R : Receiver) (m : Message) :
    Receiver :=
  if m.type = typeIPPacket then R.handleIPPacket cfg m.payload
  else if m.type = typeTCPData then R.handleTCPData writes m
  else if m.type = typeTCPClose then R.closeTCP m.connID
  else R

/-- The message that a turn of `incomingLoop` passes to `handleMessage`. -/
def accepted (a : Incoming) (raw : Bytes) : Option Message :=
  match decode raw with
  | .error _ => none
  | .ok m => if (isDuplicate a.seen m.id).2 then none else some m

/-- A turn of `incomingLoop`. -/
def receive (cfg : Config) (writes : Nat → List ConnWrite) (R : Receiver) (raw : Bytes) :
    Receiver :=
  match accepted R.app raw with
  | none => { R with app := R.app.receive raw }
  | some m => ({ R with app := R.app.receive raw }).handleMessage cfg writes m

end Receiver

/-! ## The tunnel -/

variable {σ ε : Type}

/-- The sending application, the links between the managers, and the receiving one. -/
structure Tunnel (σ : Type) where
  sender : Sender
  links : List σ
  /-- The link of each session of the receiver's manager. -/
  attached : List Nat
  manager : Manager
  receiver : Receiver

/-- A step of an application, of the receiver's manager or of a link, or of what joins
them. -/
inductive TunnelEvent (σ ε : Type)
  | sender (e : SenderEvent)
  | connect (link : σ)
  | link (i : Nat) (e : ε)
  /-- `addSession` of a link's session with the first `n` messages queued. -/
  | attach (i n : Nat) (finished : Bool)
  | publish (i : Nat)
  | manage (e : ManagerEvent)
  | consume (writes : Nat → List ConnWrite)
  | receiver (e : ReceiverEvent)

/-- The steps of the manager that neither take a session's payloads nor hand
messages out. -/
def isInternal : ManagerEvent → Bool
  | .add _ _ _ | .put _ _ | .consume => false
  | _ => true

/-- What a link may be asked to send: a key confirmation or a message. -/
def Authentic (sent : List Message) (raw : Bytes) : Prop :=
  raw = clientConfirm ∨ raw = serverConfirm ∨ ∃ m ∈ sent, encode m = .ok raw

/-- The configurations of the two nodes and the links between them. -/
structure Deployment (σ ε : Type) where
  channel : Channel σ ε Bytes
  kind : σ → Carrier
  sender : Config
  receiver : Config

namespace Tunnel

variable (N : Deployment σ ε)

/-- The two applications after `New`, and no link yet. -/
def start (seed : UInt64) : Tunnel σ where
  sender := Sender.start seed
  links := []
  attached := []
  manager := Manager.start
  receiver := Receiver.start

/-- The payload of a session's link that comes next in its receive queue. -/
def next (T : Tunnel σ) (i : Nat) : Option Bytes := do
  let o ← T.manager.objects[i]?
  let k ← T.attached[i]?
  let s ← T.links[k]?
  ((N.channel.received s).drop 1)[o.put.length]?

/-- The messages a link has delivered when its session is added. -/
def queued (T : Tunnel σ) (i n : Nat) : List Bytes :=
  match T.links[i]? with
  | none => []
  | some s => ((N.channel.received s).drop 1).take n

def kindOf (T : Tunnel σ) (i : Nat) : Carrier := (T.links[i]?.map N.kind).getD .tcp

def enabled (T : Tunnel σ) : TunnelEvent σ ε → Prop
  | .sender e => T.sender.enabled N.sender e
  | .connect s => N.channel.init s
  | .link i e => ∃ s, T.links[i]? = some s ∧ N.channel.enabled s e ∧
      ∀ raw, N.channel.offers e = some raw → Authentic T.sender.sent raw
  | .attach i n finished => i < T.links.length ∧
      T.manager.enabled (.add (T.kindOf N i) (T.queued N i n) finished)
  | .publish i => ∃ raw, T.next N i = some raw ∧ T.manager.enabled (.put i raw)
  | .manage e => isInternal e = true ∧ T.manager.enabled e
  | .consume _ => T.manager.incoming ≠ []
  | .receiver _ => True

def apply (T : Tunnel σ) : TunnelEvent σ ε → Tunnel σ
  | .sender e => { T with sender := T.sender.apply e }
  | .connect s => { T with links := T.links ++ [s] }
  | .link i e => { T with links := N.channel.stepAt i e T.links }
  | .attach i n finished =>
      { T with
        attached := T.attached ++ [i]
        manager := T.manager.apply (.add (T.kindOf N i) (T.queued N i n) finished) }
  | .publish i =>
      match T.next N i with
      | none => T
      | some raw => { T with manager := T.manager.apply (.put i raw) }
  | .manage e => { T with manager := T.manager.apply e }
  | .consume writes =>
      match T.manager.incoming with
      | [] => T
      | (_, raw) :: _ =>
          { T with
            manager := T.manager.apply .consume
            receiver := T.receiver.receive N.receiver writes raw }
  | .receiver e => { T with receiver := T.receiver.apply e }

end Tunnel

/-- The whole way of a message from one application to the other. -/
def tunnelMachine (N : Deployment σ ε) (seed : UInt64) : Machine (Tunnel σ) (TunnelEvent σ ε) where
  init := fun T => T = Tunnel.start seed
  enabled := Tunnel.enabled N
  apply := Tunnel.apply N

end UnknownTunnel.App

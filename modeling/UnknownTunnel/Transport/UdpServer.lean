import UnknownTunnel.Foundation.Machine
import UnknownTunnel.Transport.Handshake
import UnknownTunnel.Transport.UdpSession

/-!
# The UDP server

The state of a `udpServer` and the atomic steps of its goroutines: the read
loop, which handles hellos and routes datagrams, and for each session a
reaper and a confirmation goroutine. Critical sections of the mutex are
single steps, so every state between two steps is one in which the mutex is
free.

## Implementation notes

Session objects are numbered in order of creation, and a table entry holds
such a number where the source holds a pointer. Drawn identifiers and nonces,
clock readings and the outcomes of writes are carried by the events. The
datagrams delivered to a session are a history variable.
-/

namespace UnknownTunnel.Transport

open Foundation

def maxUDPSessions : Nat := 64

/-- The local and the expected peer identifier and the shared secret. -/
structure NodeConfig where
  nodeID : Bytes
  peerID : Bytes
  secret : Bytes

/-- The goroutine that removes a finished session. -/
inductive ReaperState
  | unstarted
  | waiting
  | finished
  deriving DecidableEq

/-- The goroutine that confirms and exposes a session. -/
inductive ConfirmState
  | unstarted
  /-- In the select of `confirmSessionServer`. -/
  | waiting
  /-- In the `Send` call that answers the client's confirmation. -/
  | sending
  /-- Past `confirmSessionServer`, before the critical section. -/
  | confirmed
  /-- Past the critical section, about to close the session it replaced. -/
  | committed (old : Option Nat)
  /-- About to call `onSession`. -/
  | exposing
  | exposed
  /-- The confirmation failed; about to close its own session. -/
  | failing
  /-- Confirmed but no longer in the table; about to close its own session. -/
  | dropped
  | failed
  deriving DecidableEq

/-- A session object with what `handleHello` captures for its goroutines. -/
structure ServerSession where
  sessionID : Nat
  remote : Bytes
  clientNonce : Bytes
  serverNonce : Bytes
  session : UdpSession
  reaper : ReaperState
  confirm : ConfirmState
  delivered : List Bytes

/-- The position of the read loop. -/
inductive ReaderState
  | idle
  /-- A hello has passed its checks and the server has room. -/
  | hello (remote : Bytes) (hello : Handshake)
  /-- The session object is registered, its welcome is to be written. -/
  | welcoming (i : Nat)
  /-- A datagram has been routed to a session object. -/
  | delivering (i : Nat) (packet : Bytes)
  | stopped
  deriving DecidableEq

/-- The progress of `Close`. -/
inductive ShutdownState
  | running
  | closing
  | closed
  deriving DecidableEq

/-- The tables of the server, all session objects it has made, and where its
goroutines stand. -/
structure UdpServer where
  sessions : Table Nat Nat
  sessionRemote : Table Nat Bytes
  byRemote : Table Bytes Nat
  objects : List ServerSession
  reader : ReaderState
  shutdown : ShutdownState

/-- The steps of the read loop, of the goroutines of each session and of `Close`. -/
inductive ServerEvent
  | datagram (now : Int) (remote packet : Bytes)
  | readError
  | deliver
  | register (sessionID : Nat) (serverNonce : Bytes) (timestamp : Int)
  | abandon
  | welcome (ok : Bool)
  | reap (i : Nat)
  | confirmReceive (i : Nat)
  | confirmTimeout (i : Nat)
  | confirmCommit (i : Nat)
  | closeSelf (i : Nat)
  | closeOld (i : Nat)
  | expose (i : Nat)
  | session (i : Nat) (e : UdpEvent)
  | closeStart
  | closeTables

namespace ServerSession

variable (C : Crypto)

def close (o : ServerSession) : ServerSession :=
  { o with session := { o.session with closed := true } }

def deliver (packet : Bytes) (o : ServerSession) : ServerSession :=
  { o with
    session := o.session.deliverPacket packet
    delivered := o.delivered ++ [packet] }

/-- The two goroutines started after the welcome is written. -/
def start (o : ServerSession) : ServerSession :=
  { o with reaper := .waiting, confirm := .waiting }

/-- The first payload received decides: `Send` is called to answer the
client's confirmation, and refuses at once on a closed session. -/
def receiveConfirm (o : ServerSession) : ServerSession :=
  if o.session.recv.output.head? = some clientConfirm then
    if o.session.closed then { o with confirm := .failing }
    else
      { o with
        session := o.session.apply C (.sendCheck serverConfirm)
        confirm := .sending }
  else { o with confirm := .failing }

/-- How the end of the answering `Send` call moves the goroutine on. -/
def confirmAfter : ConfirmState → UdpEvent → ConfirmState
  | .sending, .sendWrite _ _ true => .confirmed
  | .sending, .sendRefuse _ => .failing
  | .sending, .sendRelease _ => .failing
  | c, _ => c

/-- A step of the session's own goroutines or of its users. -/
def step (e : UdpEvent) (o : ServerSession) : ServerSession :=
  { o with session := o.session.apply C e, confirm := confirmAfter o.confirm e }

/-- Only the read loop delivers, and only an exposed session has users. -/
def MayStep (o : ServerSession) : UdpEvent → Prop
  | .deliver _ => False
  | .sendCheck _ => o.confirm = .exposed
  | .close => o.confirm = .exposed
  | _ => True

instance decidableMayStep (o : ServerSession) : ∀ e, Decidable (o.MayStep e)
  | .deliver _ => isFalse id
  | .sendCheck _ | .close => inferInstanceAs (Decidable (o.confirm = .exposed))
  | .sendRefuse _ | .sendAcquire _ | .sendSeal _ | .sendInsert _ _ | .sendWrite _ _ _
  | .sendRelease _ | .packetLoop _ | .loopRelease | .loopReturn | .retransmit _ _ => isTrue trivial

end ServerSession

namespace UdpServer

variable (C : Crypto) (cfg : NodeConfig)

def start : UdpServer where
  sessions := ∅
  sessionRemote := ∅
  byRemote := ∅
  objects := []
  reader := .idle
  shutdown := .running

/-- The hello a datagram carries, if it is authentic and acceptable. -/
def acceptHello (now : Int) (packet : Bytes) : Option Handshake :=
  match decodeHandshake C packet [] cfg.secret with
  | .error _ => none
  | .ok hello =>
      match validateHandshake now hello handshakeHello cfg.peerID cfg.nodeID with
      | .error _ => none
      | .ok _ => some hello

/-- `readLoop` up to the next lock or call. -/
def readLoop (S : UdpServer) (now : Int) (remote packet : Bytes) : ReaderState :=
  if packet.take 4 = handshakeMagic then
    match acceptHello C cfg now packet with
    | none => .idle
    | some hello => if maxUDPSessions ≤ S.sessions.size then .idle else .hello remote hello
  else if packet.length < udpHeaderLen ∨ packet.take 4 ≠ udpDataMagic then .idle
  else
    match Finmap.lookup (udpSessionID packet) S.sessions with
    | none => .idle
    | some i =>
        if Finmap.lookup (udpSessionID packet) S.sessionRemote = some remote then
          .delivering i packet
        else .idle

/-- The welcome that answers a hello. -/
def welcomeFor (hello : Handshake) (sessionID : Nat) (serverNonce : Bytes) (timestamp : Int) :
    Except HandshakeError Bytes :=
  encodeHandshake C
    { kind := handshakeWelcome
      sessionID := sessionID
      timestamp := timestamp
      nonce := serverNonce
      nodeID := cfg.nodeID
      peerID := cfg.peerID }
    hello.nonce cfg.secret

/-- The session object that answers a hello. -/
def newSession (remote : Bytes) (hello : Handshake) (sessionID : Nat) (serverNonce : Bytes) :
    ServerSession :=
  let keys := C.deriveKeys cfg.secret hello.nonce serverNonce cfg.peerID cfg.nodeID
  { sessionID := sessionID
    remote := remote
    clientNonce := hello.nonce
    serverNonce := serverNonce
    session := newUDPSession sessionID keys.serverSend keys.clientSend keys.serverAck keys.clientAck
    reaper := .unstarted
    confirm := .unstarted
    delivered := [] }

/-- The rest of `handleHello` up to the write of the welcome. -/
def register (S : UdpServer) (sessionID : Nat) (serverNonce : Bytes) (timestamp : Int) :
    UdpServer :=
  match S.reader with
  | .hello remote hello =>
      match welcomeFor C cfg hello sessionID serverNonce timestamp with
      | .error _ => { S with reader := .idle }
      | .ok _ =>
          { S with
            sessions := S.sessions.insert sessionID S.objects.length
            sessionRemote := S.sessionRemote.insert sessionID remote
            objects := S.objects ++ [newSession C cfg remote hello sessionID serverNonce]
            reader := .welcoming S.objects.length }
  | _ => S

/-- The tables after the critical section of a reaper. -/
def reapTables (S : UdpServer) (i : Nat) (o : ServerSession) : UdpServer :=
  if Finmap.lookup o.sessionID S.sessions = some i then
    { S with
      sessions := S.sessions.erase o.sessionID
      sessionRemote := S.sessionRemote.erase o.sessionID
      byRemote := if Finmap.lookup o.remote S.byRemote = some o.sessionID
        then S.byRemote.erase o.remote else S.byRemote }
  else S

/-- The session a confirmed one replaces. -/
def replaced (S : UdpServer) (o : ServerSession) : Option Nat :=
  let oldID := (Finmap.lookup o.remote S.byRemote).getD 0
  if oldID ≠ 0 ∧ oldID ≠ o.sessionID then Finmap.lookup oldID S.sessions else none

/-- The tables after the critical section of a confirmation. -/
def commitTables (S : UdpServer) (i : Nat) (o : ServerSession) : UdpServer :=
  if Finmap.lookup o.sessionID S.sessions = some i then
    { S with byRemote := S.byRemote.insert o.remote o.sessionID }
  else S

/-- The confirmation goroutine after its critical section. -/
def commitState (S : UdpServer) (i : Nat) (o : ServerSession) : ConfirmState :=
  if Finmap.lookup o.sessionID S.sessions = some i then .committed (S.replaced o) else .dropped

/-- The session objects a step calls `Close` on. -/
def closes (S : UdpServer) (e : ServerEvent) (j : Nat) (o : ServerSession) : Bool :=
  match e with
  | .welcome false => decide (S.reader = .welcoming j)
  | .closeSelf i => decide (i = j)
  | .closeOld i => match S.objects[i]? with
      | some p => decide (p.confirm = .committed (some j))
      | none => false
  | .closeTables => decide (Finmap.lookup o.sessionID S.sessions = some j)
  | _ => false

/-- What a step does to a session object besides closing it. -/
def advance (S : UdpServer) (e : ServerEvent) (j : Nat) (o : ServerSession) : ServerSession :=
  match e with
  | .deliver => match S.reader with
      | .delivering i packet => if i = j then o.deliver packet else o
      | _ => o
  | .welcome true => if S.reader = .welcoming j then o.start else o
  | .reap i => if i = j then { o with reaper := .finished } else o
  | .confirmReceive i => if i = j then o.receiveConfirm C else o
  | .confirmTimeout i => if i = j then { o with confirm := .failing } else o
  | .confirmCommit i => if i = j then { o with confirm := S.commitState j o } else o
  | .closeSelf i => if i = j then { o with confirm := .failed } else o
  | .closeOld i => if i = j then { o with confirm := .exposing } else o
  | .expose i => if i = j then { o with confirm := .exposed } else o
  | .session i e => if i = j then o.step C e else o
  | _ => o

/-- A session object after a step. -/
def objectAfter (S : UdpServer) (e : ServerEvent) (j : Nat) (o : ServerSession) :
    ServerSession :=
  if S.closes e j o then (S.advance C e j o).close else S.advance C e j o

/-- The tables and the read loop after a step. -/
def control (S : UdpServer) (e : ServerEvent) : UdpServer :=
  match e with
  | .datagram now remote packet => { S with reader := S.readLoop C cfg now remote packet }
  | .readError => { S with reader := .stopped }
  | .deliver => { S with reader := .idle }
  | .register sessionID serverNonce timestamp =>
      S.register C cfg sessionID serverNonce timestamp
  | .abandon => { S with reader := .idle }
  | .welcome _ => { S with reader := .idle }
  | .reap i => match S.objects[i]? with
      | some o => S.reapTables i o
      | none => S
  | .confirmCommit i => match S.objects[i]? with
      | some o => S.commitTables i o
      | none => S
  | .closeStart => { S with shutdown := .closing }
  | .closeTables =>
      { S with sessions := ∅, sessionRemote := ∅, byRemote := ∅, shutdown := .closed }
  | _ => S

def apply (S : UdpServer) (e : ServerEvent) : UdpServer :=
  { S.control C cfg e with
    objects := (S.control C cfg e).objects.mapIdx (S.objectAfter C e) }

/-- When a step can be taken. Drawn identifiers are not in the table. -/
def enabled (S : UdpServer) : ServerEvent → Prop
  | .datagram _ _ _ => S.reader = .idle
  | .readError => S.reader = .idle
  | .deliver => ∃ i packet, S.reader = .delivering i packet
  | .register sessionID serverNonce timestamp =>
      (∃ remote hello, S.reader = .hello remote hello) ∧ 0 < sessionID ∧ sessionID < 2 ^ 64 ∧
        sessionID ∉ S.sessions ∧ serverNonce.length = 32 ∧
        -2 ^ 63 ≤ timestamp ∧ timestamp < 2 ^ 63
  | .abandon => ∃ remote hello, S.reader = .hello remote hello
  | .welcome _ => ∃ i, S.reader = .welcoming i
  | .reap i => ∃ o, S.objects[i]? = some o ∧ o.reaper = .waiting ∧ o.session.closed = true
  | .confirmReceive i =>
      ∃ o, S.objects[i]? = some o ∧ o.confirm = .waiting ∧ o.session.recv.output ≠ []
  | .confirmTimeout i => ∃ o, S.objects[i]? = some o ∧ o.confirm = .waiting
  | .confirmCommit i => ∃ o, S.objects[i]? = some o ∧ o.confirm = .confirmed
  | .closeSelf i =>
      ∃ o, S.objects[i]? = some o ∧ (o.confirm = .failing ∨ o.confirm = .dropped)
  | .closeOld i => ∃ o old, S.objects[i]? = some o ∧ o.confirm = .committed old
  | .expose i => ∃ o, S.objects[i]? = some o ∧ o.confirm = .exposing
  | .session i e => ∃ o, S.objects[i]? = some o ∧ o.session.enabled e ∧ o.MayStep e
  | .closeStart => S.shutdown = .running
  | .closeTables => S.shutdown = .closing

instance decidableDelivering : (r : ReaderState) → Decidable (∃ i packet, r = .delivering i packet)
  | .delivering i packet => isTrue ⟨i, packet, rfl⟩
  | .idle | .hello _ _ | .welcoming _ | .stopped => isFalse fun ⟨_, _, h⟩ => by cases h

instance decidableHello : (r : ReaderState) → Decidable (∃ remote hello, r = .hello remote hello)
  | .hello remote hello => isTrue ⟨remote, hello, rfl⟩
  | .idle | .delivering _ _ | .welcoming _ | .stopped => isFalse fun ⟨_, _, h⟩ => by cases h

instance decidableWelcoming : (r : ReaderState) → Decidable (∃ i, r = .welcoming i)
  | .welcoming i => isTrue ⟨i, rfl⟩
  | .idle | .hello _ _ | .delivering _ _ | .stopped => isFalse fun ⟨_, h⟩ => by cases h

instance decidableCommitted : (c : ConfirmState) → Decidable (∃ old, c = .committed old)
  | .committed old => isTrue ⟨old, rfl⟩
  | .unstarted | .waiting | .sending | .confirmed | .exposing | .exposed | .failing | .dropped
  | .failed => isFalse fun ⟨_, h⟩ => by cases h

instance decidableEnabled (S : UdpServer) : ∀ e, Decidable (S.enabled e)
  | .datagram _ _ _ | .readError => inferInstanceAs (Decidable (S.reader = .idle))
  | .deliver => decidableDelivering S.reader
  | .register sessionID serverNonce timestamp =>
      inferInstanceAs (Decidable ((∃ remote hello, S.reader = .hello remote hello) ∧
        0 < sessionID ∧ sessionID < 2 ^ 64 ∧ sessionID ∉ S.sessions ∧ serverNonce.length = 32 ∧
          -2 ^ 63 ≤ timestamp ∧ timestamp < 2 ^ 63))
  | .abandon => decidableHello S.reader
  | .welcome _ => decidableWelcoming S.reader
  | .reap i => inferInstanceAs (Decidable (∃ o, o ∈ S.objects[i]? ∧ o.reaper = .waiting ∧
      o.session.closed = true))
  | .confirmReceive i => inferInstanceAs (Decidable (∃ o, o ∈ S.objects[i]? ∧
      o.confirm = .waiting ∧ o.session.recv.output ≠ []))
  | .confirmTimeout i =>
      inferInstanceAs (Decidable (∃ o, o ∈ S.objects[i]? ∧ o.confirm = .waiting))
  | .confirmCommit i =>
      inferInstanceAs (Decidable (∃ o, o ∈ S.objects[i]? ∧ o.confirm = .confirmed))
  | .closeSelf i => inferInstanceAs (Decidable (∃ o, o ∈ S.objects[i]? ∧
      (o.confirm = .failing ∨ o.confirm = .dropped)))
  | .closeOld i =>
      decidable_of_iff (∃ o, o ∈ S.objects[i]? ∧ ∃ old, o.confirm = .committed old)
        ⟨fun ⟨o, ho, old, hc⟩ => ⟨o, old, ho, hc⟩, fun ⟨o, old, ho, hc⟩ => ⟨o, ho, old, hc⟩⟩
  | .expose i => inferInstanceAs (Decidable (∃ o, o ∈ S.objects[i]? ∧ o.confirm = .exposing))
  | .session i e => inferInstanceAs (Decidable (∃ o, o ∈ S.objects[i]? ∧
      o.session.enabled e ∧ o.MayStep e))
  | .closeStart => inferInstanceAs (Decidable (S.shutdown = .running))
  | .closeTables => inferInstanceAs (Decidable (S.shutdown = .closing))

end UdpServer

/-- The goroutines of the server in any interleaving. -/
def serverMachine (C : Crypto) (cfg : NodeConfig) : Machine UdpServer ServerEvent where
  init := fun S => S = UdpServer.start
  enabled := UdpServer.enabled
  apply := UdpServer.apply C cfg

instance decidableServerEnabled (C : Crypto) (cfg : NodeConfig) (S : UdpServer) (e : ServerEvent) :
    Decidable ((serverMachine C cfg).enabled S e) :=
  UdpServer.decidableEnabled S e

end UnknownTunnel.Transport

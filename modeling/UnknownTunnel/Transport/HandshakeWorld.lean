import UnknownTunnel.Transport.Dial
import UnknownTunnel.Transport.UdpServerTables

/-!
# Two nodes and an attacker

A client node makes any number of dials on both carriers and a server node
answers them over TCP and UDP, while every byte either of them reads is
chosen by an attacker. The attacker may deliver anything, anywhere and any
number of times, but cannot produce a MAC or a sealed text of its own.

## Implementation notes

`maced` holds the bytes MACed under the shared secret and `sealed` the calls
of `Seal`; both are history variables. What is assumed of the cryptography
and of the random source is a condition on the steps of a run, so it speaks
of the values that occur and not of all values.
-/

namespace UnknownTunnel.Transport

open Foundation

/-- The configuration of the other node. -/
def NodeConfig.peer (cfg : NodeConfig) : NodeConfig := ⟨cfg.peerID, cfg.nodeID, cfg.secret⟩

/-- The tag of a message is that of bytes that were MACed, if it is right. -/
def MacUnforged (C : Crypto) (secret : Bytes) (maced : List Bytes) (data bindNonce : Bytes) :
    Prop :=
  TagUnforged C secret (fun input => input ∈ maced) data bindNonce

/-- The welcome of the server node. -/
def welcomeMessage (cfg : NodeConfig) (sessionID : Nat) (serverNonce : Bytes) (timestamp : Int) :
    Handshake where
  kind := handshakeWelcome
  sessionID := sessionID
  timestamp := timestamp
  nonce := serverNonce
  nodeID := cfg.nodeID
  peerID := cfg.peerID

theorem welcomeFor_valid {C : Crypto} {cfg : NodeConfig} {hello : Handshake} {sessionID : Nat}
    {serverNonce data : Bytes} {timestamp : Int}
    (h : UdpServer.welcomeFor C cfg hello sessionID serverNonce timestamp = .ok data)
    (hid : sessionID < 2 ^ 64) (ht : -2 ^ 63 ≤ timestamp ∧ timestamp < 2 ^ 63) :
    (welcomeMessage cfg sessionID serverNonce timestamp).Valid := by
  simp only [UdpServer.welcomeFor, encodeHandshake] at h
  split at h
  · cases h
  rename_i hn
  split at h
  · cases h
  rename_i hids
  simp only [not_or, not_lt] at hids
  obtain ⟨h₁, h₂, h₃, h₄⟩ := hids
  exact ⟨hid, ht, not_not.mp hn, ⟨Nat.pos_of_ne_zero h₁, h₂⟩, ⟨Nat.pos_of_ne_zero h₃, h₄⟩⟩

/-- All dials of the client and all sessions of the server, with every message that
was MACed and every text that was sealed. -/
structure World where
  dials : List Dial
  server : UdpServer
  accepts : List Accept
  maced : List Bytes
  sealed : List SealRecord

/-- A node begins a handshake or makes a step in one. -/
inductive WorldEvent
  | newDial (carrier : Carrier) (nonce : Bytes) (timestamp : Int)
  | dial (i : Nat) (e : DialEvent)
  | server (e : ServerEvent)
  | newAccept (now : Int) (stream serverNonce : Bytes) (timestamp : Int) (written : Bool)
  | accept (j : Nat) (e : AcceptEvent)

/-- One end of a session: what the two ends of a handshake have to agree on. -/
structure SessionEnd where
  carrier : Carrier
  sessionID : Nat
  clientNonce : Bytes
  serverNonce : Bytes
  keys : SessionKeys
  deriving DecidableEq

/-- The other end of the same session. -/
def SessionEnd.mirror (v : SessionEnd) : SessionEnd := { v with keys := v.keys.mirror }

theorem SessionEnd.mirror_mirror (v : SessionEnd) : v.mirror.mirror = v := rfl

/-- A place where the server node keeps the end of a session. -/
inductive EndRef
  | udp (i : Nat)
  | tcp (j : Nat)
  deriving DecidableEq

/-- The keys of the server's end for a pair of nonces. -/
def serverKeys (C : Crypto) (cfg : NodeConfig) (carrier : Carrier)
    (clientNonce serverNonce : Bytes) :
    SessionKeys :=
  let keys := C.deriveKeys cfg.secret clientNonce serverNonce cfg.peerID cfg.nodeID
  match carrier with
  | .tcp => ⟨keys.serverSend, keys.clientSend, [], []⟩
  | .udp => ⟨keys.serverSend, keys.clientSend, keys.serverAck, keys.clientAck⟩

/-- The data keys do not depend on the carrier. -/
theorem serverKeys_data (C : Crypto) (cfg : NodeConfig) (a b : Carrier) (m n : Bytes) :
    (serverKeys C cfg a m n).send = (serverKeys C cfg b m n).send ∧
      (serverKeys C cfg a m n).recv = (serverKeys C cfg b m n).recv := by
  cases a <;> cases b <;> exact ⟨rfl, rfl⟩

def ServerSession.sessionEnd (o : ServerSession) : SessionEnd :=
  ⟨.udp, o.sessionID, o.clientNonce, o.serverNonce, (Session.udp o.session).keys⟩

def Accept.sessionEnd (a : Accept) : SessionEnd :=
  ⟨.tcp, 0, a.clientNonce, a.serverNonce, (Session.tcp a.session).keys⟩

def Dial.sessionEnd (d : Dial) : Option SessionEnd :=
  match d.phase with
  | .established serverNonce s _ => some ⟨s.kind, s.sessionID, d.nonce, serverNonce, s.keys⟩
  | _ => none

namespace World

variable (C : Crypto) (cfg : NodeConfig)

def start : World := ⟨[], UdpServer.start, [], [], []⟩

/-- The end the server node keeps at a place. -/
def serverEnd (W : World) : EndRef → Option SessionEnd
  | .udp i => W.server.objects[i]?.map ServerSession.sessionEnd
  | .tcp j => W.accepts[j]?.map Accept.sessionEnd

/-- The end of a dial, once it has derived its keys. -/
def clientEnd (W : World) (i : Nat) : Option SessionEnd := W.dials[i]?.bind Dial.sessionEnd

/-- The server node has made a session at a place. -/
def created (W : World) : EndRef → Prop
  | .udp i => i < W.server.objects.length
  | .tcp j => ∃ a, W.accepts[j]? = some a ∧ a.created = true

/-- `handleHello` has called `onSession`, or `acceptTCPSession` has returned. -/
def exposed (W : World) : EndRef → Prop
  | .udp i => ∃ o, W.server.objects[i]? = some o ∧ o.confirm = .exposed
  | .tcp j => ∃ a, W.accepts[j]? = some a ∧ a.state = .exposed

/-- The dial has returned its session. -/
def returned (W : World) (i : Nat) : Prop :=
  ∃ d serverNonce s, W.dials[i]? = some d ∧ d.phase = .established serverNonce s .returned

/-- The bytes a step of the UDP server MACs under the secret. -/
def serverMac (S : UdpServer) : ServerEvent → Option Bytes
  | .register sessionID serverNonce timestamp =>
      match S.reader with
      | .hello _ hello =>
          match UdpServer.welcomeFor C cfg hello sessionID serverNonce timestamp with
          | .error _ => none
          | .ok _ =>
              some (macInput (welcomeMessage cfg sessionID serverNonce timestamp) hello.nonce)
      | _ => none
  | _ => none

/-- The `Seal` call a step of the UDP server makes. -/
def serverSeal (S : UdpServer) : ServerEvent → Option SealRecord
  | .session i e => S.objects[i]?.bind fun o => o.session.sealRecord e
  | _ => none

def apply (W : World) : WorldEvent → World
  | .newDial carrier nonce timestamp =>
      { W with
        dials := W.dials ++ [Dial.start carrier nonce]
        maced := W.maced ++ [macInput (helloFor cfg.peer nonce timestamp) []] }
  | .dial i e =>
      { W with
        dials := W.dials.modify i fun d => d.apply C cfg.peer e
        sealed := W.sealed ++ (W.dials[i]?.bind fun d => d.sealRecord e).toList }
  | .server e =>
      { W with
        server := W.server.apply C cfg e
        maced := W.maced ++ (serverMac C cfg W.server e).toList
        sealed := W.sealed ++ (serverSeal W.server e).toList }
  | .newAccept now stream serverNonce timestamp written =>
      match acceptRequest C cfg now stream with
      | none => W
      | some hello =>
          match UdpServer.welcomeFor C cfg hello 0 serverNonce timestamp with
          | .error _ => W
          | .ok _ =>
              { W with
                accepts := W.accepts ++ [Accept.start C cfg hello serverNonce written]
                maced := W.maced ++
                  [macInput (welcomeMessage cfg 0 serverNonce timestamp) hello.nonce] }
  | .accept j e =>
      { W with
        accepts := W.accepts.modify j fun a => a.apply C e
        sealed := W.sealed ++ (W.accepts[j]?.bind fun a => a.sealRecord e).toList }

/-- When a step can be taken. A dial begins only if its hello can be encoded. -/
def enabled (W : World) : WorldEvent → Prop
  | .newDial _ nonce timestamp => (helloFor cfg.peer nonce timestamp).Valid
  | .dial i e => ∃ d, W.dials[i]? = some d ∧ d.enabled e
  | .server e => W.server.enabled e
  | .newAccept _ _ _ timestamp _ => -2 ^ 63 ≤ timestamp ∧ timestamp < 2 ^ 63
  | .accept j e => ∃ a, W.accepts[j]? = some a ∧ a.enabled e

/-- The server nonce drawn to answer a hello is on no end of the server. -/
def NewServerNonce (W : World) (serverNonce : Bytes) : Prop :=
  ∀ r v, W.serverEnd r = some v → v.serverNonce ≠ serverNonce

/-- The nonces that are drawn have not been drawn before. A server draws one
only to answer a hello that it has accepted. -/
def FreshNonces (W : World) : WorldEvent → Prop
  | .newDial _ nonce _ => ∀ d ∈ W.dials, d.nonce ≠ nonce
  | .server (.register _ serverNonce _) => ∀ remote hello,
      W.server.reader = .hello remote hello → W.NewServerNonce serverNonce
  | .newAccept now stream serverNonce _ _ => ∀ hello,
      acceptRequest C cfg now stream = some hello → W.NewServerNonce serverNonce
  | _ => True

/-- Nonces are fresh, and no MAC or sealed text in a step is a forgery. -/
def Ideal (W : World) (e : WorldEvent) : Prop :=
  W.FreshNonces C cfg e ∧
    match e with
    | .dial i ev => ∀ d, W.dials[i]? = some d →
        (∀ data, ev.handshake = some data → MacUnforged C cfg.secret W.maced data d.nonce) ∧
        (∀ nonce s c sev, d.phase = .established nonce s c → ev.sessionEvent = some sev →
          s.Unforged C W.sealed sev)
    | .server (.datagram _ _ packet) =>
        ∀ o ∈ W.server.objects, o.session.PacketUnforged C W.sealed packet
    | .accept j ev => ∀ a, W.accepts[j]? = some a → a.Unforged C W.sealed ev
    | _ => True

end World

/-- Any number of dials and connections, interleaved in any way. -/
def handshakeMachine (C : Crypto) (cfg : NodeConfig) : Machine World WorldEvent where
  init := fun W => W = World.start
  enabled := World.enabled cfg
  apply := World.apply C cfg

namespace UdpServer

variable {C : Crypto} {S : UdpServer} {e : ServerEvent}

/-- No step changes the keys of a session object. -/
theorem identity_objectAfter (C : Crypto) (he : S.enabled e) {j : Nat} {o : ServerSession}
    (ho : S.objects[j]? = some o) :
    (S.objectAfter C e j o).session.identity = o.session.identity := by
  refine objectAfter_induction (motive := fun p => p.session.identity = o.session.identity)
    he ho ?_ ?_
  · intro p hp
    cases hp with
    | delivered packet h => exact UdpSession.apply_identity (C := C) (e := .deliver packet) trivial
    | received hw =>
        rw [ServerSession.receiveConfirm]
        split
        · split <;> rfl
        · rfl
    | stepped ev _ hen hm => exact UdpSession.apply_identity hen
    | _ => rfl
  · intro p hp
    exact hp

theorem sessionEnd_objectAfter (C : Crypto) (he : S.enabled e) {j : Nat} {o : ServerSession}
    (ho : S.objects[j]? = some o) : (S.objectAfter C e j o).sessionEnd = o.sessionEnd := by
  have horigin := origin_objectAfter C he ho
  have hid := identity_objectAfter C he ho
  simp only [origin, UdpSession.identity, Prod.mk.injEq] at horigin hid
  obtain ⟨h₁, -, h₂, h₃⟩ := horigin
  obtain ⟨-, h₄, h₅, h₆, h₇⟩ := hid
  simp only [ServerSession.sessionEnd, Session.keys, h₁, h₂, h₃, h₄, h₅, h₆, h₇]

end UdpServer

theorem Accept.sessionEnd_apply (C : Crypto) (a : Accept) (e : AcceptEvent) :
    (a.apply C e).sessionEnd = a.sessionEnd := by
  have h := Accept.origin_apply C a e
  simp only [Accept.origin, Prod.mk.injEq] at h
  obtain ⟨h₁, h₂, h₃, h₄⟩ := h
  simp only [Accept.sessionEnd, Session.keys, h₁, h₂, h₃, h₄]

end UnknownTunnel.Transport

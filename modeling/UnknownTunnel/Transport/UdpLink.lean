import UnknownTunnel.Foundation.Machine
import UnknownTunnel.Transport.UdpSession

/-!
# Two peered UDP sessions and a network attacker

A link joins a client and a server session whose keys mirror each other. The
attacker drops, delays, duplicates, reorders, replays and reflects datagrams
and injects arbitrary bytes: a delivery step takes any byte string that is
not a forgery. A forgery verifies under the receiver's key although nobody
sealed or MACed its header under that key.

## Implementation notes

The link records every `Seal` call and every MAC that either session
computes. These records are read only by the forgery test; the payloads sent
and the numbers authenticated are history variables.
-/

namespace UnknownTunnel.Transport

open Foundation

/-- The two ends of a link. -/
inductive Side
  | client
  | server
  deriving DecidableEq

def Side.peer : Side → Side
  | .client => .server
  | .server => .client

@[simp] theorem Side.peer_peer (X : Side) : X.peer.peer = X := by cases X <;> rfl

@[simp] theorem Side.peer_ne (X : Side) : X.peer ≠ X := by cases X <;> decide

theorem Side.eq_or_eq_peer (X Y : Side) : Y = X ∨ Y = X.peer := by
  cases X <;> cases Y <;> simp [Side.peer]

/-- One MAC computed over a header. -/
structure MacRecord where
  key : Bytes
  header : Bytes
  deriving DecidableEq

namespace UdpSession

/-- The header MAC of an acknowledgement. -/
def macRecord (s : UdpSession) (seq : Nat) : MacRecord :=
  ⟨s.sendACK, makeUDPHeader udpPacketACK s.sessionID seq 16⟩

end UdpSession

/-- The two ends of a session, with everything that was sealed and sent. -/
structure Link where
  session : Side → UdpSession
  wire : Side → List Bytes
  sealed : List SealRecord
  maced : List MacRecord
  sent : Side → List Bytes
  authenticated : Side → List Nat

/-- The client and server sessions of one key set. -/
def peeredSession (keys : KeySet) (sessionID : Nat) : Side → UdpSession
  | .client =>
      newUDPSession sessionID keys.clientSend keys.serverSend keys.clientAck keys.serverAck
  | .server =>
      newUDPSession sessionID keys.serverSend keys.clientSend keys.serverAck keys.clientAck

namespace Link

/-- A link before its first step. -/
def start (keys : KeySet) (sessionID : Nat) : Link where
  session := peeredSession keys sessionID
  wire := fun _ => []
  sealed := []
  maced := []
  sent := fun _ => []
  authenticated := fun _ => []

variable (C : Crypto)

/-- Bytes that verify at a side only if their header was sealed or MACed
under the key that side receives with. -/
def Unforged (L : Link) (X : Side) (packet : Bytes) : Prop :=
  (∀ plaintext, (L.session X).OpensData C packet plaintext →
    ⟨(L.session X).recvKey, nonceFor (udpSeq packet), packet.take udpHeaderLen, plaintext⟩ ∈
      L.sealed) ∧
  ((L.session X).VerifiesAck C packet →
    ⟨(L.session X).recvACK, packet.take udpHeaderLen⟩ ∈ L.maced)

/-- The attacker may deliver anything but a forgery. -/
def enabled (L : Link) (e : Side × UdpEvent) : Prop :=
  (L.session e.1).enabled e.2 ∧
    match e.2 with
    | .deliver packet => L.Unforged C e.1 packet
    | _ => True

def apply (L : Link) (e : Side × UdpEvent) : Link where
  session := Function.update L.session e.1 ((L.session e.1).apply C e.2)
  wire := Function.update L.wire e.1 (L.wire e.1 ++ (L.session e.1).written C e.2)
  sealed := L.sealed ++ ((L.session e.1).sealRecord e.2).toList
  maced := L.maced ++ (((L.session e.1).acked C e.2).map (L.session e.1).macRecord).toList
  sent := Function.update L.sent e.1
    (L.sent e.1 ++ (((L.session e.1).sealRecord e.2).map SealRecord.plaintext).toList)
  authenticated := Function.update L.authenticated e.1
    (L.authenticated e.1 ++ ((L.session e.1).acked C e.2).toList)

end Link

/-- The runs of a link. The keys of the two directions differ, and the
session identifier is a 64-bit number. -/
def linkMachine (C : Crypto) : Machine Link (Side × UdpEvent) where
  init := fun L => ∃ keys sessionID,
    keys.clientSend ≠ keys.serverSend ∧ keys.clientAck ≠ keys.serverAck ∧
      sessionID < 2 ^ 64 ∧ L = Link.start keys sessionID
  enabled := Link.enabled C
  apply := Link.apply C

/-! ## Undisturbed steps -/

namespace UdpSession

variable {C : Crypto} {io : PacketIO} {seq : Nat} {rest : List Bytes}

/-- The packet loop acknowledges and resequences a sealed packet of the peer. -/
theorem packetLoop_dataPacket (s t : UdpSession) (payload : Bytes)
    (hq : t.packetCh = s.dataPacket C seq payload :: rest) (hkey : t.recvKey = s.sendKey)
    (hid : t.sessionID = s.sessionID) (hsid : t.sessionID < 2 ^ 64) (hseq : seq < 2 ^ 64)
    (hlen : payload.length ≤ maxUDPPlaintext) (hw : io.ackWritten = true) :
    t.apply C (.packetLoop io) =
        { t with
          packetCh := rest
          recv := (Resequencer.accept maxUDPReorder io.published t.recv seq payload).1
          closed := t.closed ||
            (Resequencer.accept maxUDPReorder io.published t.recv seq payload).2.isFailed
          loop := if (Resequencer.accept maxUDPReorder io.published t.recv seq payload).2.isFailed
            then .returned else .running } ∧
      t.written C (.packetLoop io) = [t.ackPacket C seq] ∧
      t.acked C (.packetLoop io) = some seq := by
  have h := handlePacket_dataPacket C hkey hid hsid hseq hlen hw
  refine ⟨?_, ?_, ?_⟩
  · simp only [apply, loopStep, hq, h, acceptOrdered, Bool.false_eq_true, if_false]
  · simp only [written, hq, h]
  · simp only [acked, hq, h]

/-- The packet loop removes the entry that the peer's acknowledgement names. -/
theorem packetLoop_ackPacket (io : PacketIO) (s t : UdpSession)
    (hq : t.packetCh = s.ackPacket C seq :: rest)
    (hkey : t.recvACK = s.sendACK) (hid : t.sessionID = s.sessionID)
    (hsid : t.sessionID < 2 ^ 64) (hseq : seq < 2 ^ 64) (hm : seq ∈ t.pending) :
    t.apply C (.packetLoop io) =
      { t with packetCh := rest, pending := t.pending.erase seq, loop := .releasing } := by
  have h : handlePacket C io t (s.ackPacket C seq) = _ :=
    handlePacket_ackPacket C hkey hid hsid hseq hm
  simp only [apply, loopStep, hq, h]
  simp

end UdpSession

/-- One datagram passes through an idle session. -/
theorem Link.receive {C : Crypto} {L : Link} {X : Side} {packet : Bytes} (io : PacketIO)
    (hq : (L.session X).packetCh = []) (ho : (L.session X).closed = false)
    (hl : (L.session X).loop = .running) (hf : L.Unforged C X packet)
    {ok : Link → Side × UdpEvent → Prop} (hd : ok L (X, .deliver packet))
    (hp : ∀ L, ok L (X, .packetLoop io)) (run : (linkMachine C).ReachableUnder ok L) :
    ∃ L', (linkMachine C).ReachableUnder ok L' ∧
      L'.session X = ({ L.session X with packetCh := [packet] }).apply C (.packetLoop io) ∧
      L'.session X.peer = L.session X.peer ∧ L'.sent = L.sent ∧
      L'.wire X = L.wire X ++
        ({ L.session X with packetCh := [packet] }).written C (.packetLoop io) ∧
      L'.maced = L.maced ++ ((({ L.session X with packetCh := [packet] }).acked C
        (.packetLoop io)).map (L.session X).macRecord).toList := by
  have hs : (L.apply C (X, .deliver packet)).session X =
      { L.session X with packetCh := [packet] } := by
    simp [Link.apply, UdpSession.apply, UdpSession.deliverPacket, hq, ho, packetQueueLen]
  have hm : (L.apply C (X, .deliver packet)).maced = L.maced := by
    simp [Link.apply, UdpSession.acked]
  have hw : (L.apply C (X, .deliver packet)).wire X = L.wire X := by
    simp [Link.apply, UdpSession.written]
  have hpeer : (L.apply C (X, .deliver packet)).session X.peer = L.session X.peer :=
    Function.update_of_ne (Side.peer_ne X) ..
  have hen : (L.apply C (X, .deliver packet)).enabled C (X, .packetLoop io) := by
    refine ⟨?_, trivial⟩
    rw [hs]
    exact ⟨hl, by simp⟩
  have hfirst : (linkMachine C).enabled L (X, .deliver packet) := ⟨trivial, hf⟩
  refine ⟨_, (run.next hfirst hd).next hen (hp _), ?_, ?_, ?_, ?_, ?_⟩
  · rw [← hs]
    exact Function.update_self ..
  · rw [← hpeer]
    exact Function.update_of_ne (Side.peer_ne X) ..
  · simp [linkMachine, Link.apply, UdpSession.sealRecord]
  · rw [← hs, ← hw]
    exact Function.update_self ..
  · have hr : (L.session X).macRecord =
        ((L.apply C (X, .deliver packet)).session X).macRecord := by
      rw [hs]
      rfl
    rw [hr, ← hs, ← hm]
    rfl

/-- The steps of a `Send` call. -/
def UdpEvent.isSend : UdpEvent → Bool
  | .sendCheck _ | .sendRefuse _ | .sendAcquire _ | .sendSeal _ | .sendInsert _ _
  | .sendWrite _ _ _ | .sendRelease _ => true
  | _ => false

/-- The steps of one undisturbed `Send` call of the client. -/
def sendSteps (seq : Nat) (payload packet : Bytes) : List (Side × UdpEvent) :=
  [(.client, .sendCheck payload), (.client, .sendAcquire payload), (.client, .sendSeal payload),
    (.client, .sendInsert seq packet), (.client, .sendWrite seq packet true)]

/-- A client that has sent `n` packets and received nothing. -/
def unansweredClient (keys : KeySet) (sessionID n : Nat) (pending : Table Nat PendingDatagram) :
    UdpSession :=
  { peeredSession keys sessionID .client with sendSeq := n, slots := n, pending := pending }

/-- The client has sent one payload `n` times and nothing was delivered. -/
structure Unanswered (C : Crypto) (keys : KeySet) (sessionID : Nat) (payload : Bytes) (n : Nat)
    (L : Link) : Prop where
  server : L.session .server = peeredSession keys sessionID .server
  client : ∃ pending, L.session .client = unansweredClient keys sessionID n pending ∧
    ∀ k, k ∈ pending ↔ 0 < k ∧ k ≤ n
  written : ∀ k, 0 < k → k ≤ n →
    (peeredSession keys sessionID .client).dataPacket C k payload ∈ L.wire .client
  sent : L.sent .client = List.replicate n payload
  sealed : ∀ k, 0 < k → k ≤ n →
    ⟨keys.clientSend, nonceFor k,
      makeUDPHeader udpPacketData sessionID k (payload.length + aeadOverhead), payload⟩ ∈ L.sealed

/-- One more `Send` call that nobody answers. -/
theorem Unanswered.send {C : Crypto} {keys : KeySet} {sessionID n : Nat} {payload : Bytes}
    {L : Link} (h : Unanswered C keys sessionID payload n L) (hn : n < maxUDPPending)
    (hp : payload.length ≤ maxUDPPlaintext) {ok : Link → Side × UdpEvent → Prop}
    (hok : ∀ L e, e.2.isSend = true → ok L e) :
    ∃ steps, (linkMachine C).Permitted ok L steps ∧
      Unanswered C keys sessionID payload (n + 1) (steps.foldl (Link.apply C) L) := by
  obtain ⟨hserver, ⟨pending, hclient, hpending⟩, hwritten, hsent, hsealed⟩ := h
  have hmax : maxUDPPending = 8192 := rfl
  refine ⟨sendSteps (n + 1) payload
    ((peeredSession keys sessionID .client).dataPacket C (n + 1) payload), ?_, ?_, ?_, ?_, ?_, ?_⟩
  · refine ⟨⟨?_, trivial⟩, hok _ _ rfl, ⟨?_, trivial⟩, hok _ _ rfl, ⟨?_, trivial⟩, hok _ _ rfl,
      ⟨?_, trivial⟩, hok _ _ rfl, ⟨?_, trivial⟩, hok _ _ rfl, trivial⟩ <;>
      simp [linkMachine, Link.apply, hclient, unansweredClient, UdpSession.enabled,
        UdpSession.apply, peeredSession, newUDPSession, hn, hp, UdpSession.dataPacket]
    omega
  · simp [sendSteps, Link.apply, hserver]
  · refine ⟨pending.insert (n + 1)
      ⟨(peeredSession keys sessionID .client).dataPacket C (n + 1) payload, 0⟩, ?_, ?_⟩
    · simp [sendSteps, Link.apply, hclient, unansweredClient, UdpSession.apply, peeredSession,
        newUDPSession, UdpSession.dataPacket]
    · intro k
      simp only [Finmap.mem_insert, hpending]
      omega
  · intro k hpos hle
    have hwire : ((sendSteps (n + 1) payload ((peeredSession keys sessionID .client).dataPacket C
        (n + 1) payload)).foldl (Link.apply C) L).wire .client = L.wire .client ++
        [(peeredSession keys sessionID .client).dataPacket C (n + 1) payload] := by
      simp [sendSteps, Link.apply, UdpSession.written]
    rw [hwire, List.mem_append, List.mem_singleton]
    rcases Nat.lt_or_ge n k with hk | hk
    · exact Or.inr (by rw [show k = n + 1 by omega])
    · exact Or.inl (hwritten k hpos hk)
  · simp [sendSteps, Link.apply, hclient, UdpSession.sealRecord, hsent, List.replicate_succ']
  · intro k hpos hle
    have hlog : ((sendSteps (n + 1) payload ((peeredSession keys sessionID .client).dataPacket C
        (n + 1) payload)).foldl (Link.apply C) L).sealed = L.sealed ++
        [⟨keys.clientSend, nonceFor (n + 1),
          makeUDPHeader udpPacketData sessionID (n + 1) (payload.length + aeadOverhead),
          payload⟩] := by
      simp [sendSteps, Link.apply, hclient, unansweredClient, UdpSession.apply,
        UdpSession.sealRecord, peeredSession, newUDPSession]
    rw [hlog, List.mem_append, List.mem_singleton]
    rcases Nat.lt_or_ge n k with hk | hk
    · exact Or.inr (by rw [show k = n + 1 by omega])
    · exact Or.inl (hsealed k hpos hk)

/-- The client can fill its pending table before anything is delivered. -/
theorem exists_unanswered (C : Crypto) (keys : KeySet) (sessionID : Nat) (payload : Bytes)
    (hs : keys.clientSend ≠ keys.serverSend) (ha : keys.clientAck ≠ keys.serverAck)
    (hid : sessionID < 2 ^ 64) (hp : payload.length ≤ maxUDPPlaintext) (n : Nat)
    (hn : n ≤ maxUDPPending)
    {ok : Link → Side × UdpEvent → Prop} (hok : ∀ L e, e.2.isSend = true → ok L e) :
    ∃ L, (linkMachine C).ReachableUnder ok L ∧
      Unanswered C keys sessionID payload n L := by
  induction n with
  | zero =>
      refine ⟨Link.start keys sessionID, .start ⟨keys, sessionID, hs, ha, hid, rfl⟩, rfl,
        ⟨∅, rfl, ?_⟩, ?_, rfl, ?_⟩
      · intro k
        simp only [Finmap.notMem_empty, false_iff]
        omega
      · intro k hpos hle
        omega
      · intro k hpos hle
        omega
  | succ n ih =>
      obtain ⟨L, run, h⟩ := ih (by omega)
      obtain ⟨steps, hsteps, hnext⟩ := h.send (by omega) hp hok
      exact ⟨_, run.run steps hsteps, hnext⟩

/-- Four directional keys. -/
def sampleKeys : KeySet := ⟨[1], [2], [3], [4]⟩

end UnknownTunnel.Transport

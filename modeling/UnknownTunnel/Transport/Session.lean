import UnknownTunnel.Transport.TcpSession
import UnknownTunnel.Transport.UdpSession

/-!
# Sessions of either carrier

The `Session` interface has a TCP and a UDP implementation. What matters for
a handshake is common to both: the keys, the payloads received and the calls
of the cipher.

## Implementation notes

The two carriers authenticate additional data of different lengths, eight
bytes on TCP and a whole packet header on UDP, so a call of `Seal` made on
one carrier never opens on the other.
-/

namespace UnknownTunnel.Transport

open Foundation

/-- The two transports. -/
inductive Carrier
  | tcp
  | udp
  deriving DecidableEq

/-- The length of the additional data a carrier authenticates. -/
def Carrier.aadLen : Carrier → Nat
  | .tcp => 8
  | .udp => udpHeaderLen

theorem Carrier.aadLen_injective : Function.Injective Carrier.aadLen := by
  intro a b h
  cases a <;> cases b <;> first | rfl | cases h

/-- The keys a session holds; a TCP session has none for acknowledgements. -/
structure SessionKeys where
  send : Bytes
  recv : Bytes
  sendACK : Bytes
  recvACK : Bytes
  deriving DecidableEq

/-- The keys of the other end. -/
def SessionKeys.mirror (k : SessionKeys) : SessionKeys := ⟨k.recv, k.send, k.recvACK, k.sendACK⟩

theorem SessionKeys.mirror_mirror (k : SessionKeys) : k.mirror.mirror = k := rfl

/-- Some call of `Seal` used a key with a carrier's additional data. -/
def SealedUnder (sealed : List SealRecord) (carrier : Carrier) (key : Bytes) : Prop :=
  ∃ r ∈ sealed, r.key = key ∧ r.aad.length = carrier.aadLen

theorem SealedUnder.mono {sealed sealed' : List SealRecord} {carrier : Carrier} {key : Bytes}
    (h : SealedUnder sealed carrier key) (hsub : sealed ⊆ sealed') :
    SealedUnder sealed' carrier key := by
  obtain ⟨r, hr, hkey, hlen⟩ := h
  exact ⟨r, hsub hr, hkey, hlen⟩

/-! ## Forgeries -/

namespace UdpSession

variable (C : Crypto)

/-- A datagram opens only to what was sealed with its header and number. -/
def PacketUnforged (sealed : List SealRecord) (s : UdpSession) (packet : Bytes) : Prop :=
  ∀ plaintext, s.OpensData C packet plaintext →
    ⟨s.recvKey, nonceFor (udpSeq packet), packet.take udpHeaderLen, plaintext⟩ ∈ sealed

variable {C} {sealed sealed' : List SealRecord} {s t : UdpSession} {packet plaintext : Bytes}

theorem PacketUnforged.mono (h : s.PacketUnforged C sealed packet) (hsub : sealed ⊆ sealed') :
    s.PacketUnforged C sealed' packet :=
  fun plaintext ho => hsub (h plaintext ho)

/-- Only the receive key matters. -/
theorem PacketUnforged.of_recvKey (h : s.PacketUnforged C sealed packet)
    (hk : t.recvKey = s.recvKey) : t.PacketUnforged C sealed packet := by
  intro plaintext ho
  rw [OpensData, hk] at ho
  rw [hk]
  exact h plaintext ho

/-- A datagram that opens was sealed on the UDP carrier. -/
theorem PacketUnforged.sealedUnder (h : s.PacketUnforged C sealed packet)
    (ho : s.OpensData C packet plaintext) : SealedUnder sealed .udp s.recvKey := by
  refine ⟨_, h plaintext ho, rfl, ?_⟩
  rw [List.length_take]
  exact min_eq_left ho.1

theorem recvKey_of_identity (h : t.identity = s.identity) : t.recvKey = s.recvKey := by
  simp only [identity, Prod.mk.injEq] at h
  exact h.2.2.1

/-- Whatever has been received, or waits to be, was sealed for this session. -/
structure Vouched (C : Crypto) (sealed : List SealRecord) (s : UdpSession) : Prop where
  queued : ∀ packet ∈ s.packetCh, s.PacketUnforged C sealed packet
  sourced : s.recv.Sourced fun _ _ => SealedUnder sealed .udp s.recvKey

theorem Vouched.mono (h : s.Vouched C sealed) (hsub : sealed ⊆ sealed') : s.Vouched C sealed' where
  queued := fun packet hp => (h.queued packet hp).mono hsub
  sourced := h.sourced.mono fun _ _ hs => hs.mono hsub

theorem Vouched.apply (h : s.Vouched C sealed) {e : UdpEvent} (he : s.enabled e)
    (hf : ∀ packet, e = .deliver packet → s.PacketUnforged C sealed packet) :
    (s.apply C e).Vouched C sealed := by
  have hk := recvKey_of_identity (apply_identity (C := C) he)
  constructor
  · intro packet hp
    rcases mem_packetCh_apply he hp with hp | rfl
    · exact (h.queued packet hp).of_recvKey hk
    · exact (hf packet rfl).of_recvKey hk
  · rw [hk]
    rcases apply_recv (C := C) he with hr | ⟨io, packet, plaintext, -, hmem, ho, hr⟩
    · rw [hr]
      exact h.sourced
    · rw [hr]
      exact h.sourced.accept ((h.queued packet hmem).sealedUnder ho)

end UdpSession

namespace TcpSession

/-- Whatever has been received was sealed for this session. -/
def Vouched (sealed : List SealRecord) (s : TcpSession) : Prop :=
  s.received ≠ [] → SealedUnder sealed .tcp s.recvKey

variable {C : Crypto} {sealed : List SealRecord} {s : TcpSession}

theorem Vouched.apply (h : s.Vouched sealed) {e : TcpEvent}
    (hf : ∀ header ciphertext queued, e = .frame header ciphertext queued →
      s.FrameUnforged C sealed header ciphertext) : (s.apply C e).Vouched sealed := by
  obtain ⟨-, hk, hr | ⟨header, ciphertext, plaintext, he, hread, -⟩⟩ := apply_cases C s e
  · rw [Vouched, hr, hk]
    exact h
  · intro _
    rw [hk]
    exact ⟨_, (hf _ _ _ he).mem_of_readFrame hread, rfl, Bytes.length_bePut ..⟩

end TcpSession

/-! ## The common interface -/

/-- A session on either carrier. -/
inductive Session
  | tcp (s : TcpSession)
  | udp (s : UdpSession)

/-- A step of a session on either carrier. -/
inductive SessionEvent
  | tcp (e : TcpEvent)
  | udp (e : UdpEvent)

namespace Session

variable (C : Crypto)

def kind : Session → Carrier
  | .tcp _ => .tcp
  | .udp _ => .udp

def keys : Session → SessionKeys
  | .tcp s => ⟨s.sendKey, s.recvKey, [], []⟩
  | .udp s => ⟨s.sendKey, s.recvKey, s.sendACK, s.recvACK⟩

/-- The session identifier; a TCP session has none. -/
def sessionID : Session → Nat
  | .tcp _ => 0
  | .udp s => s.sessionID

def received : Session → List Bytes
  | .tcp s => s.received
  | .udp s => s.recv.output

def closed : Session → Bool
  | .tcp s => s.closed
  | .udp s => s.closed

def close : Session → Session
  | .tcp s => .tcp { s with closed := true }
  | .udp s => .udp { s with closed := true }

def enabled : Session → SessionEvent → Prop
  | .tcp s, .tcp e => s.enabled e
  | .udp s, .udp e => s.enabled e
  | _, _ => False

def apply : Session → SessionEvent → Session
  | .tcp s, .tcp e => .tcp (s.apply C e)
  | .udp s, .udp e => .udp (s.apply C e)
  | s, _ => s

/-- The `Seal` call a step makes. -/
def sealRecord : Session → SessionEvent → Option SealRecord
  | .tcp s, .tcp e => s.sealRecord e
  | .udp s, .udp e => s.sealRecord e
  | _, _ => none

/-- The bytes a step takes from the network are not forged. -/
def Unforged (sealed : List SealRecord) : Session → SessionEvent → Prop
  | .tcp s, .tcp (.frame header ciphertext _) => s.FrameUnforged C sealed header ciphertext
  | .udp s, .udp (.deliver packet) => s.PacketUnforged C sealed packet
  | _, _ => True

/-- Whatever has been received, or waits to be, was sealed for this session. -/
def Vouched (sealed : List SealRecord) : Session → Prop
  | .tcp s => s.Vouched sealed
  | .udp s => s.Vouched C sealed

variable {C} {s : Session} {e : SessionEvent} {sealed sealed' : List SealRecord}

/-- What identifies a session: its carrier, its identifier and its keys. -/
def identity (s : Session) : Carrier × Nat × SessionKeys := (s.kind, s.sessionID, s.keys)

theorem identity_apply (C : Crypto) (he : s.enabled e) :
    (s.apply C e).identity = s.identity := by
  cases s with
  | tcp s =>
      cases e with
      | tcp e =>
          obtain ⟨hs, hr, -⟩ := TcpSession.apply_cases C s e
          simp only [identity, apply, kind, sessionID, keys, hs, hr]
      | udp e => exact he.elim
  | udp s =>
      cases e with
      | tcp e => exact he.elim
      | udp e =>
          have hid := UdpSession.apply_identity (C := C) he
          simp only [UdpSession.identity, Prod.mk.injEq] at hid
          obtain ⟨hi, hs, hr, hsa, hra⟩ := hid
          simp only [identity, apply, kind, sessionID, keys, hi, hs, hr, hsa, hra]

theorem identity_close (s : Session) : s.close.identity = s.identity := by
  cases s <;> rfl

/-- A call of `Seal` uses the send key and the carrier's additional data. -/
theorem sealRecord_eq_some {r : SealRecord} (h : s.sealRecord e = some r) :
    r.key = s.keys.send ∧ r.aad.length = s.kind.aadLen := by
  cases s with
  | tcp s =>
      cases e with
      | tcp e =>
          cases e with
          | send payload failAt =>
              cases h
              exact ⟨rfl, Bytes.length_bePut ..⟩
          | _ => cases h
      | udp e => cases h
  | udp s =>
      cases e with
      | tcp e => cases h
      | udp e =>
          cases e with
          | sendSeal payload =>
              cases h
              exact ⟨rfl, length_makeUDPHeader ..⟩
          | _ => cases h

theorem Vouched.mono (h : s.Vouched C sealed) (hsub : sealed ⊆ sealed') :
    s.Vouched C sealed' := by
  cases s with
  | tcp s => exact fun hr => (h hr).mono hsub
  | udp s => exact UdpSession.Vouched.mono h hsub

theorem Vouched.apply (h : s.Vouched C sealed) (he : s.enabled e)
    (hf : s.Unforged C sealed e) : (s.apply C e).Vouched C sealed := by
  cases s with
  | tcp s =>
      cases e with
      | tcp e =>
          refine TcpSession.Vouched.apply h ?_
          rintro header ciphertext queued rfl
          exact hf
      | udp e => exact he.elim
  | udp s =>
      cases e with
      | tcp e => exact he.elim
      | udp e =>
          refine UdpSession.Vouched.apply h he ?_
          rintro packet rfl
          exact hf

theorem Vouched.close (h : s.Vouched C sealed) : s.close.Vouched C sealed := by
  cases s with
  | tcp s => exact h
  | udp s => exact ⟨h.queued, h.sourced⟩

/-- A session that has received anything has its receive key used by a sealer
on its own carrier. -/
theorem Vouched.sealedUnder (h : s.Vouched C sealed) (hr : s.received ≠ []) :
    SealedUnder sealed s.kind s.keys.recv := by
  cases s with
  | tcp s => exact h hr
  | udp s =>
      obtain ⟨a, rest, ha⟩ := List.exists_cons_of_ne_nil hr
      refine h.sourced.output 0 a ?_
      change s.recv.output = a :: rest at ha
      rw [ha]
      rfl

end Session

end UnknownTunnel.Transport

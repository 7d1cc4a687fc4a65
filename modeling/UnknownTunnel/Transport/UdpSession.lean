import UnknownTunnel.Foundation.Resequencer
import UnknownTunnel.Transport.UdpPacket

/-!
# The UDP session

The state of a `udpSession` and the atomic steps of its goroutines: any
number of `Send` calls, the reader that queues packets, the packet loop and
the retransmission loop. The outcomes of writes, of publishing and of the
select statements are carried by the events.

## Implementation notes

`recv.output` is everything ever put in `recvCh`; the channel's consumer is
outside the session. Whether `publish` finds room, sees the session closed or
times out is the outcome `published`. The times of pending datagrams are not
stored: which entries are due at a tick is part of the event, and a session under
a clock allows only those that are.

The packet loop handles a packet in one step, from receiving it from `packetCh`
to the end of `handlePacket`: the write of the acknowledgement, the change of the
resequencer and the publishing of all payloads that follow are not interleaved
with other goroutines. Only the packet loop uses `recv`, and the writes and the
channel have their outcomes in `PacketIO`. A slot is freed in a step of its own.
-/

namespace UnknownTunnel.Transport

open Foundation

/-- The longest payload of a datagram. -/
def maxUDPPlaintext : Nat := 1400

/-- How far ahead of the expected number a payload is kept. -/
def maxUDPReorder : Nat := 4096

/-- The number of slots for datagrams without an acknowledgement. -/
def maxUDPPending : Nat := 8192

/-- How often a datagram is sent again before the session is given up. -/
def udpMaxRetries : Nat := 18

/-- The capacity of `packetCh`. -/
def packetQueueLen : Nat := 1024

/-- A datagram without an acknowledgement. -/
structure PendingDatagram where
  packet : Bytes
  retries : Nat
  deriving DecidableEq

/-- The position of a `Send` call that has not returned. -/
inductive SendCall
  /-- Past the closed and length checks, waiting for a slot. -/
  | checked (payload : Bytes)
  /-- Holds a slot and no sequence number. -/
  | holding (payload : Bytes)
  /-- Sealed under its number and not yet pending. -/
  | sealed (seq : Nat) (packet : Bytes)
  /-- Pending and about to be written. -/
  | inserted (seq : Nat) (packet : Bytes)
  /-- The write failed, the entry is deleted and the slot is to be freed. -/
  | failing (seq : Nat)
  deriving DecidableEq

/-- The position of the packet loop. -/
inductive LoopState
  | running
  /-- An acknowledged entry is deleted and its slot is to be freed. -/
  | releasing
  | returned
  deriving DecidableEq

/-- The state of a session with the positions of its goroutines. -/
structure UdpSession where
  sessionID : Nat
  sendKey : Bytes
  recvKey : Bytes
  sendACK : Bytes
  recvACK : Bytes
  sendSeq : Nat
  packetCh : List Bytes
  pending : Table Nat PendingDatagram
  slots : Nat
  recv : Resequencer Bytes
  closed : Bool
  sends : List SendCall
  loop : LoopState

/-- A session as `newUDPSession` returns it. -/
def newUDPSession (sessionID : Nat) (sendKey recvKey sendACK recvACK : Bytes) : UdpSession where
  sessionID := sessionID
  sendKey := sendKey
  recvKey := recvKey
  sendACK := sendACK
  recvACK := recvACK
  sendSeq := 0
  packetCh := []
  pending := ∅
  slots := 0
  recv := Resequencer.fresh
  closed := false
  sends := []
  loop := .running

/-- The outcomes one `handlePacket` call meets: whether the acknowledgement
is written, and whether the payload of each number can be published. -/
structure PacketIO where
  ackWritten : Bool
  published : Nat → Bool

/-- The effect of one `handlePacket` call. `acked` is the number passed to
`sendAck`, `release` says that a slot is still to be freed. -/
structure PacketResult where
  session : UdpSession
  written : List Bytes
  acked : Option Nat
  release : Bool
  err : Bool

namespace UdpSession

variable (C : Crypto)

/-- The authenticated acknowledgement of a number. -/
def ackPacket (s : UdpSession) (seq : Nat) : Bytes :=
  let header := makeUDPHeader udpPacketACK s.sessionID seq 16
  header ++ (C.hmac s.sendACK header).take 16

/-- The sealed packet of a payload under a number. -/
def dataPacket (s : UdpSession) (seq : Nat) (payload : Bytes) : Bytes :=
  let header := makeUDPHeader udpPacketData s.sessionID seq (payload.length + aeadOverhead)
  header ++ C.aeadSeal s.sendKey (nonceFor seq) payload header

/-- A number beyond the reorder window is dropped without an error. -/
def acceptOrdered (s : UdpSession) (published : Nat → Bool) (seq : Nat) (plaintext : Bytes) :
    UdpSession × Bool :=
  let (recv, outcome) := Resequencer.accept maxUDPReorder published s.recv seq plaintext
  ({ s with recv := recv }, outcome.isFailed)

/-- Bytes that leave the session as it was. -/
def ignorePacket (s : UdpSession) : PacketResult := ⟨s, [], none, false, false⟩

/-- The checks in the order of the source. Data is acknowledged before it is put in
order. -/
def handlePacket (io : PacketIO) (s : UdpSession) (packet : Bytes) : PacketResult :=
  if packet.length < udpHeaderLen then s.ignorePacket
  else if packet.take 4 ≠ udpDataMagic ∨ packet.getD 4 0 ≠ udpDataVersion then s.ignorePacket
  else if udpSessionID packet ≠ s.sessionID ∨
      udpPayloadLen packet ≠ packet.length - udpHeaderLen then s.ignorePacket
  else if packet.getD 5 0 = udpPacketACK then
    if udpPayloadLen packet ≠ 16 then s.ignorePacket
    else if packet.drop udpHeaderLen ≠
        (C.hmac s.recvACK (packet.take udpHeaderLen)).take 16 then s.ignorePacket
    else if udpSeq packet ∈ s.pending then
      ⟨{ s with pending := s.pending.erase (udpSeq packet) }, [], none, true, false⟩
    else s.ignorePacket
  else if packet.getD 5 0 = udpPacketData then
    if udpPayloadLen packet < aeadOverhead then s.ignorePacket
    else
      match C.aeadOpen s.recvKey (nonceFor (udpSeq packet)) (packet.drop udpHeaderLen)
          (packet.take udpHeaderLen) with
      | none => s.ignorePacket
      | some plaintext =>
          if io.ackWritten then
            let (s', err) := s.acceptOrdered io.published (udpSeq packet) plaintext
            ⟨s', [s.ackPacket C (udpSeq packet)], some (udpSeq packet), false, err⟩
          else ⟨s, [], some (udpSeq packet), false, true⟩
  else s.ignorePacket

/-- Queue a received datagram; a full queue finishes the session. -/
def deliverPacket (s : UdpSession) (packet : Bytes) : UdpSession :=
  if s.closed then s
  else if s.packetCh.length < packetQueueLen then
    { s with packetCh := s.packetCh ++ [packet] }
  else { s with closed := true }

/-- One scan of `retransmitLoop` over the due entries in iteration order:
the new table, the datagrams to resend, and whether an entry is exhausted. -/
def retransmitScan : List Nat → Table Nat PendingDatagram →
    Table Nat PendingDatagram × List Bytes × Bool
  | [], pending => (pending, [], false)
  | seq :: due, pending =>
      match Finmap.lookup seq pending with
      | none => retransmitScan due pending
      | some item =>
          if udpMaxRetries ≤ item.retries then (pending, [], true)
          else
            let (pending', resend, exhausted) :=
              retransmitScan due (pending.insert seq { item with retries := item.retries + 1 })
            (pending', item.packet :: resend, exhausted)

/-- The datagrams of a tick that are written before the first failing write. -/
def resent (due : List Nat) (failAt : Option Nat) (s : UdpSession) : List Bytes :=
  let (_, resend, exhausted) := retransmitScan due s.pending
  if exhausted then []
  else match failAt with
    | none => resend
    | some k => resend.take k

/-- Whether a tick finishes the session. -/
def tickFails (due : List Nat) (failAt : Option Nat) (s : UdpSession) : Bool :=
  let (_, resend, exhausted) := retransmitScan due s.pending
  exhausted || match failAt with
    | none => false
    | some k => decide (k < resend.length)

end UdpSession

/-- The atomic steps of a session's goroutines. -/
inductive UdpEvent
  | sendCheck (payload : Bytes)
  | sendRefuse (payload : Bytes)
  | sendAcquire (payload : Bytes)
  | sendSeal (payload : Bytes)
  | sendInsert (seq : Nat) (packet : Bytes)
  | sendWrite (seq : Nat) (packet : Bytes) (ok : Bool)
  | sendRelease (seq : Nat)
  | deliver (packet : Bytes)
  | packetLoop (io : PacketIO)
  | loopRelease
  | loopReturn
  | retransmit (due : List Nat) (failAt : Option Nat)
  | close

namespace UdpSession

variable (C : Crypto)

/-- When a step can be taken. Receiving from `slots` blocks while it is
empty, and the 64-bit send counter has not wrapped. -/
def enabled (s : UdpSession) : UdpEvent → Prop
  | .sendCheck payload => s.closed = false ∧ payload.length ≤ maxUDPPlaintext
  | .sendRefuse payload => .checked payload ∈ s.sends
  | .sendAcquire payload => .checked payload ∈ s.sends ∧ s.slots < maxUDPPending
  | .sendSeal payload => .holding payload ∈ s.sends ∧ s.sendSeq + 1 < 2 ^ 64
  | .sendInsert seq packet => .sealed seq packet ∈ s.sends
  | .sendWrite seq packet _ => .inserted seq packet ∈ s.sends
  | .sendRelease seq => .failing seq ∈ s.sends ∧ 0 < s.slots
  | .deliver _ => True
  | .packetLoop _ => s.loop = .running ∧ s.packetCh ≠ []
  | .loopRelease => s.loop = .releasing ∧ 0 < s.slots
  | .loopReturn => s.loop = .running ∧ s.closed = true
  | .retransmit _ _ => s.closed = false
  | .close => True

instance decidableEnabled (s : UdpSession) : ∀ e, Decidable (s.enabled e)
  | .sendCheck payload =>
      inferInstanceAs (Decidable (s.closed = false ∧ payload.length ≤ maxUDPPlaintext))
  | .sendRefuse payload => inferInstanceAs (Decidable (.checked payload ∈ s.sends))
  | .sendAcquire payload =>
      inferInstanceAs (Decidable (.checked payload ∈ s.sends ∧ s.slots < maxUDPPending))
  | .sendSeal payload =>
      inferInstanceAs (Decidable (.holding payload ∈ s.sends ∧ s.sendSeq + 1 < 2 ^ 64))
  | .sendInsert seq packet => inferInstanceAs (Decidable (.sealed seq packet ∈ s.sends))
  | .sendWrite seq packet _ => inferInstanceAs (Decidable (.inserted seq packet ∈ s.sends))
  | .sendRelease seq => inferInstanceAs (Decidable (.failing seq ∈ s.sends ∧ 0 < s.slots))
  | .packetLoop _ => inferInstanceAs (Decidable (s.loop = .running ∧ s.packetCh ≠ []))
  | .loopRelease => inferInstanceAs (Decidable (s.loop = .releasing ∧ 0 < s.slots))
  | .loopReturn => inferInstanceAs (Decidable (s.loop = .running ∧ s.closed = true))
  | .retransmit _ _ => inferInstanceAs (Decidable (s.closed = false))
  | .deliver _ | .close => isTrue trivial

/-- The packet loop takes the oldest queued packet. -/
def loopStep (io : PacketIO) (s : UdpSession) : UdpSession :=
  match s.packetCh with
  | [] => s
  | packet :: rest =>
      let result := handlePacket C io s packet
      { result.session with
        packetCh := rest
        closed := s.closed || result.err
        loop := if result.err then .returned
          else if result.release then .releasing else .running }

/-- The session after a step. -/
def apply (s : UdpSession) : UdpEvent → UdpSession
  | .sendCheck payload => { s with sends := .checked payload :: s.sends }
  | .sendRefuse payload => { s with sends := s.sends.erase (.checked payload) }
  | .sendAcquire payload =>
      { s with
        slots := s.slots + 1
        sends := .holding payload :: s.sends.erase (.checked payload) }
  | .sendSeal payload =>
      { s with
        sendSeq := s.sendSeq + 1
        sends := .sealed (s.sendSeq + 1) (s.dataPacket C (s.sendSeq + 1) payload) ::
          s.sends.erase (.holding payload) }
  | .sendInsert seq packet =>
      { s with
        pending := s.pending.insert seq ⟨packet, 0⟩
        sends := .inserted seq packet :: s.sends.erase (.sealed seq packet) }
  | .sendWrite seq packet true => { s with sends := s.sends.erase (.inserted seq packet) }
  | .sendWrite seq packet false =>
      { s with
        pending := s.pending.erase seq
        sends := .failing seq :: s.sends.erase (.inserted seq packet) }
  | .sendRelease seq =>
      { s with
        slots := s.slots - 1
        sends := s.sends.erase (.failing seq)
        closed := true }
  | .deliver packet => s.deliverPacket packet
  | .packetLoop io => s.loopStep C io
  | .loopRelease => { s with slots := s.slots - 1, loop := .running }
  | .loopReturn => { s with loop := .returned }
  | .retransmit due failAt =>
      { s with
        pending := (retransmitScan due s.pending).1
        closed := s.closed || s.tickFails due failAt }
  | .close => { s with closed := true }

/-- The datagrams a step writes. -/
def written (s : UdpSession) : UdpEvent → List Bytes
  | .sendWrite _ packet true => [packet]
  | .packetLoop io =>
      match s.packetCh with
      | [] => []
      | packet :: _ => (handlePacket C io s packet).written
  | .retransmit due failAt => s.resent due failAt
  | _ => []

/-- The number of the data packet a step authenticates and acknowledges. -/
def acked (s : UdpSession) : UdpEvent → Option Nat
  | .packetLoop io =>
      match s.packetCh with
      | [] => none
      | packet :: _ => (handlePacket C io s packet).acked
  | _ => none

/-! ## What each step can do -/

/-- The packet's acknowledgement MAC verifies under the receive key. -/
def VerifiesAck (s : UdpSession) (packet : Bytes) : Prop :=
  packet.drop udpHeaderLen = (C.hmac s.recvACK (packet.take udpHeaderLen)).take 16

/-- The packet has a header and opens to a plaintext under the receive key. -/
def OpensData (s : UdpSession) (packet plaintext : Bytes) : Prop :=
  udpHeaderLen ≤ packet.length ∧
  C.aeadOpen s.recvKey (nonceFor (udpSeq packet)) (packet.drop udpHeaderLen)
    (packet.take udpHeaderLen) = some plaintext

/-- A packet is ignored, or is an authenticated acknowledgement of a pending
number, or is authenticated data. -/
theorem handlePacket_cases (io : PacketIO) (s : UdpSession) (packet : Bytes) :
    handlePacket C io s packet = s.ignorePacket ∨
    (s.VerifiesAck C packet ∧ udpSeq packet ∈ s.pending ∧
      handlePacket C io s packet =
        ⟨{ s with pending := s.pending.erase (udpSeq packet) }, [], none, true, false⟩) ∨
    ∃ plaintext, s.OpensData C packet plaintext ∧
      handlePacket C io s packet =
        if io.ackWritten then
          ⟨(s.acceptOrdered io.published (udpSeq packet) plaintext).1,
            [s.ackPacket C (udpSeq packet)], some (udpSeq packet), false,
            (s.acceptOrdered io.published (udpSeq packet) plaintext).2⟩
        else ⟨s, [], some (udpSeq packet), false, true⟩ := by
  -- The result is named first, so that the branches are split only once.
  generalize hresult : handlePacket C io s packet = result
  simp only [handlePacket] at hresult
  split at hresult
  · exact Or.inl hresult.symm
  rename_i hlen
  split at hresult
  · exact Or.inl hresult.symm
  split at hresult
  · exact Or.inl hresult.symm
  split at hresult
  · split at hresult
    · exact Or.inl hresult.symm
    split at hresult
    · exact Or.inl hresult.symm
    · rename_i hmac
      split at hresult
      · rename_i hmem
        exact Or.inr (Or.inl ⟨not_not.mp hmac, hmem, hresult.symm⟩)
      · exact Or.inl hresult.symm
  · split at hresult
    · split at hresult
      · exact Or.inl hresult.symm
      · split at hresult
        · exact Or.inl hresult.symm
        · rename_i plaintext hopen
          exact Or.inr (Or.inr ⟨plaintext, ⟨not_lt.mp hlen, hopen⟩, hresult.symm⟩)
    · exact Or.inl hresult.symm

/-- A packet of the session with a true length field passes the header
checks. -/
theorem header_checks {s : UdpSession} {kind : UInt8} {seq : Nat}
    {packet body : Bytes} (hsid : s.sessionID < 2 ^ 64) (hlen : body.length < 2 ^ 16)
    (hp : packet = makeUDPHeader kind s.sessionID seq body.length ++ body) :
    ¬ packet.length < udpHeaderLen ∧
    ¬ (packet.take 4 ≠ udpDataMagic ∨ packet.getD 4 0 ≠ udpDataVersion) ∧
    ¬ (udpSessionID packet ≠ s.sessionID ∨
      udpPayloadLen packet ≠ packet.length - udpHeaderLen) ∧
    packet.getD 5 0 = kind ∧ udpPayloadLen packet = body.length := by
  subst hp
  obtain ⟨hmagic, hversion, hkind⟩ := front_header kind s.sessionID seq body.length body
  have hid := (udpSessionID_header kind s.sessionID seq body.length body).trans
    (Nat.mod_eq_of_lt hsid)
  have hplen := (udpPayloadLen_header kind s.sessionID seq body.length body).trans
    (Nat.mod_eq_of_lt hlen)
  refine ⟨by simp, not_or.mpr ⟨not_not.mpr hmagic, not_not.mpr hversion⟩, ?_, hkind, hplen⟩
  simp [hid, hplen]

/-- A sealed packet of the peer is opened, acknowledged and resequenced. -/
theorem handlePacket_dataPacket {io : PacketIO} {s t : UdpSession} {seq : Nat} {payload : Bytes}
    (hkey : t.recvKey = s.sendKey) (hid : t.sessionID = s.sessionID)
    (hsid : t.sessionID < 2 ^ 64) (hseq : seq < 2 ^ 64)
    (hlen : payload.length ≤ maxUDPPlaintext) (hw : io.ackWritten = true) :
    handlePacket C io t (s.dataPacket C seq payload) =
      ⟨(t.acceptOrdered io.published seq payload).1, [t.ackPacket C seq], some seq, false,
        (t.acceptOrdered io.published seq payload).2⟩ := by
  have hbody := C.aeadSeal_length s.sendKey (nonceFor seq) payload
    (makeUDPHeader udpPacketData s.sessionID seq (payload.length + aeadOverhead))
  have hp : s.dataPacket C seq payload = makeUDPHeader udpPacketData t.sessionID seq
      (C.aeadSeal s.sendKey (nonceFor seq) payload
        (makeUDPHeader udpPacketData s.sessionID seq (payload.length + aeadOverhead))).length ++
      C.aeadSeal s.sendKey (nonceFor seq) payload
        (makeUDPHeader udpPacketData s.sessionID seq (payload.length + aeadOverhead)) := by
    rw [hbody, hid]
    rfl
  have hshort : payload.length + 16 < 2 ^ 16 := by
    have hmax : maxUDPPlaintext = 1400 := rfl
    omega
  obtain ⟨h₁, h₂, h₃, hkind, hplen⟩ :=
    header_checks hsid (by rw [hbody]; exact hshort) hp
  have htake : (s.dataPacket C seq payload).take udpHeaderLen =
      makeUDPHeader udpPacketData s.sessionID seq (payload.length + aeadOverhead) :=
    take_header ..
  have hdrop : (s.dataPacket C seq payload).drop udpHeaderLen = C.aeadSeal s.sendKey
      (nonceFor seq) payload
      (makeUDPHeader udpPacketData s.sessionID seq (payload.length + aeadOverhead)) :=
    drop_header ..
  have hover : ¬ udpPayloadLen (s.dataPacket C seq payload) < aeadOverhead := by
    rw [hplen, hbody, aeadOverhead]
    omega
  have hne : ¬ udpPacketData = udpPacketACK := by decide
  rw [handlePacket, if_neg h₁, if_neg h₂, if_neg h₃, hkind, if_neg hne, if_pos rfl,
    if_neg hover, udpSeq_of_take htake hseq, htake, hdrop, hkey, C.aeadOpen_aeadSeal]
  simp only [hw, if_true]

/-- An acknowledgement of the peer removes the entry it names. -/
theorem handlePacket_ackPacket {io : PacketIO} {s t : UdpSession} {seq : Nat}
    (hkey : t.recvACK = s.sendACK) (hid : t.sessionID = s.sessionID)
    (hsid : t.sessionID < 2 ^ 64) (hseq : seq < 2 ^ 64) (hm : seq ∈ t.pending) :
    handlePacket C io t (s.ackPacket C seq) =
      ⟨{ t with pending := t.pending.erase seq }, [], none, true, false⟩ := by
  have hbody : ((C.hmac s.sendACK (makeUDPHeader udpPacketACK s.sessionID seq 16)).take 16).length
      = 16 := by
    rw [List.length_take, C.hmac_length]
    rfl
  have hp : s.ackPacket C seq = makeUDPHeader udpPacketACK t.sessionID seq
      ((C.hmac s.sendACK (makeUDPHeader udpPacketACK s.sessionID seq 16)).take 16).length ++
      (C.hmac s.sendACK (makeUDPHeader udpPacketACK s.sessionID seq 16)).take 16 := by
    rw [hbody, hid]
    rfl
  obtain ⟨h₁, h₂, h₃, hkind, hplen⟩ :=
    header_checks hsid (by rw [hbody]; decide) hp
  have htake : (s.ackPacket C seq).take udpHeaderLen =
      makeUDPHeader udpPacketACK s.sessionID seq 16 := take_header ..
  have hdrop : (s.ackPacket C seq).drop udpHeaderLen =
      (C.hmac s.sendACK (makeUDPHeader udpPacketACK s.sessionID seq 16)).take 16 :=
    drop_header ..
  rw [handlePacket, if_neg h₁, if_neg h₂, if_neg h₃, hkind, if_pos rfl, hplen, hbody,
    udpSeq_of_take htake hseq, htake, hdrop, hkey]
  simp only [ne_eq, not_true_eq_false, if_false, hm, if_true]

/-- The result of resequencing an arrived plaintext. -/
def resequenced (s : UdpSession) (io : PacketIO) (packet plaintext : Bytes) :
    Resequencer Bytes × Resequencer.Outcome Bytes :=
  Resequencer.accept maxUDPReorder io.published s.recv (udpSeq packet) plaintext

/-- Everything the packet loop can do with the oldest queued packet. -/
inductive LoopOutcome (io : PacketIO) (s : UdpSession) (packet : Bytes) (rest : List Bytes) :
    UdpSession → Option Nat → Prop
  | ignored : LoopOutcome io s packet rest { s with packetCh := rest } none
  | released (hv : s.VerifiesAck C packet) (hm : udpSeq packet ∈ s.pending) :
      LoopOutcome io s packet rest
        { s with
          packetCh := rest
          pending := s.pending.erase (udpSeq packet)
          loop := .releasing }
        none
  | accepted (plaintext : Bytes) (ho : s.OpensData C packet plaintext)
      (hw : io.ackWritten = true) :
      LoopOutcome io s packet rest
        { s with
          packetCh := rest
          recv := (s.resequenced io packet plaintext).1
          closed := s.closed || (s.resequenced io packet plaintext).2.isFailed
          loop := if (s.resequenced io packet plaintext).2.isFailed then .returned
            else .running }
        (some (udpSeq packet))
  | unacknowledged (plaintext : Bytes) (ho : s.OpensData C packet plaintext)
      (hw : io.ackWritten = false) :
      LoopOutcome io s packet rest
        { s with packetCh := rest, closed := true, loop := .returned }
        (some (udpSeq packet))

theorem loopStep_outcome {io : PacketIO} {s : UdpSession} {packet : Bytes} {rest : List Bytes}
    (hq : s.packetCh = packet :: rest) (hl : s.loop = .running) :
    LoopOutcome C io s packet rest (s.loopStep C io) (s.acked C (.packetLoop io)) := by
  have hstep : s.loopStep C io =
      { (handlePacket C io s packet).session with
        packetCh := rest
        closed := s.closed || (handlePacket C io s packet).err
        loop := if (handlePacket C io s packet).err then .returned
          else if (handlePacket C io s packet).release then .releasing else .running } := by
    simp only [loopStep, hq]
  have hacked : s.acked C (.packetLoop io) = (handlePacket C io s packet).acked := by
    simp only [acked, hq]
  rw [hstep, hacked]
  rcases handlePacket_cases C io s packet with h | ⟨hv, hm, h⟩ | ⟨plaintext, ho, h⟩
  · rw [h]
    simpa only [ignorePacket, Bool.or_false, Bool.false_eq_true, if_false, ← hl] using
      LoopOutcome.ignored
  · rw [h]
    simpa only [Bool.or_false, Bool.false_eq_true, if_false, if_true] using
      LoopOutcome.released hv hm
  · cases hw : io.ackWritten with
    | true =>
        rw [h, if_pos hw]
        exact LoopOutcome.accepted plaintext ho hw
    | false =>
        rw [h, if_neg (by simp [hw])]
        simpa only [Bool.or_true, if_true] using LoopOutcome.unacknowledged plaintext ho hw

theorem packetLoop_outcome {io : PacketIO} {s : UdpSession}
    (he : s.enabled (.packetLoop io)) :
    ∃ packet rest, s.packetCh = packet :: rest ∧
      LoopOutcome C io s packet rest (s.apply C (.packetLoop io))
        (s.acked C (.packetLoop io)) := by
  obtain ⟨hl, hq⟩ := he
  obtain ⟨packet, rest, hq⟩ := List.exists_cons_of_ne_nil hq
  exact ⟨packet, rest, hq, loopStep_outcome C hq hl⟩

/-- The keys and the identifier of a session. -/
def identity (s : UdpSession) : Nat × Bytes × Bytes × Bytes × Bytes :=
  (s.sessionID, s.sendKey, s.recvKey, s.sendACK, s.recvACK)

/-- What the packet loop leaves alone. -/
theorem LoopOutcome.frame {io : PacketIO} {s t : UdpSession} {packet : Bytes}
    {rest : List Bytes} {seq : Option Nat} (h : LoopOutcome C io s packet rest t seq) :
    t.identity = s.identity ∧ t.sendSeq = s.sendSeq ∧ t.slots = s.slots ∧
      t.sends = s.sends ∧ t.packetCh = rest := by
  cases h <;> exact ⟨rfl, rfl, rfl, rfl, rfl⟩

/-- The `Seal` call a step makes. -/
def sealRecord (s : UdpSession) : UdpEvent → Option SealRecord
  | .sendSeal payload => some
      ⟨s.sendKey, nonceFor (s.sendSeq + 1),
        makeUDPHeader udpPacketData s.sessionID (s.sendSeq + 1) (payload.length + aeadOverhead),
        payload⟩
  | _ => none

section Steps

variable {C} {s : UdpSession} {e : UdpEvent}

theorem deliverPacket_closed (hc : s.closed = true) (packet : Bytes) :
    s.deliverPacket packet = s := by
  simp only [deliverPacket, hc, if_true]

theorem deliverPacket_room (hc : s.closed = false) (hlen : s.packetCh.length < packetQueueLen)
    (packet : Bytes) : s.deliverPacket packet = { s with packetCh := s.packetCh ++ [packet] } := by
  simp only [deliverPacket, hc, Bool.false_eq_true, if_false, hlen, if_true]

theorem deliverPacket_full (hc : s.closed = false) (hlen : packetQueueLen ≤ s.packetCh.length)
    (packet : Bytes) : s.deliverPacket packet = { s with closed := true } := by
  simp only [deliverPacket, hc, Bool.false_eq_true, if_false, hlen.not_gt]

theorem deliverPacket_cases (s : UdpSession) (packet : Bytes) :
    s.deliverPacket packet = s ∨
    (s.packetCh.length < packetQueueLen ∧
      s.deliverPacket packet = { s with packetCh := s.packetCh ++ [packet] }) ∨
    s.deliverPacket packet = { s with closed := true } := by
  simp only [deliverPacket]
  split
  · exact Or.inl rfl
  · split
    · rename_i hlen
      exact Or.inr (Or.inl ⟨hlen, rfl⟩)
    · exact Or.inr (Or.inr rfl)

/-- No step changes the keys or the identifier. -/
theorem apply_identity (he : s.enabled e) : (s.apply C e).identity = s.identity := by
  cases e with
  | packetLoop io =>
      obtain ⟨_, _, _, h⟩ := packetLoop_outcome C he
      exact h.frame.1
  | deliver packet =>
      rcases deliverPacket_cases s packet with h | ⟨_, h⟩ | h <;> simp only [apply, h] <;> rfl
  | sendWrite seq packet ok => cases ok <;> rfl
  | _ => rfl

/-- Only sealing advances the send counter. -/
theorem apply_sendSeq (he : s.enabled e) :
    (s.apply C e).sendSeq = s.sendSeq + (s.sealRecord e).toList.length := by
  cases e with
  | packetLoop io =>
      obtain ⟨_, _, _, h⟩ := packetLoop_outcome C he
      exact h.frame.2.1
  | deliver packet =>
      rcases deliverPacket_cases s packet with h | ⟨_, h⟩ | h <;> simp only [apply, h] <;> rfl
  | sendWrite seq packet ok => cases ok <;> rfl
  | _ => rfl

/-- A step leaves the resequencer alone or accepts an opened plaintext. -/
theorem apply_recv (he : s.enabled e) :
    (s.apply C e).recv = s.recv ∨
    ∃ io packet plaintext, e = .packetLoop io ∧ packet ∈ s.packetCh ∧
      s.OpensData C packet plaintext ∧
      (s.apply C e).recv = (s.resequenced io packet plaintext).1 := by
  cases e with
  | packetLoop io =>
      obtain ⟨packet, rest, hq, h⟩ := packetLoop_outcome C he
      generalize s.apply C (.packetLoop io) = t at h ⊢
      generalize s.acked C (.packetLoop io) = seq at h
      cases h with
      | ignored => exact Or.inl rfl
      | released hv hm => exact Or.inl rfl
      | accepted plaintext ho hw =>
          exact Or.inr ⟨io, packet, plaintext, rfl, by simp [hq], ho, rfl⟩
      | unacknowledged plaintext ho hw => exact Or.inl rfl
  | deliver packet =>
      rcases deliverPacket_cases s packet with h | ⟨_, h⟩ | h <;> simp [apply, h]
  | sendWrite seq packet ok => cases ok <;> exact Or.inl rfl
  | _ => exact Or.inl rfl

/-- A step adds to the packet queue only the datagram it delivers. -/
theorem mem_packetCh_apply (he : s.enabled e) {packet : Bytes}
    (h : packet ∈ (s.apply C e).packetCh) : packet ∈ s.packetCh ∨ e = .deliver packet := by
  cases e with
  | packetLoop io =>
      obtain ⟨first, rest, hq, ho⟩ := packetLoop_outcome C he
      rw [ho.frame.2.2.2.2] at h
      exact Or.inl (by simp [hq, h])
  | deliver packet' =>
      rcases deliverPacket_cases s packet' with h' | ⟨_, h'⟩ | h' <;>
        simp only [apply, h'] at h
      · exact Or.inl h
      · rcases List.mem_append.mp h with h | h
        · exact Or.inl h
        · exact Or.inr (by simp at h; rw [h])
      · exact Or.inl h
  | sendWrite seq packet ok => cases ok <;> exact Or.inl h
  | _ => exact Or.inl h

/-- An acknowledged number belongs to a queued packet that opens. -/
theorem acked_eq_some (he : s.enabled e) {seq : Nat} (h : s.acked C e = some seq) :
    ∃ packet plaintext, packet ∈ s.packetCh ∧ s.OpensData C packet plaintext ∧
      udpSeq packet = seq := by
  cases e with
  | packetLoop io =>
      obtain ⟨packet, rest, hq, ho⟩ := packetLoop_outcome C he
      rw [h] at ho
      have hmem : packet ∈ s.packetCh := by simp [hq]
      generalize s.apply C (.packetLoop io) = t at ho
      cases ho with
      | accepted plaintext ho hw => exact ⟨packet, plaintext, hmem, ho, rfl⟩
      | unacknowledged plaintext ho hw => exact ⟨packet, plaintext, hmem, ho, rfl⟩
  | _ => cases h

/-- A finished session stays finished. -/
theorem closed_of_apply (he : s.enabled e) (h : (s.apply C e).closed = false) :
    s.closed = false := by
  cases e with
  | packetLoop io =>
      obtain ⟨_, _, _, ho⟩ := packetLoop_outcome C he
      generalize s.apply C (.packetLoop io) = t at h ho
      generalize s.acked C (.packetLoop io) = seq at ho
      cases ho with
      | ignored => exact h
      | released hv hm => exact h
      | accepted plaintext ho hw => exact (Bool.or_eq_false_iff.mp h).1
      | unacknowledged plaintext ho hw => cases h
  | deliver packet =>
      rcases deliverPacket_cases s packet with h' | ⟨_, h'⟩ | h' <;> simp only [apply, h'] at h
      · exact h
      · exact h
      · cases h
  | sendWrite seq packet ok => cases ok <;> exact h
  | retransmit due failAt => exact he
  | sendRelease seq => cases h
  | close => cases h
  | _ => exact h

end Steps

end UdpSession

end UnknownTunnel.Transport

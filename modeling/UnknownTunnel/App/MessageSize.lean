import UnknownTunnel.App.FragmentRoundTrip
import UnknownTunnel.App.TcpTable
import UnknownTunnel.Protocol.Codec
import UnknownTunnel.Transport.TcpSession
import UnknownTunnel.Tun.Filter

/-!
# The size of application messages

Each place where `App` calls `send` bounds what it puts into a message: by the
MTU, by the size of a read buffer, by the length of an identifier or by a fixed
text. Every encoded message is short enough for either carrier, and its sealed
packet for the length field and the read buffer of the peer.

## Implementation notes

A call of `send` is given by its place and by what the program finds there at
run time. What is assumed of these data is what the interface with the MTU, the
read into a buffer of fixed size or the start of a forward ensures.
-/

namespace UnknownTunnel.App

open Foundation ConfigFile Protocol Transport

/-- The size of the buffer that a connection is read into. -/
def tcpChunkSize : Nat := 1200

/-- The size of the buffers into which either end reads UDP packets. -/
def udpReadBuffer : Nat := 2048

/-- The places where `send` is called, with the data found there. -/
inductive SendSite
  /-- `handleMessage` answers a ping. -/
  | pong (seq : UInt64)
  /-- `maintenanceLoop` sends a ping. -/
  | ping (seq : UInt64)
  | tunReadLoop (packet : Bytes)
  | openLocalTCP (connID : UInt64) (f : Forward)
  /-- `handleOpenTCP` refuses or announces a connection. -/
  | handleOpenTCP (connID : UInt64) (refusal : Option Refusal)
  | pumpTCP (connID seq : UInt64) (read : Bytes)
  /-- `closeTCP` with a notice, and `handleTCPData` without a connection. -/
  | closeTCP (connID : UInt64)
  | startUDPForward (flowID datagramID : UInt64) (f : Forward) (read : Bytes)
  | remoteUDPReadLoop (flowID datagramID : UInt64) (read : Bytes)

namespace SendSite

/-- A message with the fields that a literal leaves out. -/
def message (type : UInt8) : Message :=
  { id := 0, type, connID := 0, seq := 0, name := [], error := [], payload := [] }

/-- A fragment as `sendUDPDatagram` passes it to `send`. -/
def udpData (m : UdpMessage) : Message :=
  { message typeUDPData with
    connID := UInt64.ofNat m.connID, seq := UInt64.ofNat m.seq, name := m.name
    payload := m.payload }

/-- The messages that are passed to `send`. -/
def messages (cfg : Config) : SendSite → List Message
  | .pong seq => [{ message typePong with seq }]
  | .ping seq => [{ message typePing with seq }]
  | .tunReadLoop packet =>
      if Tun.packetAllowed packet cfg.l3.allowProtocols = some true then
        [{ message typeIPPacket with payload := packet }]
      else []
  | .openLocalTCP connID f => [{ message typeOpenTCP with connID, name := f.service }]
  | .handleOpenTCP connID refusal =>
      [{ message typeTCPStatus with
          connID, error := (refusal.map fun r => ofString r.text).getD [] }]
  | .pumpTCP connID seq read =>
      if 0 < read.length then [{ message typeTCPData with connID, seq, payload := read }] else []
  | .closeTCP connID => [{ message typeTCPClose with connID }]
  | .startUDPForward flowID datagramID f read =>
      (UdpCall.messages ⟨flowID.toNat, f.service, datagramID.toNat, read⟩).map udpData
  | .remoteUDPReadLoop flowID datagramID read =>
      (UdpCall.messages ⟨flowID.toNat, [], datagramID.toNat, read⟩).map udpData

/-- The data that can be found at a place: the kernel respects the MTU of the
interface, a read fills at most its buffer, and forwards are configured. -/
def Possible (cfg : Config) : SendSite → Prop
  | .tunReadLoop packet => cfg.l3.enabled = true ∧ (packet.length : Int) ≤ cfg.l3.mtu
  | .openLocalTCP _ f => f ∈ cfg.forwards
  | .pumpTCP _ _ read => read.length ≤ tcpChunkSize
  | .startUDPForward _ _ f read => f ∈ cfg.forwards ∧ read.length ≤ maxUDPDatagram
  | .remoteUDPReadLoop _ _ read => read.length ≤ maxUDPDatagram
  | .pong _ | .ping _ | .handleOpenTCP _ _ | .closeTCP _ => True

end SendSite

/-! ## Encoded messages -/

/-- A message whose fields are small. -/
structure Small (m : Message) : Prop where
  low : typeIPPacket ≤ m.type
  high : m.type ≤ typePong
  name : m.name.length ≤ maxNameLen
  error : m.error.length ≤ maxErrorLen
  fields : m.name.length + m.error.length + m.payload.length ≤ 1300

theorem Small.encode {m : Message} (h : Small m) :
    ∃ data, Protocol.encode m = .ok data ∧ data.length ≤ maxUDPPlaintext := by
  have hfields := h.fields
  have hpayload : m.payload.length ≤ maxPayloadLen := by
    rw [maxPayloadLen]
    omega
  refine ⟨_, encode_eq_ok_iff.mpr ⟨⟨h.low, h.high, h.name, h.error, hpayload⟩, rfl⟩, ?_⟩
  simp only [List.length_append, length_messageHeader, maxUDPPlaintext]
  omega

/-- The number that `send` gives to a message does not count. -/
theorem Small.with_id {m : Message} (h : Small m) (id : UInt64) : Small { m with id } :=
  ⟨h.low, h.high, h.name, h.error, h.fields⟩

theorem small_of_type (type : UInt8) (htype : typeIPPacket ≤ type ∧ type ≤ typePong) {m : Message}
    (hm : m.type = type) (hname : m.name.length ≤ maxNameLen)
    (herror : m.error.length ≤ maxErrorLen)
    (hfields : m.name.length + m.error.length + m.payload.length ≤ 1300) : Small m := by
  subst hm
  exact ⟨htype.1, htype.2, hname, herror, hfields⟩

theorem length_service {L : Library} {c : Config} (hc : c.Accepted L) {f : Forward}
    (hf : f ∈ (c.normalize L).forwards) : f.service.length ≤ 64 :=
  length_of_identifier ((Config.accepted_iff.mp hc).forwards f hf).service

theorem small_udpData {service read : Bytes} {flowID datagramID : Nat} {m : Message}
    (hservice : service.length ≤ 64)
    (hm : m ∈ (UdpCall.messages ⟨flowID, service, datagramID, read⟩).map SendSite.udpData) :
    Small m := by
  obtain ⟨u, hu, rfl⟩ := List.mem_map.mp hm
  obtain ⟨-, hname, hfragment⟩ := mem_messages hu
  obtain ⟨part, -, -, hpayload⟩ := hfragment.exists_part
  simp only at hname hpayload
  have hpiece : (Pieces.piece udpChunkSize read part).length ≤ udpChunkSize := by
    rw [Pieces.piece_eq]
    exact List.length_take_le _ _
  rw [udpChunkSize] at hpiece
  refine small_of_type typeUDPData (by decide) rfl ?_ (Nat.zero_le _) ?_
  · show u.name.length ≤ 255
    rw [hname]
    omega
  · show u.name.length + 0 + u.payload.length ≤ 1300
    rw [hname, hpayload]
    simp only [fragmentPayload, List.length_append, Bytes.length_bePut, udpChunkSize]
    omega

/-- Every message that the program builds is small. -/
theorem small_of_possible {L : Library} {c : Config} (hc : c.Accepted L) {site : SendSite}
    (hsite : site.Possible (c.normalize L)) {m : Message}
    (hm : m ∈ site.messages (c.normalize L)) : Small m := by
  cases site with
  | pong seq =>
      rw [List.mem_singleton.mp hm]
      exact small_of_type typePong (by decide) rfl (Nat.zero_le _) (Nat.zero_le _) (Nat.zero_le _)
  | ping seq =>
      rw [List.mem_singleton.mp hm]
      exact small_of_type typePing (by decide) rfl (Nat.zero_le _) (Nat.zero_le _) (Nat.zero_le _)
  | closeTCP connID =>
      rw [List.mem_singleton.mp hm]
      exact small_of_type typeTCPClose (by decide) rfl (Nat.zero_le _) (Nat.zero_le _)
        (Nat.zero_le _)
  | tunReadLoop packet =>
      obtain ⟨henabled, hmtu⟩ := hsite
      have hmax := ((Config.accepted_iff.mp hc).l3 henabled).mtu.2
      simp only [SendSite.messages] at hm
      split at hm
      · rw [List.mem_singleton.mp hm]
        refine small_of_type typeIPPacket (by decide) rfl (Nat.zero_le _) (Nat.zero_le _) ?_
        show 0 + 0 + packet.length ≤ 1300
        omega
      · cases hm
  | openLocalTCP connID f =>
      have hname := length_service hc hsite
      rw [List.mem_singleton.mp hm]
      refine small_of_type typeOpenTCP (by decide) rfl ?_ (Nat.zero_le _) ?_
      · show f.service.length ≤ 255
        omega
      · show f.service.length + 0 + 0 ≤ 1300
        omega
  | handleOpenTCP connID refusal =>
      have herror : ((refusal.map fun r => ofString r.text).getD []).length ≤ 36 := by
        cases refusal with
        | none => decide
        | some r => cases r <;> decide
      rw [List.mem_singleton.mp hm]
      refine small_of_type typeTCPStatus (by decide) rfl (Nat.zero_le _)
        (le_trans herror (by decide)) ?_
      show 0 + ((refusal.map fun r => ofString r.text).getD []).length + 0 ≤ 1300
      omega
  | pumpTCP connID seq read =>
      have hread : read.length ≤ 1200 := hsite
      simp only [SendSite.messages] at hm
      split at hm
      · rw [List.mem_singleton.mp hm]
        refine small_of_type typeTCPData (by decide) rfl (Nat.zero_le _) (Nat.zero_le _) ?_
        show 0 + 0 + read.length ≤ 1300
        omega
      · cases hm
  | startUDPForward flowID datagramID f read =>
      exact small_udpData (length_service hc hsite.1) hm
  | remoteUDPReadLoop flowID datagramID read => exact small_udpData (Nat.zero_le _) hm

/-! ## Sealed packets -/

section Packets

variable (C : Crypto) (s : UdpSession) (seq : Nat) (payload : Bytes)

theorem length_dataPacket :
    (s.dataPacket C seq payload).length = udpHeaderLen + (payload.length + aeadOverhead) := by
  rw [UdpSession.dataPacket, List.length_append, length_makeUDPHeader, C.aeadSeal_length]
  rfl

variable {payload}

/-- The length field holds the length of what follows the header. -/
theorem udpPayloadLen_dataPacket (h : payload.length ≤ maxUDPPlaintext) :
    udpPayloadLen (s.dataPacket C seq payload) = payload.length + aeadOverhead := by
  rw [UdpSession.dataPacket, udpPayloadLen_header]
  apply Nat.mod_eq_of_lt
  simp only [maxUDPPlaintext, aeadOverhead] at h ⊢
  omega

end Packets

/-- Under an accepted configuration, whatever the program finds at a place
where it sends, each message it builds there is encoded to at most
`maxUDPPlaintext` bytes, which neither carrier refuses for their number. The
length field of the sealed packet is true, the packet fits the read buffer of
the peer, and it passes the tests of lengths in `handlePacket`. -/
theorem app_messages_fit (L : Library) (c : Config) (hc : c.Accepted L) (site : SendSite)
    (hsite : site.Possible (c.normalize L)) (m : Message)
    (hm : m ∈ site.messages (c.normalize L)) (id : UInt64) :
    ∃ data, encode { m with id } = .ok data ∧ data.length ≤ maxUDPPlaintext ∧
      (∀ s : UdpSession, s.closed = false → s.enabled (.sendCheck data)) ∧
      (∀ s : TcpSession, s.sendSeq + 1 < 2 ^ 64 → ∀ failAt, s.enabled (.send data failAt)) ∧
      ∀ (C : Crypto) (s : UdpSession) (seq : Nat),
        udpPayloadLen (s.dataPacket C seq data) = data.length + aeadOverhead ∧
        (s.dataPacket C seq data).length ≤ udpReadBuffer ∧
        udpHeaderLen ≤ (s.dataPacket C seq data).length ∧
        udpPayloadLen (s.dataPacket C seq data) =
          (s.dataPacket C seq data).length - udpHeaderLen ∧
        aeadOverhead ≤ udpPayloadLen (s.dataPacket C seq data) := by
  obtain ⟨data, hencode, hlen⟩ := ((small_of_possible hc hsite hm).with_id id).encode
  refine ⟨data, hencode, hlen, fun s hopen => ⟨hopen, hlen⟩, ?_, ?_⟩
  · intro s hseq failAt
    exact ⟨le_trans hlen (by decide), hseq⟩
  · intro C s seq
    have hfield := udpPayloadLen_dataPacket C s seq hlen
    have hpacket := length_dataPacket C s seq data
    simp only [maxUDPPlaintext, udpHeaderLen, aeadOverhead, udpReadBuffer] at hlen hfield hpacket ⊢
    omega

/-- A datagram of one byte that is read for the forward of the small
configuration. -/
def sampleSite : SendSite :=
  .startUDPForward 7 1 ⟨ofString "dns", udp, ofString ":53", ofString "dns"⟩ [5]

def sampleMessage : Message :=
  { SendSite.message typeUDPData with
    connID := 7, seq := 1, name := ofString "dns", payload := [0, 0, 0, 1, 5] }

theorem app_messages_fit_datagram :
    sampleSite.Possible (sampleConfig.normalize sampleLibrary) ∧
    ∃ data, encode { sampleMessage with id := 3 } = .ok data ∧ data.length ≤ maxUDPPlaintext := by
  have hsite : sampleSite.Possible (sampleConfig.normalize sampleLibrary) :=
    ⟨by decide +kernel, by decide⟩
  obtain ⟨data, hencode, hlen, -⟩ := app_messages_fit sampleLibrary sampleConfig
    sampleConfig_accepted sampleSite hsite sampleMessage (by decide +kernel) 3
  exact ⟨hsite, data, hencode, hlen⟩

end UnknownTunnel.App

import UnknownTunnel.Transport.Crypto

/-!
# UDP carrier packets

The 28-byte header of `makeUDPHeader` and the fields `handlePacket` reads
from it. Data packets append a sealed payload, acknowledgements a truncated
MAC of the header.
-/

namespace UnknownTunnel.Transport

open Foundation

def udpDataMagic : Bytes := ofString "UKD1"

def udpDataVersion : UInt8 := 1

def udpPacketData : UInt8 := 1

def udpPacketACK : UInt8 := 2

/-- The length of the header of every packet. -/
def udpHeaderLen : Nat := 28

/-- The header of a packet; the two reserved fields stay zero. -/
def makeUDPHeader (kind : UInt8) (sessionID seq payloadLen : Nat) : Bytes :=
  udpDataMagic ++ [udpDataVersion, kind, 0, 0] ++ Bytes.bePut 8 sessionID ++
    Bytes.bePut 8 seq ++ Bytes.bePut 2 payloadLen ++ [0, 0]

/-- The session identifier field, bytes 8 to 15. -/
def udpSessionID (packet : Bytes) : Nat := Bytes.beGet (Bytes.slice 8 16 packet)

/-- The sequence number field, bytes 16 to 23. -/
def udpSeq (packet : Bytes) : Nat := Bytes.beGet (Bytes.slice 16 24 packet)

/-- The payload length field, bytes 24 and 25. -/
def udpPayloadLen (packet : Bytes) : Nat := Bytes.beGet (Bytes.slice 24 26 packet)

private theorem length_udpDataMagic : udpDataMagic.length = 4 := by decide

@[simp] theorem length_makeUDPHeader (kind : UInt8) (sessionID seq payloadLen : Nat) :
    (makeUDPHeader kind sessionID seq payloadLen).length = udpHeaderLen := by
  simp [makeUDPHeader, length_udpDataMagic, udpHeaderLen]

section Fields

variable (kind : UInt8) (sessionID seq payloadLen : Nat) (body : Bytes)

private theorem header_split :
    makeUDPHeader kind sessionID seq payloadLen ++ body =
      (udpDataMagic ++ [udpDataVersion, kind, 0, 0]) ++ (Bytes.bePut 8 sessionID ++
        (Bytes.bePut 8 seq ++ (Bytes.bePut 2 payloadLen ++ ([0, 0] ++ body)))) := by
  simp [makeUDPHeader]

theorem udpSessionID_header :
    udpSessionID (makeUDPHeader kind sessionID seq payloadLen ++ body) =
      sessionID % 256 ^ 8 := by
  rw [header_split, udpSessionID,
    Bytes.slice_append _ (by simp [length_udpDataMagic]) (by simp [length_udpDataMagic]),
    Bytes.beGet_bePut]

theorem udpSeq_header :
    udpSeq (makeUDPHeader kind sessionID seq payloadLen ++ body) = seq % 256 ^ 8 := by
  rw [header_split, ← List.append_assoc, udpSeq,
    Bytes.slice_append _ (by simp [length_udpDataMagic]) (by simp [length_udpDataMagic]),
    Bytes.beGet_bePut]

theorem udpPayloadLen_header :
    udpPayloadLen (makeUDPHeader kind sessionID seq payloadLen ++ body) =
      payloadLen % 256 ^ 2 := by
  rw [header_split, ← List.append_assoc, ← List.append_assoc, udpPayloadLen,
    Bytes.slice_append _ (by simp [length_udpDataMagic]) (by simp [length_udpDataMagic]),
    Bytes.beGet_bePut]

theorem take_header :
    (makeUDPHeader kind sessionID seq payloadLen ++ body).take udpHeaderLen =
      makeUDPHeader kind sessionID seq payloadLen :=
  List.take_left' (length_makeUDPHeader _ _ _ _)

theorem drop_header :
    (makeUDPHeader kind sessionID seq payloadLen ++ body).drop udpHeaderLen = body :=
  List.drop_left' (length_makeUDPHeader _ _ _ _)

/-- The fixed bytes at the front of a packet that begins with a header. -/
theorem front_header :
    (makeUDPHeader kind sessionID seq payloadLen ++ body).take 4 = udpDataMagic ∧
      (makeUDPHeader kind sessionID seq payloadLen ++ body).getD 4 0 = udpDataVersion ∧
      (makeUDPHeader kind sessionID seq payloadLen ++ body).getD 5 0 = kind := by
  have hmagic : udpDataMagic = [85, 75, 68, 49] := by decide
  simp [makeUDPHeader, hmagic]

end Fields

/-- The sequence number field of any packet that begins with a given header. -/
theorem udpSeq_of_take {kind : UInt8} {sessionID seq payloadLen : Nat} {packet : Bytes}
    (h : packet.take udpHeaderLen = makeUDPHeader kind sessionID seq payloadLen)
    (hseq : seq < 2 ^ 64) : udpSeq packet = seq := by
  have hfield : udpSeq packet = udpSeq (packet.take udpHeaderLen) := by
    rw [udpSeq, udpSeq, Bytes.slice_take packet (by decide)]
  have hhead := udpSeq_header kind sessionID seq payloadLen []
  rw [List.append_nil] at hhead
  rw [hfield, h, hhead]
  exact Nat.mod_eq_of_lt hseq

end UnknownTunnel.Transport

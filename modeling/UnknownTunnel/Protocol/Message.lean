import UnknownTunnel.Foundation.Bytes

/-!
# Application messages

A message is encoded as a header of forty bytes, which holds the lengths of
the three fields that follow it.
-/

namespace UnknownTunnel.Protocol

open Foundation

/-- An IP packet of the interface. -/
def typeIPPacket : UInt8 := 1
/-- A connection is to be opened to a service. -/
def typeOpenTCP : UInt8 := 2
/-- Whether it was opened. -/
def typeTCPStatus : UInt8 := 3
/-- A chunk of a connection. -/
def typeTCPData : UInt8 := 4
/-- The end of a connection. -/
def typeTCPClose : UInt8 := 5
/-- A fragment of a datagram. -/
def typeUDPData : UInt8 := 6
/-- A question whether the peer is there. -/
def typePing : UInt8 := 7
/-- The answer to it. -/
def typePong : UInt8 := 8

/-- The bytes of `"UMSG"`. -/
def messageMagic : Bytes := [85, 77, 83, 71]
/-- The version of the format. -/
def messageVersion : UInt8 := 1
/-- The longest name, which has a field of two bytes. -/
def maxNameLen : Nat := 255
/-- The longest error. -/
def maxErrorLen : Nat := 1024
/-- The largest payload. -/
def maxPayloadLen : Nat := 2 ^ 20

/-- A message of the application. The fields that its type does not use are empty. -/
structure Message where
  id : UInt64
  type : UInt8
  connID : UInt64
  seq : UInt64
  name : Bytes
  error : Bytes
  payload : Bytes
  deriving DecidableEq

/-- Why a message is not encoded. -/
inductive EncodeError
  | type (type : UInt8)
  | nameTooLong
  | errorTooLong
  | payloadTooLarge
  deriving DecidableEq

/-- Why bytes are not decoded, in the order of the checks. -/
inductive DecodeError
  | unexpectedEOF
  | magic
  | version (version : UInt8)
  | fieldLimit
  | length (expected : Int) (got : Nat)
  deriving DecidableEq

/-- The bytes of a message. -/
def encode (m : Message) : Except EncodeError Bytes :=
  if m.type < typeIPPacket ∨ typePong < m.type then .error (.type m.type)
  else if maxNameLen < m.name.length then .error .nameTooLong
  else if maxErrorLen < m.error.length then .error .errorTooLong
  else if maxPayloadLen < m.payload.length then .error .payloadTooLarge
  else
    .ok (messageMagic ++ [messageVersion, m.type] ++ Bytes.bePut 2 0 ++
      Bytes.bePut 8 m.id.toNat ++ Bytes.bePut 8 m.connID.toNat ++ Bytes.bePut 8 m.seq.toNat ++
      Bytes.bePut 2 m.name.length ++ Bytes.bePut 2 m.error.length ++
      Bytes.bePut 4 m.payload.length ++ m.name ++ m.error ++ m.payload)

/-- The message that bytes stand for. The limits are checked before the total length. -/
def decode (data : Bytes) : Except DecodeError Message :=
  if data.length < 40 then .error .unexpectedEOF
  else if data.take 4 ≠ messageMagic then .error .magic
  else if data.getD 4 0 ≠ messageVersion then .error (.version (data.getD 4 0))
  else
    let nameLen := Bytes.beGet (Bytes.slice 32 34 data)
    let errLen := Bytes.beGet (Bytes.slice 34 36 data)
    let payloadLen := Bytes.beGet (Bytes.slice 36 40 data)
    let total := 40 + nameLen + errLen + payloadLen
    if maxNameLen < nameLen ∨ maxErrorLen < errLen ∨ maxPayloadLen < payloadLen then
      .error .fieldLimit
    else if total ≠ data.length then .error (.length total data.length)
    else
      .ok { id := UInt64.ofNat (Bytes.beGet (Bytes.slice 8 16 data))
            type := data.getD 5 0
            connID := UInt64.ofNat (Bytes.beGet (Bytes.slice 16 24 data))
            seq := UInt64.ofNat (Bytes.beGet (Bytes.slice 24 32 data))
            name := Bytes.slice 40 (40 + nameLen) data
            error := Bytes.slice (40 + nameLen) (40 + nameLen + errLen) data
            payload := Bytes.slice (40 + nameLen + errLen) total data }

end UnknownTunnel.Protocol

import UnknownTunnel.Transport.Crypto

/-!
# Handshake messages

The authenticated hello and welcome of both carriers, as `encodeHandshake`
writes them and `decodeHandshake` reads them, and the key confirmation
messages. The MAC covers the message body followed by the nonce the message
is bound to: nothing for a hello, the client's nonce for a welcome.

## Implementation notes

The body's length is determined by two of its bytes, so a MAC input splits
into body and bound nonce in one way only. Strings are byte strings, and the
clock is read in nanoseconds.
-/

namespace UnknownTunnel.Transport

open Foundation

def handshakeMagic : Bytes := ofString "UKH1"

def handshakeVersion : UInt8 := 1

def handshakeHello : UInt8 := 1

def handshakeWelcome : UInt8 := 2

/-- Five minutes in nanoseconds. -/
def maxClockSkew : Int := 5 * 60 * 1000000000

/-- A hello or a welcome, without its MAC. -/
structure Handshake where
  kind : UInt8
  sessionID : Nat
  timestamp : Int
  nonce : Bytes
  nodeID : Bytes
  peerID : Bytes
  deriving DecidableEq

/-- Why a message is not encoded, decoded or accepted. -/
inductive HandshakeError
  | nonceLength
  | nodeIdentifiers
  | tooShort
  | header
  | length
  | authentication
  | kind (kind : UInt8)
  | identity (nodeID peerID : Bytes)
  | clock
  deriving DecidableEq

/-- Everything of a message but its MAC. -/
def handshakeBody (h : Handshake) : Bytes :=
  handshakeMagic ++ [handshakeVersion, h.kind, 0, 0] ++ Bytes.bePut 8 h.sessionID ++
    Bytes.bePut 8 (h.timestamp % 2 ^ 64).toNat ++ h.nonce ++
    [UInt8.ofNat h.nodeID.length, UInt8.ofNat h.peerID.length] ++ h.nodeID ++ h.peerID

/-- The message followed by its MAC, which also covers the bound nonce. -/
def encodeHandshake (C : Crypto) (h : Handshake) (bindNonce secret : Bytes) :
    Except HandshakeError Bytes :=
  if h.nonce.length ≠ 32 then .error .nonceLength
  else if h.nodeID.length = 0 ∨ 64 < h.nodeID.length ∨ h.peerID.length = 0 ∨
      64 < h.peerID.length then .error .nodeIdentifiers
  else .ok (handshakeBody h ++ C.hmac secret (handshakeBody h ++ bindNonce))

/-- The length of the body that begins a message, from its two length bytes. -/
def handshakeBaseLen (data : Bytes) : Nat :=
  58 + (data.getD 56 0).toNat + (data.getD 57 0).toNat

/-- The fields of a message. -/
def handshakeFields (data : Bytes) : Handshake where
  kind := data.getD 5 0
  sessionID := Bytes.beGet (Bytes.slice 8 16 data)
  timestamp := Int.bmod (Bytes.beGet (Bytes.slice 16 24 data)) (2 ^ 64)
  nonce := Bytes.slice 24 56 data
  nodeID := Bytes.slice 58 (58 + (data.getD 56 0).toNat) data
  peerID := Bytes.slice (58 + (data.getD 56 0).toNat) (handshakeBaseLen data) data

/-- The checks in the order of the source; the MAC is the last one. -/
def decodeHandshake (C : Crypto) (data bindNonce secret : Bytes) :
    Except HandshakeError Handshake :=
  let nodeLen := (data.getD 56 0).toNat
  let peerLen := (data.getD 57 0).toNat
  let baseLen := handshakeBaseLen data
  if data.length < 58 + 32 then .error .tooShort
  else if data.take 4 ≠ handshakeMagic ∨ data.getD 4 0 ≠ handshakeVersion then .error .header
  else if nodeLen = 0 ∨ peerLen = 0 ∨ 64 < nodeLen ∨ 64 < peerLen ∨
      data.length ≠ baseLen + 32 then .error .length
  else if data.drop baseLen ≠ C.hmac secret (data.take baseLen ++ bindNonce) then
    .error .authentication
  else .ok (handshakeFields data)

/-- The message is of the wanted kind, between the wanted nodes and of the present. -/
def validateHandshake (now : Int) (h : Handshake) (wantKind : UInt8) (wantNode wantPeer : Bytes) :
    Except HandshakeError Unit :=
  let delta := now - h.timestamp * 1000000000
  if h.kind ≠ wantKind then .error (.kind h.kind)
  else if h.nodeID ≠ wantNode ∨ h.peerID ≠ wantPeer then .error (.identity h.nodeID h.peerID)
  else if delta < -maxClockSkew ∨ maxClockSkew < delta then .error .clock
  else .ok ()

/-- What the client sends first under the derived keys. -/
def clientConfirm : Bytes := ofString "Unknowntunnel client key confirmation v1"

/-- What the server answers. -/
def serverConfirm : Bytes := ofString "Unknowntunnel server key confirmation v1"

/-- The messages `encodeHandshake` accepts, with their fields in the ranges
of the source's types. -/
structure Handshake.Valid (h : Handshake) : Prop where
  sessionID : h.sessionID < 2 ^ 64
  timestamp : -2 ^ 63 ≤ h.timestamp ∧ h.timestamp < 2 ^ 63
  nonce : h.nonce.length = 32
  nodeID : 0 < h.nodeID.length ∧ h.nodeID.length ≤ 64
  peerID : 0 < h.peerID.length ∧ h.peerID.length ≤ 64

theorem encodeHandshake_eq_ok (C : Crypto) {h : Handshake} (hv : h.Valid)
    (bindNonce secret : Bytes) :
    encodeHandshake C h bindNonce secret =
      .ok (handshakeBody h ++ C.hmac secret (handshakeBody h ++ bindNonce)) := by
  obtain ⟨hn, hn'⟩ := hv.nodeID
  obtain ⟨hp, hp'⟩ := hv.peerID
  rw [encodeHandshake, if_neg (not_not.mpr hv.nonce), if_neg (by omega)]

private theorem length_handshakeMagic : handshakeMagic.length = 4 := by decide

theorem length_handshakeBody {h : Handshake} (hn : h.nonce.length = 32) :
    (handshakeBody h).length = 58 + h.nodeID.length + h.peerID.length := by
  simp [handshakeBody, length_handshakeMagic, hn]
  omega

/-- The part of a body before its two length bytes. -/
private def bodyFront (h : Handshake) : Bytes :=
  handshakeMagic ++ [handshakeVersion, h.kind, 0, 0] ++ Bytes.bePut 8 h.sessionID ++
    Bytes.bePut 8 (h.timestamp % 2 ^ 64).toNat ++ h.nonce

section Fields

variable {h : Handshake} (hv : h.Valid) (rest : Bytes)

include hv

private theorem length_bodyFront : (bodyFront h).length = 56 := by
  simp [bodyFront, length_handshakeMagic, hv.nonce]

theorem lengths_body :
    ((handshakeBody h ++ rest).getD 56 0).toNat = h.nodeID.length ∧
      ((handshakeBody h ++ rest).getD 57 0).toNat = h.peerID.length := by
  have hsplit : handshakeBody h ++ rest = bodyFront h ++ UInt8.ofNat h.nodeID.length ::
      UInt8.ofNat h.peerID.length :: (h.nodeID ++ h.peerID ++ rest) := by
    simp [handshakeBody, bodyFront]
  have hsplit' : handshakeBody h ++ rest = (bodyFront h ++ [UInt8.ofNat h.nodeID.length]) ++
      UInt8.ofNat h.peerID.length :: (h.nodeID ++ h.peerID ++ rest) := by
    simp [handshakeBody, bodyFront]
  have hnode := hv.nodeID.2
  have hpeer := hv.peerID.2
  constructor
  · rw [hsplit, Bytes.getD_append_cons _ _ (length_bodyFront hv), UInt8.toNat_ofNat']
    omega
  · rw [hsplit', Bytes.getD_append_cons _ _ (by simp [length_bodyFront hv]), UInt8.toNat_ofNat']
    omega

theorem baseLen_body :
    handshakeBaseLen (handshakeBody h ++ rest) = (handshakeBody h).length := by
  obtain ⟨hnode, hpeer⟩ := lengths_body hv rest
  rw [handshakeBaseLen, hnode, hpeer, length_handshakeBody hv.nonce]

theorem timestamp_body : Int.bmod ((h.timestamp % 2 ^ 64).toNat % 256 ^ 8 : Nat) (2 ^ 64) =
    h.timestamp := by
  obtain ⟨hlow, hhigh⟩ := hv.timestamp
  simp only [Int.bmod]
  omega

/-- Reading the fields of a written body gives the message back. -/
theorem handshakeFields_body : handshakeFields (handshakeBody h ++ rest) = h := by
  obtain ⟨hnode, hpeer⟩ := lengths_body hv rest
  have hbase := baseLen_body hv rest
  have hlen := length_handshakeBody hv.nonce
  have hid : h.sessionID % 256 ^ 8 = h.sessionID := Nat.mod_eq_of_lt hv.sessionID
  have hkind : (handshakeBody h ++ rest).getD 5 0 = h.kind := by
    have hmagic : handshakeMagic = [85, 75, 72, 49] := by decide
    simp [handshakeBody, hmagic]
  have hsession : Bytes.slice 8 16 (handshakeBody h ++ rest) = Bytes.bePut 8 h.sessionID := by
    have hsplit : handshakeBody h ++ rest =
        (handshakeMagic ++ [handshakeVersion, h.kind, 0, 0]) ++ (Bytes.bePut 8 h.sessionID ++
          (Bytes.bePut 8 (h.timestamp % 2 ^ 64).toNat ++ h.nonce ++
            [UInt8.ofNat h.nodeID.length, UInt8.ofNat h.peerID.length] ++ h.nodeID ++ h.peerID ++
            rest)) := by
      simp [handshakeBody]
    rw [hsplit, Bytes.slice_append _ (by simp [length_handshakeMagic])
      (by simp [length_handshakeMagic])]
  have htime : Bytes.slice 16 24 (handshakeBody h ++ rest) =
      Bytes.bePut 8 (h.timestamp % 2 ^ 64).toNat := by
    have hsplit : handshakeBody h ++ rest =
        (handshakeMagic ++ [handshakeVersion, h.kind, 0, 0] ++ Bytes.bePut 8 h.sessionID) ++
          (Bytes.bePut 8 (h.timestamp % 2 ^ 64).toNat ++ (h.nonce ++
            [UInt8.ofNat h.nodeID.length, UInt8.ofNat h.peerID.length] ++ h.nodeID ++ h.peerID ++
            rest)) := by
      simp [handshakeBody]
    rw [hsplit, Bytes.slice_append _ (by simp [length_handshakeMagic])
      (by simp [length_handshakeMagic])]
  have hnonce : Bytes.slice 24 56 (handshakeBody h ++ rest) = h.nonce := by
    have hsplit : handshakeBody h ++ rest =
        (handshakeMagic ++ [handshakeVersion, h.kind, 0, 0] ++ Bytes.bePut 8 h.sessionID ++
          Bytes.bePut 8 (h.timestamp % 2 ^ 64).toNat) ++ (h.nonce ++
            ([UInt8.ofNat h.nodeID.length, UInt8.ofNat h.peerID.length] ++ h.nodeID ++ h.peerID ++
            rest)) := by
      simp [handshakeBody]
    rw [hsplit, Bytes.slice_append _ (by simp [length_handshakeMagic])
      (by simp [length_handshakeMagic, hv.nonce])]
  have hnodeID : Bytes.slice 58 (58 + h.nodeID.length) (handshakeBody h ++ rest) = h.nodeID := by
    have hsplit : handshakeBody h ++ rest =
        (bodyFront h ++ [UInt8.ofNat h.nodeID.length, UInt8.ofNat h.peerID.length]) ++
          (h.nodeID ++ (h.peerID ++ rest)) := by
      simp [handshakeBody, bodyFront]
    rw [hsplit, Bytes.slice_append _ (by simp [length_bodyFront hv])
      (by simp [length_bodyFront hv])]
  have hpeerID : Bytes.slice (58 + h.nodeID.length) (handshakeBody h).length
      (handshakeBody h ++ rest) = h.peerID := by
    have hsplit : handshakeBody h ++ rest =
        (bodyFront h ++ [UInt8.ofNat h.nodeID.length, UInt8.ofNat h.peerID.length] ++ h.nodeID) ++
          (h.peerID ++ rest) := by
      simp [handshakeBody, bodyFront]
    have hfront : (bodyFront h ++ [UInt8.ofNat h.nodeID.length, UInt8.ofNat h.peerID.length] ++
        h.nodeID).length = 58 + h.nodeID.length := by
      simp only [List.length_append, length_bodyFront hv, List.length_cons, List.length_nil]
    rw [hsplit, Bytes.slice_append _ hfront (by rw [hfront, hlen])]
  rw [handshakeFields, hkind, hsession, htime, hnonce, hnode, hbase, hnodeID, hpeerID,
    Bytes.beGet_bePut, Bytes.beGet_bePut, timestamp_body hv, hid]

end Fields

/-- What a successful decoding says about the bytes. -/
theorem decodeHandshake_eq_ok {C : Crypto} {data bindNonce secret : Bytes} {h : Handshake}
    (hd : decodeHandshake C data bindNonce secret = .ok h) :
    h = handshakeFields data ∧ data.length = handshakeBaseLen data + 32 ∧
      data.drop (handshakeBaseLen data) =
        C.hmac secret (data.take (handshakeBaseLen data) ++ bindNonce) := by
  simp only [decodeHandshake] at hd
  split at hd
  · cases hd
  split at hd
  · cases hd
  split at hd
  · cases hd
  rename_i hlen
  split at hd
  · cases hd
  rename_i hmac
  refine ⟨(Except.ok.inj hd).symm, ?_, not_not.mp hmac⟩
  by_contra hne
  exact hlen (Or.inr (Or.inr (Or.inr (Or.inr hne))))

/-- The bytes a MAC is computed over when a message is written. -/
def macInput (h : Handshake) (bindNonce : Bytes) : Bytes := handshakeBody h ++ bindNonce

/-- A message written for a nonce is read back under that nonce. -/
theorem decodeHandshake_encode (C : Crypto) {h : Handshake} (hv : h.Valid)
    (bindNonce secret : Bytes) :
    decodeHandshake C (handshakeBody h ++ C.hmac secret (macInput h bindNonce)) bindNonce secret =
      .ok h := by
  generalize htail : C.hmac secret (macInput h bindNonce) = tail
  have hmac : tail.length = 32 := by
    rw [← htail]
    exact C.hmac_length ..
  have hlen := length_handshakeBody hv.nonce
  have hbase := baseLen_body hv tail
  obtain ⟨hnode, hpeer⟩ := lengths_body hv tail
  have hmagic : handshakeMagic = [85, 75, 72, 49] := by decide
  have hfront : (handshakeBody h ++ tail).take 4 = handshakeMagic ∧
      (handshakeBody h ++ tail).getD 4 0 = handshakeVersion := by
    simp [handshakeBody, hmagic]
  have htake : (handshakeBody h ++ tail).take (handshakeBody h).length = handshakeBody h :=
    List.take_left
  have hdrop : (handshakeBody h ++ tail).drop (handshakeBody h).length = tail :=
    List.drop_left
  have hsize : (handshakeBody h ++ tail).length = (handshakeBody h).length + 32 := by
    rw [List.length_append, hmac]
  have hn := hv.nodeID
  have hp := hv.peerID
  simp only [decodeHandshake, hbase, hnode, hpeer, hfront, hsize]
  rw [if_neg (by omega), if_neg (by simp), if_neg (by omega), htake, hdrop,
    if_neg (by rw [← htail, macInput]; simp), handshakeFields_body hv]

/-- A MAC input splits into body and bound nonce in one way. -/
theorem take_baseLen_of_macInput {data bindNonce bindNonce' : Bytes} {h : Handshake}
    (hv : h.Valid) (hlen : handshakeBaseLen data ≤ data.length)
    (heq : data.take (handshakeBaseLen data) ++ bindNonce = macInput h bindNonce') :
    data.take (handshakeBaseLen data) = handshakeBody h ∧ bindNonce = bindNonce' := by
  have hlong : 58 ≤ handshakeBaseLen data := by
    rw [handshakeBaseLen]
    omega
  have hbyte : ∀ i, i < 58 → (macInput h bindNonce').getD i 0 = data.getD i 0 := by
    intro i hi
    have hlt : i < (data.take (handshakeBaseLen data)).length := by
      rw [List.length_take]
      omega
    rw [← heq, Bytes.getD_append_left _ hlt, Bytes.getD_take _ (by omega)]
  have hbase : handshakeBaseLen data = (handshakeBody h).length := by
    have hbody := baseLen_body hv bindNonce'
    rw [handshakeBaseLen, ← macInput, hbyte 56 (by decide), hbyte 57 (by decide),
      ← handshakeBaseLen] at hbody
    exact hbody
  apply List.append_inj heq
  rw [List.length_take]
  omega

/-- A message that decodes from a MAC input the sender wrote is the sender's
message, bound to the sender's nonce. -/
theorem decodeHandshake_authentic {C : Crypto} {data bindNonce bindNonce' secret : Bytes}
    {h h' : Handshake} (hv : h'.Valid)
    (hd : decodeHandshake C data bindNonce secret = .ok h)
    (heq : data.take (handshakeBaseLen data) ++ bindNonce = macInput h' bindNonce') :
    h = h' ∧ bindNonce = bindNonce' := by
  obtain ⟨rfl, hlen, -⟩ := decodeHandshake_eq_ok hd
  obtain ⟨hbody, hbind⟩ := take_baseLen_of_macInput hv (by omega) heq
  refine ⟨?_, hbind⟩
  rw [← List.take_append_drop (handshakeBaseLen data) data, hbody]
  exact handshakeFields_body hv _

/-- The tag at the end of a message is no forgery: if it is the HMAC of the bytes
before it and the bound nonce, these bytes have been MACed under the secret. -/
def TagUnforged (C : Crypto) (secret : Bytes) (maced : Bytes → Prop) (data bindNonce : Bytes) :
    Prop :=
  data.drop (handshakeBaseLen data) =
      C.hmac secret (data.take (handshakeBaseLen data) ++ bindNonce) →
    maced (data.take (handshakeBaseLen data) ++ bindNonce)

/-- A message that decodes had its bytes MACed, because `decodeHandshake` compares
the tag. -/
theorem TagUnforged.maced_of_decodes {C : Crypto} {secret data bindNonce : Bytes}
    {maced : Bytes → Prop} {h : Handshake} (hf : TagUnforged C secret maced data bindNonce)
    (hd : decodeHandshake C data bindNonce secret = .ok h) :
    maced (data.take (handshakeBaseLen data) ++ bindNonce) :=
  hf (decodeHandshake_eq_ok hd).2.2

end UnknownTunnel.Transport

import UnknownTunnel.Foundation.Access
import UnknownTunnel.Transport.Handshake

/-!
# The handshake codec

A handshake message is read back as it was written, and the bytes that are
authenticated determine the message and the nonce it is bound to. Reading
stays inside the message. Since the tag of an accepted message is compared, with
an unforgeable MAC its fields were authenticated together, for the nonce in
question.

## Implementation notes

`decodeHandshake` with range checks is a second definition, `none` if an
access is out of range.
-/

namespace UnknownTunnel.Transport

open Foundation

/-- The end of `decodeHandshake`. -/
def readFields (data : Bytes) (nodeLen baseLen : Nat) : Option Handshake := do
  let kind ← data[5]?
  let sessionID ← checkedSlice data 8 16
  let timestamp ← checkedSlice data 16 24
  let nonce ← checkedSlice data 24 56
  let nodeID ← checkedSlice data 58 (58 + nodeLen)
  let peerID ← checkedSlice data (58 + nodeLen) baseLen
  pure
    { kind, sessionID := Bytes.beGet sessionID
      timestamp := Int.bmod (Bytes.beGet timestamp) (2 ^ 64), nonce, nodeID, peerID }

/-- `decodeHandshake` from the lengths of the identifiers on. -/
def authenticate (C : Crypto) (data bindNonce secret : Bytes) (nodeLen peerLen : Nat) :
    Option (Except HandshakeError Handshake) :=
  let baseLen := 58 + nodeLen + peerLen
  if nodeLen = 0 ∨ peerLen = 0 ∨ 64 < nodeLen ∨ 64 < peerLen ∨ data.length ≠ baseLen + 32 then
    some (.error .length)
  else do
    let body ← checkedSlice data 0 baseLen
    let mac ← checkedSlice data baseLen data.length
    if mac ≠ C.hmac secret (body ++ bindNonce) then pure (.error .authentication)
    else
      let h ← readFields data nodeLen baseLen
      pure (.ok h)

/-- `decodeHandshake` with the accesses it makes. -/
def decodeHandshakeChecked (C : Crypto) (data bindNonce secret : Bytes) :
    Option (Except HandshakeError Handshake) :=
  if data.length < 58 + 32 then some (.error .tooShort)
  else do
    let magic ← checkedSlice data 0 4
    if magic ≠ handshakeMagic then pure (.error .header)
    else
      let version ← data[4]?
      if version ≠ handshakeVersion then pure (.error .header)
      else
        let nodeLen ← data[56]?
        let peerLen ← data[57]?
        authenticate C data bindNonce secret nodeLen.toNat peerLen.toNat

section InRange

variable {data : Bytes}

theorem readFields_eq (htotal : data.length = handshakeBaseLen data + 32) :
    readFields data (data.getD 56 0).toNat (handshakeBaseLen data) =
      some (handshakeFields data) := by
  have hbase : handshakeBaseLen data = 58 + (data.getD 56 0).toNat + (data.getD 57 0).toNat := rfl
  have hkind : data[5]? = some (data.getD 5 0) := getElem?_eq_some_getD (by omega)
  have hsession : checkedSlice data 8 16 = some (Bytes.slice 8 16 data) :=
    checkedSlice_of_le 8 16 (by decide) (by omega)
  have htime : checkedSlice data 16 24 = some (Bytes.slice 16 24 data) :=
    checkedSlice_of_le 16 24 (by decide) (by omega)
  have hnonce : checkedSlice data 24 56 = some (Bytes.slice 24 56 data) :=
    checkedSlice_of_le 24 56 (by decide) (by omega)
  have hnode : checkedSlice data 58 (58 + ((data.getD 56 0).toNat : Int)) =
      some (Bytes.slice 58 (58 + (data.getD 56 0).toNat) data) :=
    checkedSlice_of_le 58 (58 + (data.getD 56 0).toNat) (Nat.le_add_right _ _) (by omega)
  have hpeer : checkedSlice data (58 + ((data.getD 56 0).toNat : Int)) (handshakeBaseLen data) =
      some (Bytes.slice (58 + (data.getD 56 0).toNat) (handshakeBaseLen data) data) :=
    checkedSlice_of_le (58 + (data.getD 56 0).toNat) _ (by omega) (by omega)
  rw [readFields, hkind, hsession, htime, hnonce, hnode, hpeer]
  rfl

theorem authenticate_eq (C : Crypto) (bindNonce secret : Bytes) (hlong : ¬ data.length < 58 + 32)
    (hheader : ¬ (data.take 4 ≠ handshakeMagic ∨ data.getD 4 0 ≠ handshakeVersion)) :
    authenticate C data bindNonce secret (data.getD 56 0).toNat (data.getD 57 0).toNat =
      some (decodeHandshake C data bindNonce secret) := by
  have hbase : 58 + (data.getD 56 0).toNat + (data.getD 57 0).toNat = handshakeBaseLen data := rfl
  unfold authenticate decodeHandshake
  simp only [hbase, if_neg hlong, if_neg hheader]
  split
  · rfl
  rename_i hlength
  have htotal : data.length = handshakeBaseLen data + 32 := by
    by_contra hne
    exact hlength (Or.inr (Or.inr (Or.inr (Or.inr hne))))
  have hbody : checkedSlice data 0 (handshakeBaseLen data) =
      some (data.take (handshakeBaseLen data)) :=
    checkedSlice_of_le 0 _ (Nat.zero_le _) (by omega)
  have hmac : checkedSlice data (handshakeBaseLen data) data.length =
      some (data.drop (handshakeBaseLen data)) := by
    rw [checkedSlice_of_le _ _ (by omega) le_rfl, Bytes.slice, List.take_length]
  rw [hbody, hmac, readFields_eq htotal]
  simp only [Option.bind_eq_bind, Option.bind_some]
  split <;> rfl

end InRange

/-- Every access is in range. -/
theorem decodeHandshakeChecked_eq (C : Crypto) (data bindNonce secret : Bytes) :
    decodeHandshakeChecked C data bindNonce secret =
      some (decodeHandshake C data bindNonce secret) := by
  by_cases hlong : data.length < 58 + 32
  · rw [decodeHandshakeChecked, if_pos hlong, decodeHandshake, if_pos hlong]
  have hindex (i : Nat) (hi : i < 90) : data[i]? = some (data.getD i 0) :=
    getElem?_eq_some_getD (by omega)
  have hmagic : checkedSlice data 0 4 = some (data.take 4) :=
    checkedSlice_of_le 0 4 (by decide) (by omega)
  rw [decodeHandshakeChecked, if_neg hlong, hmagic, hindex 4 (by decide), hindex 56 (by decide),
    hindex 57 (by decide)]
  simp only [Option.bind_eq_bind, Option.bind_some]
  by_cases hheader : data.take 4 ≠ handshakeMagic ∨ data.getD 4 0 ≠ handshakeVersion
  · have hrefused : decodeHandshake C data bindNonce secret = .error .header := by
      rw [decodeHandshake, if_neg hlong, if_pos hheader]
    rw [hrefused]
    split
    · rfl
    · rename_i hm
      rw [if_pos (hheader.resolve_left hm)]
      rfl
  · obtain ⟨hm, hv⟩ := not_or.mp hheader
    rw [if_neg hm, if_neg hv, authenticate_eq C bindNonce secret hlong hheader]

/-- The fields are values of the source's types. -/
structure Handshake.InRange (h : Handshake) : Prop where
  sessionID : h.sessionID < 2 ^ 64
  timestamp : -2 ^ 63 ≤ h.timestamp ∧ h.timestamp < 2 ^ 63

theorem valid_of_encodeHandshake {C : Crypto} {h : Handshake} {bindNonce secret data : Bytes}
    (hr : h.InRange) (he : encodeHandshake C h bindNonce secret = .ok data) : h.Valid := by
  unfold encodeHandshake at he
  split at he
  · cases he
  rename_i hnonce
  split at he
  · cases he
  rename_i hids
  exact ⟨hr.sessionID, hr.timestamp, not_not.mp hnonce, by omega, by omega⟩

theorem encoded_eq {C : Crypto} {h : Handshake} {bindNonce secret data : Bytes} (hv : h.Valid)
    (he : encodeHandshake C h bindNonce secret = .ok data) :
    data = handshakeBody h ++ C.hmac secret (macInput h bindNonce) := by
  rw [encodeHandshake_eq_ok C hv] at he
  exact (Except.ok.inj he).symm

/-- The authenticated bytes determine the message and the bound nonce. -/
theorem macInput_inj {h h' : Handshake} {bindNonce bindNonce' : Bytes} (hv : h.Valid)
    (hv' : h'.Valid) (heq : macInput h bindNonce = macInput h' bindNonce') :
    h = h' ∧ bindNonce = bindNonce' := by
  have hbase : handshakeBaseLen (handshakeBody h) = (handshakeBody h).length := by
    have hbody := baseLen_body hv []
    rwa [List.append_nil] at hbody
  have hwhole : (handshakeBody h).take (handshakeBaseLen (handshakeBody h)) = handshakeBody h := by
    rw [hbase, List.take_length]
  obtain ⟨hbody, hbind⟩ := take_baseLen_of_macInput hv' hbase.le (by rw [hwhole]; exact heq)
  rw [hwhole] at hbody
  have hfields := handshakeFields_body hv []
  have hfields' := handshakeFields_body hv' []
  rw [List.append_nil] at hfields hfields'
  exact ⟨by rw [← hfields, hbody, hfields'], hbind⟩

/-- The identifiers of an accepted message have the lengths that its bytes
give. -/
theorem lengths_of_decodeHandshake {C : Crypto} {data bindNonce secret : Bytes} {h : Handshake}
    (hd : decodeHandshake C data bindNonce secret = .ok h) :
    (1 ≤ h.nodeID.length ∧ h.nodeID.length ≤ 64) ∧
      (1 ≤ h.peerID.length ∧ h.peerID.length ≤ 64) := by
  obtain ⟨rfl, htotal, -⟩ := decodeHandshake_eq_ok hd
  have hlengths : ¬ ((data.getD 56 0).toNat = 0 ∨ (data.getD 57 0).toNat = 0 ∨
      64 < (data.getD 56 0).toNat ∨ 64 < (data.getD 57 0).toNat ∨
      data.length ≠ handshakeBaseLen data + 32) := by
    intro hbad
    unfold decodeHandshake at hd
    simp only [if_pos hbad] at hd
    split at hd
    · cases hd
    split at hd
    · cases hd
    · cases hd
  have hbase : handshakeBaseLen data = 58 + (data.getD 56 0).toNat + (data.getD 57 0).toNat := rfl
  have hnode : (handshakeFields data).nodeID.length = (data.getD 56 0).toNat := by
    rw [handshakeFields, Bytes.length_slice (by omega)]
    omega
  have hpeer : (handshakeFields data).peerID.length = (data.getD 57 0).toNat := by
    rw [handshakeFields, Bytes.length_slice (by omega)]
    omega
  rw [hnode, hpeer]
  omega

/-- A written message that is read under whatever nonce keeps its fields. -/
theorem eq_of_decodeHandshake_encoded {C : Crypto} {h g : Handshake}
    {bindNonce bindNonce' secret secret' data : Bytes} (hv : h.Valid)
    (he : encodeHandshake C h bindNonce secret = .ok data)
    (hd : decodeHandshake C data bindNonce' secret' = .ok g) : g = h := by
  obtain ⟨rfl, -, -⟩ := decodeHandshake_eq_ok hd
  rw [encoded_eq hv he]
  exact handshakeFields_body hv _

theorem kind_of_validateHandshake {now : Int} {h : Handshake} {wantKind : UInt8}
    {wantNode wantPeer : Bytes}
    (hok : validateHandshake now h wantKind wantNode wantPeer = .ok ()) : h.kind = wantKind := by
  by_contra hne
  rw [validateHandshake, if_pos hne] at hok
  cases hok

/-- The messages that the holder of a secret has authenticated, with the
nonces they are bound to. -/
structure Authenticated where
  records : Handshake → Bytes → Prop
  valid : ∀ h bindNonce, records h bindNonce → h.Valid

/-- The holder of the secret has computed the MAC of these bytes. -/
def Authenticated.Maced (written : Authenticated) (input : Bytes) : Prop :=
  ∃ h bindNonce, written.records h bindNonce ∧ input = macInput h bindNonce

/-- The codec is faithful, what it authenticates is unambiguous, and no kind
of message passes for the other. -/
theorem handshake_codec_faithful (C : Crypto) :
    (∀ h bindNonce secret data, h.InRange → encodeHandshake C h bindNonce secret = .ok data →
      decodeHandshake C data bindNonce secret = .ok h) ∧
    (∀ h h' bindNonce bindNonce' secret secret' data data', h.InRange → h'.InRange →
      encodeHandshake C h bindNonce secret = .ok data →
      encodeHandshake C h' bindNonce' secret' = .ok data' →
      macInput h bindNonce = macInput h' bindNonce' → h = h' ∧ bindNonce = bindNonce') ∧
    (∀ data bindNonce secret, decodeHandshakeChecked C data bindNonce secret =
      some (decodeHandshake C data bindNonce secret)) ∧
    (∀ data bindNonce secret h, decodeHandshake C data bindNonce secret = .ok h →
      (1 ≤ h.nodeID.length ∧ h.nodeID.length ≤ 64) ∧
        (1 ≤ h.peerID.length ∧ h.peerID.length ≤ 64) ∧
        ∀ written : Authenticated, TagUnforged C secret written.Maced data bindNonce →
          written.records h bindNonce) ∧
    (∀ h g bindNonce bindNonce' secret secret' data now wantNode wantPeer, h.InRange →
      encodeHandshake C h bindNonce secret = .ok data →
      decodeHandshake C data bindNonce' secret' = .ok g →
      (h.kind = handshakeHello →
        validateHandshake now g handshakeWelcome wantNode wantPeer ≠ .ok ()) ∧
      (h.kind = handshakeWelcome →
        validateHandshake now g handshakeHello wantNode wantPeer ≠ .ok ())) := by
  refine ⟨?_, ?_, decodeHandshakeChecked_eq C, ?_, ?_⟩
  · intro h bindNonce secret data hr he
    have hv := valid_of_encodeHandshake hr he
    rw [encoded_eq hv he]
    exact decodeHandshake_encode C hv bindNonce secret
  · intro h h' bindNonce bindNonce' secret secret' data data' hr hr' he he' heq
    exact macInput_inj (valid_of_encodeHandshake hr he) (valid_of_encodeHandshake hr' he') heq
  · intro data bindNonce secret h hd
    obtain ⟨hnode, hpeer⟩ := lengths_of_decodeHandshake hd
    refine ⟨hnode, hpeer, ?_⟩
    intro written hunforged
    obtain ⟨h', bindNonce', hwritten, heq⟩ := hunforged.maced_of_decodes hd
    obtain ⟨rfl, rfl⟩ := decodeHandshake_authentic (written.valid _ _ hwritten) hd heq
    exact hwritten
  · intro h g bindNonce bindNonce' secret secret' data now wantNode wantPeer hr he hd
    obtain rfl := eq_of_decodeHandshake_encoded (valid_of_encodeHandshake hr he) he hd
    constructor
    · intro hkind hok
      exact absurd (hkind.symm.trans (kind_of_validateHandshake hok)) (by decide)
    · intro hkind hok
      exact absurd (hkind.symm.trans (kind_of_validateHandshake hok)) (by decide)

end UnknownTunnel.Transport

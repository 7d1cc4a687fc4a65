import UnknownTunnel.Foundation.Access
import UnknownTunnel.Protocol.Message

/-!
# The message codec

`Encode` and `Decode` are inverse to each other on messages with a known type
and on byte strings with blank reserved bytes. `Decode` bounds the three
lengths of a header from above only. Where integers have 32 bits, a length of
the payload can become negative and pass.

## Implementation notes

The conditions of either function are a structure, and its result is one
expression. `Decode` with range checks and signed lengths is a second
definition; with integers of 64 bits it is the first one.
-/

namespace UnknownTunnel.Protocol

open Foundation

/-! ## Encoding -/

/-- The messages that `Encode` accepts. -/
structure Message.Encodable (m : Message) : Prop where
  low : typeIPPacket ≤ m.type
  high : m.type ≤ typePong
  name : m.name.length ≤ maxNameLen
  error : m.error.length ≤ maxErrorLen
  payload : m.payload.length ≤ maxPayloadLen

/-- The forty bytes before the fields. -/
def messageHeader (m : Message) : Bytes :=
  messageMagic ++ [messageVersion, m.type] ++ Bytes.bePut 2 0 ++
    Bytes.bePut 8 m.id.toNat ++ Bytes.bePut 8 m.connID.toNat ++ Bytes.bePut 8 m.seq.toNat ++
    Bytes.bePut 2 m.name.length ++ Bytes.bePut 2 m.error.length ++
    Bytes.bePut 4 m.payload.length

@[simp] theorem length_messageHeader (m : Message) : (messageHeader m).length = 40 := by
  simp [messageHeader, messageMagic]

theorem encode_eq_ok_iff {m : Message} {data : Bytes} :
    encode m = .ok data ↔
      m.Encodable ∧ data = messageHeader m ++ (m.name ++ (m.error ++ m.payload)) := by
  constructor
  · intro h
    unfold encode at h
    split at h
    · cases h
    rename_i htype
    split at h
    · cases h
    rename_i hname
    split at h
    · cases h
    rename_i herror
    split at h
    · cases h
    rename_i hpayload
    obtain ⟨hlow, hhigh⟩ := not_or.mp htype
    refine ⟨⟨UInt8.not_lt.mp hlow, UInt8.not_lt.mp hhigh, not_lt.mp hname, not_lt.mp herror,
      not_lt.mp hpayload⟩, ?_⟩
    rw [← Except.ok.inj h]
    simp [messageHeader]
  · rintro ⟨hm, rfl⟩
    have htype : ¬ (m.type < typeIPPacket ∨ typePong < m.type) :=
      not_or.mpr ⟨UInt8.not_lt.mpr hm.low, UInt8.not_lt.mpr hm.high⟩
    rw [encode, if_neg htype, if_neg hm.name.not_gt, if_neg hm.error.not_gt,
      if_neg hm.payload.not_gt]
    simp [messageHeader]

/-! ## Decoding -/

section Fields

variable (data : Bytes)

/-- The length of the name that a header gives. -/
def nameField : Nat := Bytes.beGet (Bytes.slice 32 34 data)
/-- The length of the error. -/
def errorField : Nat := Bytes.beGet (Bytes.slice 34 36 data)
/-- The length of the payload. -/
def payloadField : Nat := Bytes.beGet (Bytes.slice 36 40 data)

/-- The message that an accepted byte string stands for. -/
def messageFields : Message where
  id := UInt64.ofNat (Bytes.beGet (Bytes.slice 8 16 data))
  type := data.getD 5 0
  connID := UInt64.ofNat (Bytes.beGet (Bytes.slice 16 24 data))
  seq := UInt64.ofNat (Bytes.beGet (Bytes.slice 24 32 data))
  name := Bytes.slice 40 (40 + nameField data) data
  error := Bytes.slice (40 + nameField data) (40 + nameField data + errorField data) data
  payload := Bytes.slice (40 + nameField data + errorField data)
    (40 + nameField data + errorField data + payloadField data) data

/-- The checks that come before the lengths. -/
structure HeaderOk : Prop where
  long : 40 ≤ data.length
  magic : data.take 4 = messageMagic
  version : data.getD 4 0 = messageVersion

/-- The byte strings that `Decode` accepts. -/
structure Decodes : Prop extends HeaderOk data where
  name : nameField data ≤ maxNameLen
  error : errorField data ≤ maxErrorLen
  payload : payloadField data ≤ maxPayloadLen
  total : 40 + nameField data + errorField data + payloadField data = data.length

end Fields

theorem decode_eq_ok_iff {data : Bytes} {m : Message} :
    decode data = .ok m ↔ Decodes data ∧ m = messageFields data := by
  constructor
  · intro h
    unfold decode at h
    split at h
    · cases h
    rename_i hlong
    split at h
    · cases h
    rename_i hmagic
    split at h
    · cases h
    rename_i hversion
    simp only at h
    split at h
    · cases h
    rename_i hlimits
    split at h
    · cases h
    rename_i htotal
    obtain ⟨hname, hrest⟩ := not_or.mp hlimits
    obtain ⟨herror, hpayload⟩ := not_or.mp hrest
    exact ⟨⟨⟨not_lt.mp hlong, not_not.mp hmagic, not_not.mp hversion⟩, not_lt.mp hname,
      not_lt.mp herror, not_lt.mp hpayload, not_not.mp htotal⟩, (Except.ok.inj h).symm⟩
  · rintro ⟨hd, rfl⟩
    have hlimits : ¬ (maxNameLen < nameField data ∨ maxErrorLen < errorField data ∨
        maxPayloadLen < payloadField data) :=
      not_or.mpr ⟨hd.name.not_gt, not_or.mpr ⟨hd.error.not_gt, hd.payload.not_gt⟩⟩
    rw [decode, if_neg hd.long.not_gt, if_neg (not_not.mpr hd.magic),
      if_neg (not_not.mpr hd.version)]
    exact (if_neg hlimits).trans (if_neg (not_not.mpr hd.total))

/-! ## Round trips -/

section Header

variable (m : Message) (rest : Bytes)

theorem headerOk_messageHeader : HeaderOk (messageHeader m ++ rest) := by
  constructor
  · simp
  · simp [messageHeader, messageMagic]
  · simp [messageHeader, messageMagic]

theorem type_messageHeader : (messageHeader m ++ rest).getD 5 0 = m.type := by
  simp [messageHeader, messageMagic]

theorem numbers_messageHeader :
    Bytes.slice 8 16 (messageHeader m ++ rest) = Bytes.bePut 8 m.id.toNat ∧
      Bytes.slice 16 24 (messageHeader m ++ rest) = Bytes.bePut 8 m.connID.toNat ∧
      Bytes.slice 24 32 (messageHeader m ++ rest) = Bytes.bePut 8 m.seq.toNat := by
  simp [Bytes.slice, Bytes.bePut, messageHeader, messageMagic]

theorem lengths_messageHeader (hm : m.Encodable) :
    nameField (messageHeader m ++ rest) = m.name.length ∧
      errorField (messageHeader m ++ rest) = m.error.length ∧
      payloadField (messageHeader m ++ rest) = m.payload.length := by
  have hslices : Bytes.slice 32 34 (messageHeader m ++ rest) = Bytes.bePut 2 m.name.length ∧
      Bytes.slice 34 36 (messageHeader m ++ rest) = Bytes.bePut 2 m.error.length ∧
      Bytes.slice 36 40 (messageHeader m ++ rest) = Bytes.bePut 4 m.payload.length := by
    simp [Bytes.slice, Bytes.bePut, messageHeader, messageMagic]
  obtain ⟨hname, herror, hpayload⟩ := hslices
  have hn := hm.name
  have he := hm.error
  have hp := hm.payload
  simp only [maxNameLen, maxErrorLen, maxPayloadLen] at hn he hp
  rw [nameField, errorField, payloadField, hname, herror, hpayload]
  exact ⟨Bytes.beGet_bePut_of_lt (by omega), Bytes.beGet_bePut_of_lt (by omega),
    Bytes.beGet_bePut_of_lt (by omega)⟩

end Header

theorem uint64_of_field (n : UInt64) : UInt64.ofNat (Bytes.beGet (Bytes.bePut 8 n.toNat)) = n := by
  rw [Bytes.beGet_bePut_of_lt n.toNat_lt, UInt64.ofNat_toNat]

theorem messageFields_encoded {m : Message} (hm : m.Encodable) :
    messageFields (messageHeader m ++ (m.name ++ (m.error ++ m.payload))) = m := by
  obtain ⟨hid, hconn, hseq⟩ := numbers_messageHeader m (m.name ++ (m.error ++ m.payload))
  obtain ⟨hn, he, hp⟩ := lengths_messageHeader m (m.name ++ (m.error ++ m.payload)) hm
  have hname : Bytes.slice 40 (40 + m.name.length)
      (messageHeader m ++ (m.name ++ (m.error ++ m.payload))) = m.name :=
    Bytes.slice_append _ (by simp) (by simp)
  have herror : Bytes.slice (40 + m.name.length) (40 + m.name.length + m.error.length)
      ((messageHeader m ++ m.name) ++ (m.error ++ m.payload)) = m.error :=
    Bytes.slice_append _ (by simp) (by simp)
  have hpayload : Bytes.slice (40 + m.name.length + m.error.length)
      (40 + m.name.length + m.error.length + m.payload.length)
      ((messageHeader m ++ m.name ++ m.error) ++ (m.payload ++ [])) = m.payload :=
    Bytes.slice_append _ (by simp [Nat.add_assoc]) (by simp [Nat.add_assoc])
  simp only [List.append_assoc, List.append_nil] at herror hpayload
  rw [messageFields, hid, hconn, hseq, hn, he, hp, hname, herror, hpayload, type_messageHeader,
    uint64_of_field, uint64_of_field, uint64_of_field]

theorem decode_encoded {m : Message} {data : Bytes} (h : encode m = .ok data) :
    decode data = .ok m := by
  obtain ⟨hm, rfl⟩ := encode_eq_ok_iff.mp h
  obtain ⟨hn, he, hp⟩ := lengths_messageHeader m (m.name ++ (m.error ++ m.payload)) hm
  rw [decode_eq_ok_iff]
  refine ⟨⟨headerOk_messageHeader m _, ?_, ?_, ?_, ?_⟩, (messageFields_encoded hm).symm⟩
  · exact hn ▸ hm.name
  · exact he ▸ hm.error
  · exact hp ▸ hm.payload
  · rw [hn, he, hp]
    simp only [List.length_append, length_messageHeader]
    omega

/-- The byte strings that `Encode` can produce, as far as their header goes. -/
structure Canonical (data : Bytes) : Prop where
  low : typeIPPacket ≤ data.getD 5 0
  high : data.getD 5 0 ≤ typePong
  reserved : data.getD 6 0 = 0 ∧ data.getD 7 0 = 0

section Canonical

variable {data : Bytes} (hd : Decodes data)

include hd

theorem lengths_messageFields :
    (messageFields data).name.length = nameField data ∧
      (messageFields data).error.length = errorField data ∧
      (messageFields data).payload.length = payloadField data := by
  have htotal := hd.total
  refine ⟨?_, ?_, ?_⟩
  · rw [messageFields, Bytes.length_slice (by omega)]
    omega
  · rw [messageFields, Bytes.length_slice (by omega)]
    omega
  · rw [messageFields, Bytes.length_slice (by omega)]
    omega

theorem field_of_uint64 {i : Nat} (h : i + 8 ≤ 40) :
    Bytes.bePut 8 (UInt64.ofNat (Bytes.beGet (Bytes.slice i (i + 8) data))).toNat =
      Bytes.slice i (i + 8) data := by
  have hlong := hd.long
  have hlen : (Bytes.slice i (i + 8) data).length = 8 := by
    rw [Bytes.length_slice (by omega), Nat.add_sub_cancel_left]
  have hlt := Bytes.beGet_lt (Bytes.slice i (i + 8) data)
  rw [hlen] at hlt
  rw [UInt64.toNat_ofNat_of_lt' hlt, Bytes.bePut_beGet hlen]

theorem messageHeader_messageFields (hc : Canonical data) :
    messageHeader (messageFields data) = Bytes.slice 0 40 data := by
  have hlong := hd.long
  obtain ⟨hn, he, hp⟩ := lengths_messageFields hd
  have hmagic : messageMagic = Bytes.slice 0 4 data := by
    rw [Bytes.slice, List.drop_zero, hd.magic]
  have hversion : [messageVersion] = Bytes.slice 4 5 data := by
    rw [Bytes.slice_succ (by omega), hd.version]
  have htype : [(messageFields data).type] = Bytes.slice 5 6 data := by
    rw [Bytes.slice_succ (by omega), messageFields]
  have hreserved : Bytes.bePut 2 0 = Bytes.slice 6 8 data := by
    rw [← Bytes.slice_append_slice data (show 6 ≤ 7 by decide) (show 7 ≤ 8 by decide),
      Bytes.slice_succ (by omega), Bytes.slice_succ (by omega), hc.reserved.1, hc.reserved.2]
    rfl
  have hname : Bytes.bePut 2 (nameField data) = Bytes.slice 32 34 data :=
    Bytes.bePut_beGet (by rw [Bytes.length_slice (by omega)])
  have herror : Bytes.bePut 2 (errorField data) = Bytes.slice 34 36 data :=
    Bytes.bePut_beGet (by rw [Bytes.length_slice (by omega)])
  have hpayload : Bytes.bePut 4 (payloadField data) = Bytes.slice 36 40 data :=
    Bytes.bePut_beGet (by rw [Bytes.length_slice (by omega)])
  have hjoin (i j k : Nat) (hij : i ≤ j) (hjk : j ≤ k) := Bytes.slice_append_slice data hij hjk
  calc messageHeader (messageFields data)
      = messageMagic ++ ([messageVersion] ++ [(messageFields data).type]) ++ Bytes.bePut 2 0 ++
          Bytes.bePut 8 (messageFields data).id.toNat ++
          Bytes.bePut 8 (messageFields data).connID.toNat ++
          Bytes.bePut 8 (messageFields data).seq.toNat ++ Bytes.bePut 2 (nameField data) ++
          Bytes.bePut 2 (errorField data) ++ Bytes.bePut 4 (payloadField data) := by
        rw [messageHeader, hn, he, hp]
        rfl
    _ = Bytes.slice 0 4 data ++ (Bytes.slice 4 5 data ++ Bytes.slice 5 6 data) ++
          Bytes.slice 6 8 data ++ Bytes.slice 8 16 data ++ Bytes.slice 16 24 data ++
          Bytes.slice 24 32 data ++ Bytes.slice 32 34 data ++ Bytes.slice 34 36 data ++
          Bytes.slice 36 40 data := by
        rw [hmagic, hversion, htype, hreserved, hname, herror, hpayload]
        simp only [messageFields]
        rw [field_of_uint64 hd (show 8 + 8 ≤ 40 by decide),
          field_of_uint64 hd (show 16 + 8 ≤ 40 by decide),
          field_of_uint64 hd (show 24 + 8 ≤ 40 by decide)]
    _ = Bytes.slice 0 40 data := by
        rw [hjoin 4 5 6 (by decide) (by decide), hjoin 0 4 6 (by decide) (by decide),
          hjoin 0 6 8 (by decide) (by decide), hjoin 0 8 16 (by decide) (by decide),
          hjoin 0 16 24 (by decide) (by decide), hjoin 0 24 32 (by decide) (by decide),
          hjoin 0 32 34 (by decide) (by decide), hjoin 0 34 36 (by decide) (by decide),
          hjoin 0 36 40 (by decide) (by decide)]

theorem encode_messageFields (hc : Canonical data) : encode (messageFields data) = .ok data := by
  obtain ⟨hn, he, hp⟩ := lengths_messageFields hd
  rw [encode_eq_ok_iff]
  refine ⟨⟨hc.low, hc.high, hn ▸ hd.name, he ▸ hd.error, hp ▸ hd.payload⟩, ?_⟩
  rw [messageHeader_messageFields hd hc, messageFields]
  simp only
  rw [Bytes.slice_append_slice data (by omega) (by omega),
    Bytes.slice_append_slice data (by omega) (by omega),
    Bytes.slice_append_slice data (by omega) (by omega), hd.total, Bytes.slice, List.take_length,
    List.drop_zero]

end Canonical

/-- The header of an accepted string determines its length. -/
theorem length_of_header {data data' : Bytes} (hd : Decodes data) (hd' : Decodes data')
    (h : data.take 40 = data'.take 40) : data.length = data'.length := by
  have hslice (i j : Nat) (hj : j ≤ 40) : Bytes.slice i j data = Bytes.slice i j data' := by
    rw [← Bytes.slice_take data hj, h, Bytes.slice_take data' hj]
  have hname : nameField data = nameField data' := by
    rw [nameField, hslice 32 34 (by decide), nameField]
  have herror : errorField data = errorField data' := by
    rw [errorField, hslice 34 36 (by decide), errorField]
  have hpayload : payloadField data = payloadField data' := by
    rw [payloadField, hslice 36 40 (by decide), payloadField]
  rw [← hd.total, ← hd'.total, hname, herror, hpayload]

/-- Encoding and decoding are inverse to each other, and no other length of a
valid encoding is accepted. -/
theorem message_codec_round_trip :
    (∀ m data, encode m = .ok data → decode data = .ok m) ∧
    (∀ data m, decode data = .ok m → Canonical data → encode m = .ok data) ∧
    (∀ data data' m, decode data = .ok m → decode data' = .ok m → Canonical data →
      Canonical data' → data = data') ∧
    (∀ m data extra m', encode m = .ok data → extra ≠ [] → decode (data ++ extra) ≠ .ok m') ∧
    (∀ m data n m', encode m = .ok data → n < data.length → decode (data.take n) ≠ .ok m') := by
  have hencode : ∀ data m, decode data = .ok m → Canonical data → encode m = .ok data := by
    intro data m h hc
    obtain ⟨hd, rfl⟩ := decode_eq_ok_iff.mp h
    exact encode_messageFields hd hc
  refine ⟨fun m data => decode_encoded, hencode, ?_, ?_, ?_⟩
  · intro data data' m h h' hc hc'
    exact Except.ok.inj ((hencode data m h hc).symm.trans (hencode data' m h' hc'))
  · intro m data extra m' h hextra h'
    obtain ⟨hd, -⟩ := decode_eq_ok_iff.mp (decode_encoded h)
    obtain ⟨hd', -⟩ := decode_eq_ok_iff.mp h'
    have hsame : data.take 40 = (data ++ extra).take 40 :=
      (List.take_append_of_le_length hd.long).symm
    have hlen := length_of_header hd hd' hsame
    rw [List.length_append] at hlen
    exact hextra (List.length_eq_zero_iff.mp (by omega))
  · intro m data n m' h hn h'
    obtain ⟨hd, -⟩ := decode_eq_ok_iff.mp (decode_encoded h)
    obtain ⟨hd', -⟩ := decode_eq_ok_iff.mp h'
    have hlong := hd'.long
    rw [List.length_take] at hlong
    have hsame : data.take 40 = (data.take n).take 40 := by
      rw [List.take_take, Nat.min_eq_left (by omega)]
    have hlen := length_of_header hd hd' hsame
    rw [List.length_take] at hlen
    omega

end UnknownTunnel.Protocol

import UnknownTunnel.Transport.Crypto

/-!
# TCP sessions

A `tcpSession` seals every payload into one frame under a running number and
reads frames back in order. The handshake that precedes it travels in
length-prefixed blobs.

## Implementation notes

`Send` runs under the write mutex, so a call is one step. The bytes of a
frame, the point at which a write fails and the outcome of the select after a
frame are carried by the events. The payloads put into `recvCh` are kept as a
list, since the session itself never takes them out.
-/

namespace UnknownTunnel.Transport

open Foundation

/-- Two megabytes. -/
def maxTCPFrame : Nat := 2 * 2 ^ 20

/-- The length prefix and the data, if the length fits its two bytes. -/
def writeBlob (data : Bytes) : Option Bytes :=
  if 65535 < data.length then none else some (Bytes.bePut 2 data.length ++ data)

/-- The blob at the front of a stream and the rest of the stream. -/
def readBlob (stream : Bytes) (max : Nat) : Option (Bytes × Bytes) :=
  let n := Bytes.beGet (stream.take 2)
  if stream.length < 2 then none
  else if n = 0 ∨ max < n then none
  else if stream.length < 2 + n then none
  else some ((stream.drop 2).take n, (stream.drop 2).drop n)

/-- The state of a session, with everything it has received. -/
structure TcpSession where
  sendKey : Bytes
  recvKey : Bytes
  sendSeq : Nat
  recvSeq : Nat
  received : List Bytes
  closed : Bool
  reading : Bool
  deriving DecidableEq

/-- Numbers are given from one on. -/
def newTCPSession (sendKey recvKey : Bytes) : TcpSession where
  sendKey := sendKey
  recvKey := recvKey
  sendSeq := 0
  recvSeq := 1
  received := []
  closed := false
  reading := true

/-- What happens to a session. -/
inductive TcpEvent
  /-- A `Send` call whose writes fail after some bytes, if they fail. -/
  | send (payload : Bytes) (failAt : Option Nat)
  /-- A `Send` call that cannot set its deadline. -/
  | sendDeadline
  /-- A round of `readLoop`, and whether the select put the payload in the queue. -/
  | frame (header ciphertext : Bytes) (queued : Bool)
  | readError
  | close

namespace TcpSession

variable (C : Crypto)

/-- The length field of a header. -/
def frameLen (header : Bytes) : Nat := Bytes.beGet (Bytes.slice 0 4 header)

/-- The number in a header. -/
def frameSeq (header : Bytes) : Nat := Bytes.beGet (Bytes.slice 4 12 header)

/-- The sealed payload of a frame. -/
def frameCiphertext (s : TcpSession) (seq : Nat) (payload : Bytes) : Bytes :=
  C.aeadSeal s.sendKey (nonceFor seq) payload (Bytes.bePut 8 seq)

/-- The header of a frame: the length of the rest and the number. -/
def frameHeader (s : TcpSession) (seq : Nat) (payload : Bytes) : Bytes :=
  Bytes.bePut 4 (8 + (s.frameCiphertext C seq payload).length) ++ Bytes.bePut 8 seq

/-- The checks of `readLoop`; nothing is returned when the session finishes. -/
def readFrame (s : TcpSession) (header ciphertext : Bytes) : Option Bytes :=
  if frameLen header < 8 + aeadOverhead ∨ maxTCPFrame + aeadOverhead + 8 < frameLen header then
    none
  else if frameSeq header ≠ s.recvSeq then none
  else
    C.aeadOpen s.recvKey (nonceFor (frameSeq header)) ciphertext
      (Bytes.bePut 8 (frameSeq header))

/-- When a step can be taken. The reader takes as many bytes as the header
announces, and the select gives up only on a finished session. -/
def enabled (s : TcpSession) : TcpEvent → Prop
  | .send payload _ => payload.length ≤ maxTCPFrame ∧ s.sendSeq + 1 < 2 ^ 64
  | .sendDeadline => True
  | .frame header ciphertext queued =>
      s.reading = true ∧ s.recvSeq + 1 < 2 ^ 64 ∧ header.length = 12 ∧
        ciphertext.length = frameLen header - 8 ∧ (queued = false → s.closed = true)
  | .readError => s.reading = true
  | .close => True

def apply (s : TcpSession) : TcpEvent → TcpSession
  | .send _ failAt => { s with sendSeq := s.sendSeq + 1, closed := s.closed || failAt.isSome }
  | .sendDeadline => { s with closed := true }
  | .frame header ciphertext queued =>
      match s.readFrame C header ciphertext with
      | none => { s with closed := true, reading := false }
      | some plaintext =>
          if queued then
            { s with recvSeq := s.recvSeq + 1, received := s.received ++ [plaintext] }
          else { s with recvSeq := s.recvSeq + 1, reading := false }
  | .readError => { s with closed := true, reading := false }
  | .close => { s with closed := true }

/-- The `Seal` call a step makes. -/
def sealRecord (s : TcpSession) : TcpEvent → Option SealRecord
  | .send payload _ => some
      ⟨s.sendKey, nonceFor (s.sendSeq + 1), Bytes.bePut 8 (s.sendSeq + 1), payload⟩
  | _ => none

/-- The record of the frame that opens to a plaintext. -/
def openRecord (s : TcpSession) (header plaintext : Bytes) : SealRecord :=
  ⟨s.recvKey, nonceFor (frameSeq header), Bytes.bePut 8 (frameSeq header), plaintext⟩

/-- A ciphertext opens under the number of its frame only to what was sealed so. -/
def FrameUnforged (sealed : List SealRecord) (s : TcpSession) (header ciphertext : Bytes) : Prop :=
  ∀ plaintext,
    C.aeadOpen s.recvKey (nonceFor (frameSeq header)) ciphertext
        (Bytes.bePut 8 (frameSeq header)) = some plaintext →
      s.openRecord header plaintext ∈ sealed

variable {C} {s : TcpSession} {e : TcpEvent}

/-- A frame that `readLoop` accepts has the expected number and opens. -/
theorem readFrame_eq_some {header ciphertext plaintext : Bytes}
    (h : s.readFrame C header ciphertext = some plaintext) :
    frameSeq header = s.recvSeq ∧
      C.aeadOpen s.recvKey (nonceFor (frameSeq header)) ciphertext
        (Bytes.bePut 8 (frameSeq header)) = some plaintext := by
  rw [readFrame] at h
  split at h
  · cases h
  split at h
  · cases h
  rename_i hseq
  exact ⟨not_not.mp hseq, h⟩

theorem FrameUnforged.mem_of_readFrame {sealed : List SealRecord}
    {header ciphertext plaintext : Bytes} (hf : s.FrameUnforged C sealed header ciphertext)
    (h : s.readFrame C header ciphertext = some plaintext) :
    s.openRecord header plaintext ∈ sealed :=
  hf plaintext (readFrame_eq_some h).2

/-- Everything a step does to the keys and the payloads received. -/
theorem apply_cases (C : Crypto) (s : TcpSession) (e : TcpEvent) :
    (s.apply C e).sendKey = s.sendKey ∧ (s.apply C e).recvKey = s.recvKey ∧
    ((s.apply C e).received = s.received ∨
      ∃ header ciphertext plaintext, e = .frame header ciphertext true ∧
        s.readFrame C header ciphertext = some plaintext ∧
        (s.apply C e).received = s.received ++ [plaintext]) := by
  cases e with
  | frame header ciphertext queued =>
      simp only [apply]
      cases hr : s.readFrame C header ciphertext with
      | none => exact ⟨rfl, rfl, Or.inl rfl⟩
      | some plaintext =>
          cases queued with
          | true => exact ⟨rfl, rfl, Or.inr ⟨header, ciphertext, plaintext, rfl, hr, rfl⟩⟩
          | false => exact ⟨rfl, rfl, Or.inl rfl⟩
  | _ => exact ⟨rfl, rfl, Or.inl rfl⟩

section Frames

variable {t : TcpSession} {seq : Nat} {payload : Bytes}

theorem length_frameCiphertext :
    (t.frameCiphertext C seq payload).length = payload.length + 16 :=
  C.aeadSeal_length ..

theorem length_frameHeader : (t.frameHeader C seq payload).length = 12 := by
  rw [frameHeader, List.length_append, Bytes.length_bePut, Bytes.length_bePut]

theorem frameLen_frameHeader (hp : payload.length ≤ maxTCPFrame) :
    frameLen (t.frameHeader C seq payload) = payload.length + 24 := by
  have hmax : maxTCPFrame = 2097152 := by decide
  have hslice : Bytes.slice 0 4 ([] ++ (Bytes.bePut 4 (8 + (payload.length + 16)) ++
      Bytes.bePut 8 seq)) = Bytes.bePut 4 (8 + (payload.length + 16)) :=
    Bytes.slice_append _ rfl (by simp)
  rw [List.nil_append] at hslice
  rw [frameLen, frameHeader, length_frameCiphertext, hslice, Bytes.beGet_bePut_of_lt] <;> omega

theorem frameSeq_frameHeader (hseq : seq < 2 ^ 64) :
    frameSeq (t.frameHeader C seq payload) = seq := by
  have hslice : Bytes.slice 4 12 (Bytes.bePut 4 (8 + (payload.length + 16)) ++
      (Bytes.bePut 8 seq ++ [])) = Bytes.bePut 8 seq :=
    Bytes.slice_append _ (Bytes.length_bePut ..) (by simp)
  rw [List.append_nil] at hslice
  rw [frameSeq, frameHeader, length_frameCiphertext, hslice, Bytes.beGet_bePut_of_lt]
  exact hseq

/-- A frame is read back by a reader that holds the key and expects its number. -/
theorem readFrame_frame (hk : s.recvKey = t.sendKey) (hs : s.recvSeq = seq) (hseq : seq < 2 ^ 64)
    (hp : payload.length ≤ maxTCPFrame) :
    s.readFrame C (t.frameHeader C seq payload) (t.frameCiphertext C seq payload) =
      some payload := by
  have hmax : maxTCPFrame = 2097152 := by decide
  rw [readFrame, frameLen_frameHeader hp, frameSeq_frameHeader hseq, if_neg,
    if_neg (not_not.mpr hs.symm), hk]
  · exact C.aeadOpen_aeadSeal ..
  · rw [aeadOverhead]
    omega

/-- The frame of a recorded call is no forgery. -/
theorem frameUnforged_frame {sealed : List SealRecord} (hk : s.recvKey = t.sendKey)
    (hseq : seq < 2 ^ 64)
    (hmem : ⟨t.sendKey, nonceFor seq, Bytes.bePut 8 seq, payload⟩ ∈ sealed) :
    s.FrameUnforged C sealed (t.frameHeader C seq payload) (t.frameCiphertext C seq payload) := by
  intro plaintext hopen
  have hnum : frameSeq (t.frameHeader C seq payload) = seq := frameSeq_frameHeader hseq
  rw [hnum, hk, frameCiphertext, C.aeadOpen_aeadSeal] at hopen
  cases hopen
  rw [openRecord, hnum, hk]
  exact hmem

/-- A reader that expects a frame takes it in one round. -/
theorem frame_enabled (hr : s.reading = true) (hs : s.recvSeq + 1 < 2 ^ 64)
    (hp : payload.length ≤ maxTCPFrame) :
    s.enabled (.frame (t.frameHeader C seq payload) (t.frameCiphertext C seq payload) true) := by
  refine ⟨hr, hs, length_frameHeader, ?_, nofun⟩
  rw [frameLen_frameHeader hp, length_frameCiphertext]
  omega

end Frames

end TcpSession

/-- A blob is read back whole, whatever follows it. -/
theorem readBlob_writeBlob {data blob : Bytes} {max : Nat} (h : writeBlob data = some blob)
    (hpos : 0 < data.length) (hmax : data.length ≤ max) (rest : Bytes) :
    readBlob (blob ++ rest) max = some (data, rest) := by
  rw [writeBlob] at h
  split at h
  · cases h
  rename_i hlen
  cases h
  have htake : ((Bytes.bePut 2 data.length ++ data) ++ rest).take 2 =
      Bytes.bePut 2 data.length := by
    rw [List.append_assoc]
    exact List.take_left' (Bytes.length_bePut ..)
  have hdrop : ((Bytes.bePut 2 data.length ++ data) ++ rest).drop 2 = data ++ rest := by
    rw [List.append_assoc]
    exact List.drop_left' (Bytes.length_bePut ..)
  have hn : Bytes.beGet (Bytes.bePut 2 data.length) = data.length := by
    rw [Bytes.beGet_bePut]
    omega
  have hsize : ((Bytes.bePut 2 data.length ++ data) ++ rest).length =
      2 + data.length + rest.length := by
    rw [List.length_append, List.length_append, Bytes.length_bePut]
  simp only [readBlob, htake, hdrop, hn, hsize]
  rw [if_neg (by omega), if_neg (by omega), if_neg (by omega), List.take_left, List.drop_left]

end UnknownTunnel.Transport

import UnknownTunnel.Foundation.Reads
import UnknownTunnel.Transport.TcpSession

/-!
# The framed TCP stream

`Send` as the bytes it writes and `readLoop` as a reader of bytes that arrive
in pieces. The frames of the sender are read back however the stream is cut.
On any other stream, what the reader delivers is still a beginning of what
was sent, as long as it opens only frames that the sender sealed.

## Implementation notes

The reader's result also lists the frames it opened, as the `Seal` calls that
would produce them. Idealised AES-GCM is the premise that each of these calls
was made by the sender. `queue n` is the outcome of the select after frame
`n`; it fails only once the session is finished. A round consumes at least a
header, so the length of the stream bounds the rounds.
-/

namespace UnknownTunnel.Transport

open Foundation

namespace TcpSession

variable (C : Crypto)

/-- The bytes a sequence of `Send` calls writes. -/
def stream (s : TcpSession) : List Bytes → Bytes
  | [] => []
  | payload :: rest =>
      s.frameHeader C (s.sendSeq + 1) payload ++ s.frameCiphertext C (s.sendSeq + 1) payload ++
        stream (s.apply C (.send payload none)) rest

/-- The `Seal` calls a sequence of `Send` calls makes. -/
def sealedBy (s : TcpSession) : List Bytes → List SealRecord
  | [] => []
  | payload :: rest =>
      (s.sealRecord (.send payload none)).toList ++
        sealedBy (s.apply C (.send payload none)) rest

/-- The check of `readLoop` on the announced length. -/
def badLength (header : Bytes) : Prop :=
  frameLen header < 8 + aeadOverhead ∨ maxTCPFrame + aeadOverhead + 8 < frameLen header

instance (header : Bytes) : Decidable (badLength header) :=
  inferInstanceAs (Decidable (_ ∨ _))

/-- The rounds of `readLoop`, with the frames that were opened. -/
def readRounds (queue : Nat → Bool) :
    Nat → TcpSession → List Bytes → TcpSession × List SealRecord
  | 0, s, _ => (s, [])
  | fuel + 1, s, reads =>
      match readFull reads 12 with
      | none => (s.apply C .readError, [])
      | some (header, reads) =>
          if badLength header then (s.apply C .readError, [])
          else if frameSeq header ≠ s.recvSeq then (s.apply C .readError, [])
          else
            match readFull reads (frameLen header - 8) with
            | none => (s.apply C .readError, [])
            | some (ciphertext, reads) =>
                match C.aeadOpen s.recvKey (nonceFor (frameSeq header)) ciphertext
                    (Bytes.bePut 8 (frameSeq header)) with
                | none => (s.apply C .readError, [])
                | some plaintext =>
                    if queue s.recvSeq then
                      let result := readRounds queue fuel
                        { s with
                          recvSeq := s.recvSeq + 1
                          received := s.received ++ [plaintext] } reads
                      (result.1, s.openRecord header plaintext :: result.2)
                    else
                      ({ s with recvSeq := s.recvSeq + 1, reading := false },
                        [s.openRecord header plaintext])

/-- The loop on a stream that arrives in the given pieces. -/
def readLoop (queue : Nat → Bool) (s : TcpSession) (reads : List Bytes) :
    TcpSession × List SealRecord :=
  readRounds C queue (reads.flatten.length + 1) s reads

variable {C} {queue : Nat → Bool} {s : TcpSession} {reads : List Bytes}

/-- What one round can do: finish, or open the frame at the front of the
stream under the expected number. -/
inductive Round (C : Crypto) (queue : Nat → Bool) (fuel : Nat) (s : TcpSession)
    (reads : List Bytes) : TcpSession × List SealRecord → Prop
  | finished : Round C queue fuel s reads (s.apply C .readError, [])
  | queued (header ciphertext plaintext : Bytes) (rest : List Bytes)
      (hreads : reads.flatten = header ++ ciphertext ++ rest.flatten)
      (hheader : header.length = 12) (hseq : frameSeq header = s.recvSeq)
      (hread : s.readFrame C header ciphertext = some plaintext)
      (hqueue : queue s.recvSeq = true) :
      Round C queue fuel s reads
        ((readRounds C queue fuel (s.apply C (.frame header ciphertext true)) rest).1,
          s.openRecord header plaintext ::
            (readRounds C queue fuel (s.apply C (.frame header ciphertext true)) rest).2)
  | refused (header ciphertext plaintext : Bytes)
      (hread : s.readFrame C header ciphertext = some plaintext)
      (hqueue : queue s.recvSeq = false) :
      Round C queue fuel s reads
        (s.apply C (.frame header ciphertext false), [s.openRecord header plaintext])

theorem readRounds_round (C : Crypto) (queue : Nat → Bool) (fuel : Nat) (s : TcpSession)
    (reads : List Bytes) :
    Round C queue fuel s reads (readRounds C queue (fuel + 1) s reads) := by
  generalize hresult : readRounds C queue (fuel + 1) s reads = result
  simp only [readRounds] at hresult
  split at hresult
  · exact hresult ▸ .finished
  rename_i header body hheader
  split at hresult
  · exact hresult ▸ .finished
  rename_i hbad
  rw [badLength] at hbad
  split at hresult
  · exact hresult ▸ .finished
  rename_i hseq
  split at hresult
  · exact hresult ▸ .finished
  rename_i ciphertext rest hbody
  split at hresult
  · exact hresult ▸ .finished
  rename_i plaintext hopen
  have hread : s.readFrame C header ciphertext = some plaintext := by
    rw [readFrame, if_neg hbad, if_neg hseq, hopen]
  obtain ⟨hflatten, hlen⟩ := flatten_of_readFull hheader
  obtain ⟨hflatten', -⟩ := flatten_of_readFull hbody
  cases hqueue : queue s.recvSeq with
  | true =>
      have hstate : s.apply C (.frame header ciphertext true) =
          { s with recvSeq := s.recvSeq + 1, received := s.received ++ [plaintext] } := by
        simp only [apply, hread, if_true]
      simp only [hqueue, if_true, ← hstate] at hresult
      rw [← hresult]
      exact .queued header ciphertext plaintext rest
        (by rw [hflatten, hflatten', List.append_assoc]) hlen (not_not.mp hseq) hread hqueue
  | false =>
      have hstate : s.apply C (.frame header ciphertext false) =
          { s with recvSeq := s.recvSeq + 1, reading := false } := by
        simp only [apply, hread, Bool.false_eq_true, if_false]
      simp only [hqueue, Bool.false_eq_true, if_false, ← hstate] at hresult
      rw [← hresult]
      exact .refused header ciphertext plaintext hread hqueue

/-- The reader always finishes. -/
theorem readRounds_stops (fuel : Nat) (s : TcpSession) (reads : List Bytes)
    (hfuel : reads.flatten.length < fuel) :
    (readRounds C queue fuel s reads).1.reading = false := by
  induction fuel generalizing s reads with
  | zero => omega
  | succ fuel ih =>
      have hround := readRounds_round C queue fuel s reads
      generalize readRounds C queue (fuel + 1) s reads = result at hround ⊢
      cases hround with
      | finished => rfl
      | queued header ciphertext plaintext rest hreads hheader hseq hread hqueue =>
          apply ih
          rw [hreads, List.length_append, List.length_append] at hfuel
          omega
      | refused header ciphertext plaintext hread hqueue => simp [apply, hread]

/-! ## The sender's stream -/

/-- A frame of the sender passes the length check. -/
theorem not_badLength_frameHeader {t : TcpSession} {seq : Nat} {payload : Bytes}
    (hp : payload.length ≤ maxTCPFrame) : ¬ badLength (t.frameHeader C seq payload) := by
  rw [badLength, frameLen_frameHeader hp, aeadOverhead]
  omega

/-- A round on a stream that begins with the expected frame. -/
theorem readRounds_frame {t : TcpSession} {payload more : Bytes} (fuel : Nat)
    (hk : s.recvKey = t.sendKey) (hseq : s.recvSeq < 2 ^ 64)
    (hp : payload.length ≤ maxTCPFrame) (hq : queue s.recvSeq = true)
    (hreads : reads.flatten = t.frameHeader C s.recvSeq payload ++
      (t.frameCiphertext C s.recvSeq payload ++ more)) :
    ∃ rest, rest.flatten = more ∧
      (readRounds C queue (fuel + 1) s reads).1 = (readRounds C queue fuel
        { s with recvSeq := s.recvSeq + 1, received := s.received ++ [payload] } rest).1 := by
  have hgood : ¬ badLength (t.frameHeader C s.recvSeq payload) := not_badLength_frameHeader hp
  have hlen : (t.frameCiphertext C s.recvSeq payload).length =
      frameLen (t.frameHeader C s.recvSeq payload) - 8 := by
    rw [frameLen_frameHeader hp, length_frameCiphertext]
    omega
  obtain ⟨body, hheader, hbody⟩ := readFull_of_flatten hreads length_frameHeader
  obtain ⟨rest, hciphertext, hrest⟩ := readFull_of_flatten hbody hlen
  have hopen : C.aeadOpen s.recvKey (nonceFor s.recvSeq) (t.frameCiphertext C s.recvSeq payload)
      (Bytes.bePut 8 s.recvSeq) = some payload := by
    rw [hk]
    exact C.aeadOpen_aeadSeal ..
  refine ⟨rest, hrest, ?_⟩
  simp only [readRounds, hheader, if_neg hgood, frameSeq_frameHeader hseq, ne_eq,
    not_true_eq_false, if_false, hciphertext, hopen, hq, if_true]

theorem length_le_stream (payloads : List Bytes) (t : TcpSession) :
    payloads.length ≤ (t.stream C payloads).length := by
  induction payloads generalizing t with
  | nil => exact Nat.le_refl _
  | cons payload rest ih =>
      have hrest := ih (t.apply C (.send payload none))
      rw [stream, List.length_append, List.length_append, length_frameHeader, List.length_cons]
      omega

/-- The sender's payloads are read back, however the stream is cut. -/
theorem readRounds_stream (hq : ∀ n, queue n = true) (payloads : List Bytes) (fuel : Nat)
    (hfuel : payloads.length < fuel) (s t : TcpSession) (reads : List Bytes)
    (hk : s.recvKey = t.sendKey) (hs : s.recvSeq = t.sendSeq + 1)
    (hcount : t.sendSeq + payloads.length < 2 ^ 64)
    (hsize : ∀ payload ∈ payloads, payload.length ≤ maxTCPFrame)
    (hreads : reads.flatten = t.stream C payloads) :
    (readRounds C queue fuel s reads).1.received = s.received ++ payloads := by
  induction payloads generalizing fuel s t reads with
  | nil =>
      obtain ⟨fuel, rfl⟩ := Nat.exists_eq_add_of_lt hfuel
      have hnone : readFull reads 12 = none := by
        by_contra hne
        obtain ⟨⟨header, rest⟩, hread⟩ := Option.ne_none_iff_exists'.mp hne
        obtain ⟨hflatten, hlen⟩ := flatten_of_readFull hread
        rw [hreads, stream] at hflatten
        have hzero := congrArg List.length hflatten
        rw [List.length_nil, List.length_append, hlen] at hzero
        omega
      simp [readRounds, hnone, apply]
  | cons payload rest ih =>
      obtain ⟨fuel, rfl⟩ : ∃ n, fuel = n + 1 := Nat.exists_eq_succ_of_ne_zero (by omega)
      rw [List.length_cons] at hfuel hcount
      rw [stream, ← hs, List.append_assoc] at hreads
      obtain ⟨left, hleft, hround⟩ := readRounds_frame fuel hk (by omega)
        (hsize payload List.mem_cons_self) (hq _) hreads
      have hrest := ih fuel (by omega)
        { s with recvSeq := s.recvSeq + 1, received := s.received ++ [payload] }
        (t.apply C (.send payload none)) left hk (by simp only [hs, apply])
        (by simp only [apply]; omega) (fun p hp => hsize p (List.mem_cons_of_mem _ hp)) hleft
      rw [hround, hrest, List.append_assoc, List.singleton_append]

/-! ## Any stream -/

/-- The records of a sequence of `Send` calls, by their numbers. -/
theorem mem_sealedBy {payloads : List Bytes} {t : TcpSession} {record : SealRecord}
    (h : record ∈ t.sealedBy C payloads) :
    ∃ i payload, payloads[i]? = some payload ∧
      record = ⟨t.sendKey, nonceFor (t.sendSeq + i + 1), Bytes.bePut 8 (t.sendSeq + i + 1),
        payload⟩ := by
  induction payloads generalizing t with
  | nil => cases h
  | cons payload rest ih =>
      rw [sealedBy, List.mem_append] at h
      rcases h with h | h
      · exact ⟨0, payload, rfl, by simpa [sealRecord] using h⟩
      · obtain ⟨i, p, hp, hrecord⟩ := ih h
        refine ⟨i + 1, p, by simpa using hp, ?_⟩
        rw [hrecord]
        simp only [apply]
        congr 2 <;> omega

/-- A reader that opens only sealed frames is always at the end of a beginning
of the sent payloads, and stays there. -/
theorem readRounds_prefix {key other : Bytes} {payloads : List Bytes}
    (hcount : payloads.length + 1 < 2 ^ 64) (fuel : Nat) (s : TcpSession) (reads : List Bytes)
    (hs : 0 < s.recvSeq) (hbound : s.recvSeq ≤ payloads.length + 1)
    (hreceived : s.received = payloads.take (s.recvSeq - 1))
    (hideal : ∀ record ∈ (readRounds C queue fuel s reads).2,
      record ∈ (newTCPSession key other).sealedBy C payloads) :
    (readRounds C queue fuel s reads).1.received <+: payloads := by
  induction fuel generalizing s reads with
  | zero => exact hreceived ▸ List.take_prefix _ _
  | succ fuel ih =>
      have hround := readRounds_round C queue fuel s reads
      generalize readRounds C queue (fuel + 1) s reads = result at hround hideal ⊢
      cases hround with
      | finished => exact hreceived ▸ List.take_prefix _ _
      | queued header ciphertext plaintext rest hreads hheader hseq hread hqueue =>
          obtain ⟨i, payload, hp, hrecord⟩ := mem_sealedBy (hideal _ List.mem_cons_self)
          obtain ⟨hlt, -⟩ := List.getElem?_eq_some_iff.mp hp
          simp only [openRecord, newTCPSession, SealRecord.mk.injEq, Nat.zero_add, hseq]
            at hrecord
          obtain ⟨-, -, haad, rfl⟩ := hrecord
          have hi := Bytes.bePut_inj (by omega) (by omega) haad
          apply ih
          · simp only [apply, hread, if_true]
            omega
          · simp only [apply, hread, if_true]
            omega
          · simp only [apply, hread, if_true, hreceived, hi, Nat.add_sub_cancel]
            rw [List.take_add_one, hp]
            rfl
          · intro record hmem
            exact hideal record (List.mem_cons_of_mem _ hmem)
      | refused header ciphertext plaintext hread hqueue =>
          simp only [apply, hread, Bool.false_eq_true, if_false]
          exact hreceived ▸ List.take_prefix _ _

end TcpSession

/-- Fidelity of the TCP carrier, for payloads that `Send` accepts: the peer
reads back exactly the payloads sent, in order, from the sender's bytes cut
into reads of any sizes. From any other bytes, if AES-GCM opens only what the
sender sealed, it delivers a beginning of them. It always stops, and no frame
of the sender fails the length check. -/
theorem tcp_stream_faithful (C : Crypto) (key other : Bytes) (payloads : List Bytes)
    (hsize : ∀ payload ∈ payloads, payload.length ≤ maxTCPFrame)
    (hcount : payloads.length + 1 < 2 ^ 64) :
    (∀ reads : List Bytes,
      reads.flatten = (newTCPSession key other).stream C payloads →
        (TcpSession.readLoop C (fun _ => true) (newTCPSession other key) reads).1.received =
          payloads) ∧
    (∀ queue reads,
      (∀ record ∈ (TcpSession.readLoop C queue (newTCPSession other key) reads).2,
        record ∈ (newTCPSession key other).sealedBy C payloads) →
      (TcpSession.readLoop C queue (newTCPSession other key) reads).1.received <+: payloads) ∧
    (∀ queue reads,
      (TcpSession.readLoop C queue (newTCPSession other key) reads).1.reading = false) ∧
    (∀ seq, ∀ payload ∈ payloads,
      ¬ TcpSession.badLength ((newTCPSession key other).frameHeader C seq payload)) := by
  refine ⟨?_, ?_, ?_, ?_⟩
  · intro reads hreads
    have hfuel : payloads.length < reads.flatten.length + 1 := by
      rw [hreads]
      exact Nat.lt_succ_of_le (TcpSession.length_le_stream payloads _)
    exact TcpSession.readRounds_stream (fun _ => rfl) payloads _ hfuel _ _ reads rfl rfl
      (by simp only [newTCPSession]; omega) hsize hreads
  · intro queue reads hideal
    exact TcpSession.readRounds_prefix hcount _ _ reads Nat.one_pos
      (Nat.le_add_left _ _) rfl hideal
  · intro queue reads
    exact TcpSession.readRounds_stops _ _ reads (Nat.lt_succ_self _)
  · intro seq payload hp
    exact TcpSession.not_badLength_frameHeader (hsize payload hp)

/-- Two payloads whose stream is cut within the first header. -/
theorem tcp_stream_faithful_cut :
    (∀ payload ∈ ([[1], [2, 3]] : List Bytes), payload.length ≤ maxTCPFrame) ∧
    (TcpSession.readLoop Crypto.sum (fun _ => true) (newTCPSession [8] [7])
      [((newTCPSession [7] [8]).stream Crypto.sum [[1], [2, 3]]).take 5,
        ((newTCPSession [7] [8]).stream Crypto.sum [[1], [2, 3]]).drop 5]).1.received =
      [[1], [2, 3]] := by
  have hsize : ∀ payload ∈ ([[1], [2, 3]] : List Bytes), payload.length ≤ maxTCPFrame := by
    decide
  refine ⟨hsize, (tcp_stream_faithful Crypto.sum [7] [8] [[1], [2, 3]] hsize (by decide)).1 _ ?_⟩
  simp

end UnknownTunnel.Transport

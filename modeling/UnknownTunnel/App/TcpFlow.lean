import UnknownTunnel.Foundation.Resequencer
import UnknownTunnel.Transport.Manager

/-!
# One direction of a forwarded TCP flow

`pumpTCP` cuts a stream into numbered chunks and sends each of them, and at
the end a close message, on whichever carrier `Manager.Send` finds. The peer
writes the chunks in order and closes the destination when it handles the
close message, which carries no number.

## Implementation notes

Messages are tagged with the carrier they travel on. What arrives keeps the
order of each carrier, and nothing else; messages may still be under way.

The sender counts in 64 bits, and results about whole streams are stated for
fewer chunks than its counter can tell apart. The counter of the receiver does
not wrap for such a stream either: `TcpState.writeOrdered_ends` compares
`writeOrdered` on it with the 64-bit arithmetic of the source.
-/

namespace UnknownTunnel.App

open Foundation Transport

/-- How far ahead of the expected number a chunk is kept. -/
def maxTCPReorder : Nat := 4096

/-- The messages of one direction of a flow. -/
inductive FlowMessage
  | data (seq : Nat) (payload : Bytes)
  | close
  deriving DecidableEq

/-! ## The sender -/

/-- What `Manager.Send` finds on the carriers when a message is sent. -/
abbrev Attempt := Carrier → SendOutcome

/-- What is sent for the chunks that are read, from the next number on, and for
the end of the stream. -/
def pumpTCP (cfg : TransportConfig) (closing : Attempt) :
    Nat → List (Bytes × Attempt) → List (Carrier × FlowMessage)
  | _, [] => (sendPath closing (sendOrder cfg)).toList.map fun kind => (kind, .close)
  | seq, (payload, outcome) :: rest =>
      match sendPath outcome (sendOrder cfg) with
      | some kind => (kind, .data seq payload) :: pumpTCP cfg closing ((seq + 1) % 2 ^ 64) rest
      | none => (sendPath closing (sendOrder cfg)).toList.map fun kind => (kind, .close)

/-- The carriers of the chunks, if every send succeeds. -/
def placement (cfg : TransportConfig) : List (Bytes × Attempt) → Option (List (Carrier × Bytes))
  | [] => some []
  | (payload, outcome) :: rest =>
      match sendPath outcome (sendOrder cfg), placement cfg rest with
      | some kind, some placed => some ((kind, payload) :: placed)
      | _, _ => none

/-- Chunks under consecutive numbers. -/
def numbered : Nat → List (Carrier × Bytes) → List (Carrier × FlowMessage)
  | _, [] => []
  | seq, (kind, payload) :: rest => (kind, .data seq payload) :: numbered (seq + 1) rest

/-- Every order in which messages can have arrived: each carrier delivers a
beginning of what was sent on it. -/
def Arrives (sent arrived : List (Carrier × FlowMessage)) : Prop :=
  ∀ kind, arrived.filter (fun m => m.1 = kind) <+: sent.filter (fun m => m.1 = kind)

/-! ## The receiver -/

/-- The flow at the peer: registered, closed after an error, or closed by the
close message with what had been written. -/
inductive PeerFlow
  | open (r : Resequencer Bytes)
  | failed
  | closed (written : List Bytes)

/-- `writeOrdered` returns an error. -/
def writeFails : Resequencer.Outcome Bytes → Bool
  | .beyond => true
  | .failed _ => true
  | _ => false

/-- `writes n` says whether the write of chunk `n` succeeds. -/
def writeOrdered (writes : Nat → Bool) (r : Resequencer Bytes) (seq : Nat) (payload : Bytes) :
    Resequencer Bytes × Resequencer.Outcome Bytes :=
  Resequencer.accept maxTCPReorder writes r seq payload

namespace PeerFlow

def handleTCPData (writes : Nat → Bool) (seq : Nat) (payload : Bytes) : PeerFlow → PeerFlow
  | .open r =>
      if writeFails (writeOrdered writes r seq payload).2 then .failed
      else .open (writeOrdered writes r seq payload).1
  | flow => flow

def closeTCP : PeerFlow → PeerFlow
  | .open r => .closed r.output
  | flow => flow

def handleMessage (writes : Nat → Bool) (flow : PeerFlow) : FlowMessage → PeerFlow
  | .data seq payload => flow.handleTCPData writes seq payload
  | .close => flow.closeTCP

/-- The flow after a sequence of messages. -/
def handleAll (writes : Nat → Bool) (flow : PeerFlow) (messages : List FlowMessage) : PeerFlow :=
  messages.foldl (handleMessage writes) flow

/-- A newly registered flow. -/
def start : PeerFlow := .open Resequencer.fresh

end PeerFlow

/-! ## Basic facts -/

/-- If every send succeeds, the chunks and the close go out as placed. -/
theorem pumpTCP_of_placement {cfg : TransportConfig} {closing : Attempt} {kind : Carrier}
    (hclose : sendPath closing (sendOrder cfg) = some kind) {reads : List (Bytes × Attempt)}
    {placed : List (Carrier × Bytes)} (h : placement cfg reads = some placed) {seq : Nat}
    (hseq : seq + reads.length < 2 ^ 64) :
    pumpTCP cfg closing seq reads = numbered seq placed ++ [(kind, .close)] := by
  induction reads generalizing seq placed with
  | nil =>
      cases h
      simp [pumpTCP, numbered, hclose]
  | cons read rest ih =>
      obtain ⟨payload, outcome⟩ := read
      simp only [placement] at h
      split at h
      · rename_i k p hk hp
        cases h
        rw [List.length_cons] at hseq
        have hnext : (seq + 1) % 2 ^ 64 = seq + 1 := Nat.mod_eq_of_lt (by omega)
        simp only [pumpTCP, hk, numbered, List.cons_append, hnext]
        rw [ih hp (by omega)]
      · cases h

theorem payloads_of_placement {cfg : TransportConfig} {reads : List (Bytes × Attempt)}
    {placed : List (Carrier × Bytes)} (h : placement cfg reads = some placed) :
    placed.map Prod.snd = reads.map Prod.fst := by
  induction reads generalizing placed with
  | nil =>
      cases h
      rfl
  | cons read rest ih =>
      obtain ⟨payload, outcome⟩ := read
      simp only [placement] at h
      split at h
      · rename_i k p hk hp
        cases h
        simp only [List.map_cons, ih hp]
      · cases h

theorem numbered_append (seq : Nat) (front back : List (Carrier × Bytes)) :
    numbered seq (front ++ back) = numbered seq front ++ numbered (seq + front.length) back := by
  induction front generalizing seq with
  | nil => simp [numbered]
  | cons chunk rest ih =>
      obtain ⟨kind, payload⟩ := chunk
      simp only [List.cons_append, numbered, ih, List.length_cons]
      rw [show seq + 1 + rest.length = seq + (rest.length + 1) by omega]

theorem mem_numbered {seq : Nat} {placed : List (Carrier × Bytes)} {m : Carrier × FlowMessage} :
    m ∈ numbered seq placed ↔
      ∃ i kind payload, placed[i]? = some (kind, payload) ∧
        m = (kind, .data (seq + i) payload) := by
  induction placed generalizing seq with
  | nil => simp [numbered]
  | cons chunk rest ih =>
      obtain ⟨k, p⟩ := chunk
      simp only [numbered, List.mem_cons, ih]
      constructor
      · rintro (rfl | ⟨i, kind, payload, hi, rfl⟩)
        · exact ⟨0, k, p, rfl, rfl⟩
        · refine ⟨i + 1, kind, payload, hi, ?_⟩
          rw [show seq + 1 + i = seq + (i + 1) by omega]
      · rintro ⟨i, kind, payload, hi, rfl⟩
        cases i with
        | zero =>
            cases hi
            exact Or.inl rfl
        | succ i =>
            refine Or.inr ⟨i, kind, payload, hi, ?_⟩
            rw [show seq + 1 + i = seq + (i + 1) by omega]

namespace PeerFlow

variable {writes : Nat → Bool}

theorem handleAll_append (flow : PeerFlow) (a b : List FlowMessage) :
    flow.handleAll writes (a ++ b) = (flow.handleAll writes a).handleAll writes b :=
  List.foldl_append

/-- A flow that has failed takes no more messages. -/
theorem handleAll_failed (messages : List FlowMessage) :
    PeerFlow.failed.handleAll writes messages = .failed := by
  induction messages with
  | nil => rfl
  | cons m rest ih => cases m <;> exact ih

theorem handleAll_closed (written : List Bytes) (messages : List FlowMessage) :
    (PeerFlow.closed written).handleAll writes messages = .closed written := by
  induction messages with
  | nil => rfl
  | cons m rest ih => cases m <;> exact ih

/-- A flow that ends closed was open until it handled a close message. -/
theorem handleAll_eq_closed {r : Resequencer Bytes} {messages : List FlowMessage}
    {written : List Bytes} (h : (PeerFlow.open r).handleAll writes messages = .closed written) :
    ∃ before after r', messages = before ++ .close :: after ∧ .close ∉ before ∧
      (PeerFlow.open r).handleAll writes before = .open r' ∧ written = r'.output := by
  induction messages generalizing r with
  | nil => cases h
  | cons m rest ih =>
      cases m with
      | close =>
          have hclosed : (PeerFlow.closed r.output).handleAll writes rest = .closed written := h
          rw [handleAll_closed] at hclosed
          cases hclosed
          exact ⟨[], rest, r, rfl, List.not_mem_nil, rfl, rfl⟩
      | data seq payload =>
          have hstep : ((PeerFlow.open r).handleTCPData writes seq payload).handleAll writes rest =
              .closed written := h
          cases hfail : writeFails (writeOrdered writes r seq payload).2 with
          | true =>
              rw [handleTCPData, if_pos hfail, handleAll_failed] at hstep
              cases hstep
          | false =>
              have hopen : (PeerFlow.open r).handleTCPData writes seq payload =
                  .open (writeOrdered writes r seq payload).1 := by
                rw [handleTCPData, if_neg (by simp [hfail])]
              rw [hopen] at hstep
              obtain ⟨before, after, r', hsplit, hnone, hrun, hw⟩ := ih hstep
              refine ⟨.data seq payload :: before, after, r', by rw [hsplit]; rfl, ?_, ?_, hw⟩
              · simpa using hnone
              · change ((PeerFlow.open r).handleTCPData writes seq payload).handleAll writes
                  before = _
                rw [hopen]
                exact hrun

end PeerFlow

end UnknownTunnel.App

import UnknownTunnel.App.TcpFlow

/-!
# Ordered delivery of a TCP flow

`writeOrdered` with its byte-level writes and its 64-bit chunk numbers. A
write may take only part of the data it is given, and may fail after some of
it. The function mirrors the resequencer on whole chunks: the two states agree
up to the part of one chunk that a failing write has put on the connection.

## Implementation notes

The answers of the connection are inputs of a call, listed by the number of
the chunk that is being written. No chunk is written twice in one call, so the
lists cover every behaviour of the connection. Chunk numbers are naturals
below `2 ^ 64`; the arithmetic on them is reduced explicitly.
-/

namespace UnknownTunnel.App

open Foundation

/-! ## Writing to the connection -/

/-- The answer of one `conn.Write`: the number of bytes taken, and whether it
came with an error. -/
structure ConnWrite where
  n : Nat
  failed : Bool

/-- The bytes that reached the connection and whether all writes succeeded. A
connection that gives no further answer counts as failed. -/
def writeConnAll : List ConnWrite → Bytes → Bytes × Bool
  | _, [] => ([], true)
  | [], _ :: _ => ([], false)
  | write :: rest, byte :: more =>
      if write.failed then ((byte :: more).take write.n, false)
      else if write.n = 0 then ([], false)  -- io.ErrShortWrite
      else
        ((byte :: more).take write.n ++ (writeConnAll rest ((byte :: more).drop write.n)).1,
          (writeConnAll rest ((byte :: more).drop write.n)).2)

theorem writeConnAll_prefix (writes : List ConnWrite) (data : Bytes) :
    (writeConnAll writes data).1 <+: data := by
  induction writes generalizing data with
  | nil => cases data <;> simp [writeConnAll]
  | cons write rest ih =>
      cases data with
      | nil => simp [writeConnAll]
      | cons byte more =>
          simp only [writeConnAll]
          split
          · exact List.take_prefix _ _
          · split
            · exact List.nil_prefix
            · obtain ⟨missing, hmissing⟩ := ih ((byte :: more).drop write.n)
              refine ⟨missing, ?_⟩
              rw [List.append_assoc, hmissing, List.take_append_drop]

theorem writeConnAll_complete (writes : List ConnWrite) (data : Bytes)
    (h : (writeConnAll writes data).2 = true) : (writeConnAll writes data).1 = data := by
  induction writes generalizing data with
  | nil => cases data <;> simp_all [writeConnAll]
  | cons write rest ih =>
      cases data with
      | nil => simp [writeConnAll]
      | cons byte more =>
          simp only [writeConnAll] at h ⊢
          split at h
          · cases h
          · split at h
            · cases h
            · rename_i hfailed hzero
              rw [if_neg hfailed, if_neg hzero]
              simp only [ih _ h, List.take_append_drop]

/-! ## The receiving state -/

/-- The receiving half of `tcpState`, with the bytes put on its connection. -/
structure TcpState where
  expected : Nat
  reorder : Table Nat Bytes
  written : Bytes

/-- The two errors of `writeOrdered`. -/
inductive WriteOrderedError
  | window
  | write
  deriving DecidableEq

def newTCPState : TcpState := ⟨1, ∅, []⟩

namespace TcpState

/-- The loop at the end of `writeOrdered`. Each round removes an entry, so the
table bounds the number of rounds. -/
def writeWaiting (writes : Nat → List ConnWrite) :
    Nat → TcpState → TcpState × Option WriteOrderedError
  | 0, s => (s, none)
  | fuel + 1, s =>
      match Finmap.lookup s.expected s.reorder with
      | none => (s, none)
      | some next =>
          let out := writeConnAll (writes s.expected) next
          if out.2 then
            writeWaiting writes fuel
              ⟨(s.expected + 1) % 2 ^ 64, s.reorder.erase s.expected, s.written ++ out.1⟩
          else (⟨s.expected, s.reorder.erase s.expected, s.written ++ out.1⟩, some .write)

/-- One call; `writes n` lists what the connection answers while chunk `n` is
being written. -/
def writeOrdered (writes : Nat → List ConnWrite) (s : TcpState) (seq : Nat) (payload : Bytes) :
    TcpState × Option WriteOrderedError :=
  if seq < s.expected then (s, none)
  else if maxTCPReorder < (seq + 2 ^ 64 - s.expected) % 2 ^ 64 then (s, some .window)
  else if s.expected < seq then
    (if seq ∈ s.reorder then s else { s with reorder := s.reorder.insert seq payload }, none)
  else
    let out := writeConnAll (writes s.expected) payload
    if out.2 then
      writeWaiting writes s.reorder.size
        { s with expected := (s.expected + 1) % 2 ^ 64, written := s.written ++ out.1 }
    else ({ s with written := s.written ++ out.1 }, some .write)

end TcpState

/-- A data message of a flow with the given chunks, which the sender numbers
from one, and what the connection answers while it is handled. -/
structure Arrival (chunks : List Bytes) where
  index : Fin chunks.length
  writes : Nat → List ConnWrite

namespace Arrival

variable {chunks : List Bytes}

def seq (a : Arrival chunks) : Nat := a.index + 1

def payload (a : Arrival chunks) : Bytes := chunks.get a.index

theorem seq_le (a : Arrival chunks) : a.seq ≤ chunks.length := a.index.isLt

theorem sent (a : Arrival chunks) : chunks[a.seq - 1]? = some a.payload := by
  simp [seq, payload]

end Arrival

/-- A flow at the peer: its state, and the error it was closed on. -/
structure ReceivedFlow where
  state : TcpState
  error : Option WriteOrderedError

namespace ReceivedFlow

/-- A closed flow is no longer in the table, so its messages are not written. -/
def handleTCPData {chunks : List Bytes} (flow : ReceivedFlow) (a : Arrival chunks) :
    ReceivedFlow :=
  match flow.error with
  | some _ => flow
  | none =>
      let result := flow.state.writeOrdered a.writes a.seq a.payload
      ⟨result.1, result.2⟩

/-- The flow after a sequence of messages. -/
def receive {chunks : List Bytes} (arrivals : List (Arrival chunks)) : ReceivedFlow :=
  arrivals.foldl handleTCPData ⟨newTCPState, none⟩

end ReceivedFlow

namespace TcpState

/-- The state after a sequence of calls of `writeOrdered`. -/
def writeAll {chunks : List Bytes} (arrivals : List (Arrival chunks)) : TcpState :=
  arrivals.foldl (fun s a => (s.writeOrdered a.writes a.seq a.payload).1) newTCPState

/-! ## The resequencer a state mirrors -/

/-- The state of a resequencer whose connection has the delivered chunks and
then `part`. -/
def mirror (r : Resequencer Bytes) (part : Bytes) : TcpState :=
  ⟨r.expected, r.reorder, r.output.flatten ++ part⟩

/-- Whether the write of chunk `n` succeeds. -/
def delivers (chunks : List Bytes) (writes : Nat → List ConnWrite) (n : Nat) : Bool :=
  (writeConnAll (writes n) (chunks.getD (n - 1) [])).2

/-- The error `writeOrdered` returns for an outcome of the resequencer. -/
def errorOf : Resequencer.Outcome Bytes → Option WriteOrderedError
  | .beyond => some .window
  | .failed _ => some .write
  | _ => none

/-- A call ends as the resequencer does, with part of the next chunk on the
connection only if a write failed. -/
def Ends (chunks : List Bytes) (result : TcpState × Option WriteOrderedError)
    (outcome : Resequencer Bytes × Resequencer.Outcome Bytes) : Prop :=
  result.2 = errorOf outcome.2 ∧ ∃ part, result.1 = mirror outcome.1 part ∧
    part <+: chunks.getD (outcome.1.expected - 1) [] ∧ (result.2 ≠ some .write → part = [])

variable {chunks : List Bytes} {writes : Nat → List ConnWrite} {r : Resequencer Bytes}

theorem mirror_ends {outcome : Resequencer.Outcome Bytes} {error : Option WriteOrderedError}
    (he : error = errorOf outcome) : Ends chunks (mirror r [], error) (r, outcome) :=
  ⟨he, [], rfl, List.nil_prefix, fun _ => rfl⟩

section Write

variable {payload : Bytes} (hs : chunks[r.expected - 1]? = some payload)

include hs

theorem delivers_expected :
    (writeConnAll (writes r.expected) payload).2 = delivers chunks writes r.expected := by
  rw [delivers, List.getD_eq_getElem?_getD, hs, Option.getD_some]

/-- Writing the expected chunk delivers it. -/
theorem write_delivered (reorder : Table Nat Bytes) (hlt : r.expected + 1 < 2 ^ 64)
    (hok : delivers chunks writes r.expected = true) :
    (⟨(r.expected + 1) % 2 ^ 64, reorder,
        (mirror r []).written ++ (writeConnAll (writes r.expected) payload).1⟩ : TcpState) =
      mirror ⟨r.expected + 1, reorder, r.output ++ [payload]⟩ [] := by
  rw [writeConnAll_complete _ _ ((delivers_expected hs).trans hok), Nat.mod_eq_of_lt hlt]
  simp [mirror]

/-- A failing write leaves a part of the expected chunk on the connection. -/
theorem write_failed (reorder : Table Nat Bytes) :
    Ends chunks (⟨r.expected, reorder,
        (mirror r []).written ++ (writeConnAll (writes r.expected) payload).1⟩, some .write)
      (⟨r.expected, reorder, r.output⟩, .failed payload) := by
  refine ⟨rfl, (writeConnAll (writes r.expected) payload).1, by simp [mirror], ?_, ?_⟩
  · rw [List.getD_eq_getElem?_getD, hs, Option.getD_some]
    exact writeConnAll_prefix _ _
  · intro hne
    exact absurd rfl hne

end Write

/-- The drain loop mirrors the resequencer's, round by round. -/
theorem writeWaiting_ends (hlen : chunks.length + 1 < 2 ^ 64) (fuel : Nat)
    (r : Resequencer Bytes) (hd : Resequencer.Draining maxTCPReorder chunks r) :
    Ends chunks (writeWaiting writes fuel (mirror r []))
      (Resequencer.drain (delivers chunks writes) fuel r) := by
  induction fuel generalizing r with
  | zero => exact mirror_ends rfl
  | succ fuel ih =>
      have hexp : (mirror r []).expected = r.expected := rfl
      have hreo : (mirror r []).reorder = r.reorder := rfl
      simp only [writeWaiting, Resequencer.drain]
      rw [hexp, hreo]
      cases hl : Finmap.lookup r.expected r.reorder with
      | none => exact mirror_ends rfl
      | some next =>
          have hs := (hd.waiting _ _ hl).2.2
          have hbound := (hd.deliver hl).bound
          simp only [delivers_expected hs] at hbound ⊢
          by_cases hok : delivers chunks writes r.expected = true
          · rw [if_pos hok, if_pos hok, write_delivered hs _ (by omega) hok]
            exact ih _ (hd.deliver hl)
          · rw [if_neg hok, if_neg hok]
            exact write_failed hs _

/-- A call mirrors the resequencer's: the subtraction of the window check does
not wrap, and neither does the counter. -/
theorem writeOrdered_ends (hlen : chunks.length + 1 < 2 ^ 64)
    (hf : Resequencer.Follows maxTCPReorder chunks r) (a : Arrival chunks) :
    Ends chunks ((mirror r []).writeOrdered a.writes a.seq a.payload)
      (Resequencer.accept maxTCPReorder (delivers chunks a.writes) r a.seq a.payload) := by
  have hexp : (mirror r []).expected = r.expected := rfl
  have hreo : (mirror r []).reorder = r.reorder := rfl
  have hle := a.seq_le
  rw [writeOrdered, Resequencer.accept, hexp, hreo]
  by_cases hlt : a.seq < r.expected
  · rw [if_pos hlt, if_pos hlt]
    exact mirror_ends rfl
  have hsub : (a.seq + 2 ^ 64 - r.expected) % 2 ^ 64 = a.seq - r.expected := by omega
  rw [if_neg hlt, if_neg hlt, hsub]
  by_cases hwin : maxTCPReorder < a.seq - r.expected
  · rw [if_pos hwin, if_pos hwin]
    exact mirror_ends rfl
  rw [if_neg hwin, if_neg hwin]
  by_cases hahead : r.expected < a.seq
  · rw [if_pos hahead, if_pos hahead]
    by_cases hmem : a.seq ∈ r.reorder
    · rw [if_pos hmem, if_pos hmem]
      exact mirror_ends rfl
    · rw [if_neg hmem, if_neg hmem]
      exact mirror_ends rfl
  rw [if_neg hahead, if_neg hahead]
  have heq : a.seq = r.expected := by omega
  have hs : chunks[r.expected - 1]? = some a.payload := heq ▸ a.sent
  simp only [delivers_expected hs]
  by_cases hok : delivers chunks a.writes r.expected = true
  · rw [if_pos hok, if_pos hok, write_delivered hs _ (by omega) hok]
    exact writeWaiting_ends hlen _ _ (hf.deliver hs)
  · rw [if_neg hok, if_neg hok]
    exact write_failed hs _

/-- What a state has put on its connection and what it holds back: the chunks
before the expected one, then a part of that one, and chunks of the window. -/
structure InOrder (chunks : List Bytes) (s : TcpState) (part : Bytes) : Prop where
  written : s.written = (chunks.take (s.expected - 1)).flatten ++ part
  next : part <+: chunks.getD (s.expected - 1) []
  waiting : ∀ k ∈ s.reorder, s.expected < k ∧ k ≤ s.expected + maxTCPReorder
  size : s.reorder.size ≤ maxTCPReorder

theorem mirror_inOrder (hf : Resequencer.Follows maxTCPReorder chunks r) {part : Bytes}
    (hp : part <+: chunks.getD (r.expected - 1) []) : (mirror r part).InOrder chunks part where
  written := by rw [mirror, hf.output]
  next := hp
  waiting := by
    intro k hk
    obtain ⟨b, hb⟩ := Finmap.mem_iff.mp hk
    obtain ⟨h₁, h₂, -⟩ := hf.waiting k b hb
    exact ⟨h₁, h₂⟩
  size := hf.size_le

/-- One call: the order is kept, and unless a write fails the state is again
that of a resequencer, which retains what it had and the arrived chunk. -/
theorem writeOrdered_step (hlen : chunks.length + 1 < 2 ^ 64)
    (hf : Resequencer.Follows maxTCPReorder chunks r) (a : Arrival chunks) :
    ∃ r' part, ((mirror r []).writeOrdered a.writes a.seq a.payload).1 = mirror r' part ∧
      Resequencer.Follows maxTCPReorder chunks r' ∧ part <+: chunks.getD (r'.expected - 1) [] ∧
      (((mirror r []).writeOrdered a.writes a.seq a.payload).2 ≠ some .write →
        part = [] ∧ (∀ k, r.Retains k → r'.Retains k) ∧
          (a.seq ≤ r.expected + maxTCPReorder → r'.Retains a.seq)) := by
  obtain ⟨herror, part, hstate, hprefix, hpart⟩ := writeOrdered_ends hlen hf a
  refine ⟨_, part, hstate, hf.accept a.sent, hprefix, ?_⟩
  intro hne
  refine ⟨hpart hne, ?_⟩
  rw [herror] at hne
  have hok : (Resequencer.accept maxTCPReorder (delivers chunks a.writes) r a.seq
      a.payload).2.isFailed = false := by
    revert hne
    cases (Resequencer.accept maxTCPReorder (delivers chunks a.writes) r a.seq a.payload).2 <;>
      simp [errorOf, Resequencer.Outcome.isFailed]
  exact ⟨fun k hk => hk.accept hok, (hf.retains_accept_iff hok).mpr⟩

/-! ## Whole runs -/

/-- Chunk `k` arrived, at most the window ahead of the expected chunk. -/
def ArrivedInWindow (arrivals : List (Arrival chunks)) (k : Nat) : Prop :=
  ∃ front a back, arrivals = front ++ a :: back ∧ a.seq = k ∧
    k ≤ (writeAll front).expected + maxTCPReorder

/-- No call returned the error of a write. -/
def WritesSucceed (arrivals : List (Arrival chunks)) : Prop :=
  ∀ front a back, arrivals = front ++ a :: back →
    ((writeAll front).writeOrdered a.writes a.seq a.payload).2 ≠ some .write

theorem writeAll_snoc (arrivals : List (Arrival chunks)) (a : Arrival chunks) :
    writeAll (arrivals ++ [a]) =
      ((writeAll arrivals).writeOrdered a.writes a.seq a.payload).1 := by
  rw [writeAll, List.foldl_append]
  rfl

theorem ArrivedInWindow.of_snoc {arrivals : List (Arrival chunks)} {a : Arrival chunks} {k : Nat}
    (h : ArrivedInWindow (arrivals ++ [a]) k) :
    ArrivedInWindow arrivals k ∨
      (a.seq = k ∧ k ≤ (writeAll arrivals).expected + maxTCPReorder) := by
  obtain ⟨front, b, back, hsplit, hseq, hle⟩ := h
  rcases List.eq_nil_or_concat back with rfl | ⟨back, c, rfl⟩
  · obtain ⟨rfl, hb⟩ := List.append_inj' hsplit rfl
    cases hb
    exact Or.inr ⟨hseq, hle⟩
  · rw [List.concat_eq_append, ← List.cons_append, ← List.append_assoc] at hsplit
    obtain ⟨rfl, -⟩ := List.append_inj' hsplit rfl
    exact Or.inl ⟨front, b, back, rfl, hseq, hle⟩

/-- While the writes succeed the state is that of a resequencer which retains
every chunk that arrived in the window. -/
theorem writeAll_mirrors (hlen : chunks.length + 1 < 2 ^ 64) (arrivals : List (Arrival chunks))
    (hok : WritesSucceed arrivals) :
    ∃ r, writeAll arrivals = mirror r [] ∧ Resequencer.Follows maxTCPReorder chunks r ∧
      ∀ k, ArrivedInWindow arrivals k → r.Retains k := by
  induction arrivals using List.reverseRecOn with
  | nil =>
      refine ⟨Resequencer.fresh, rfl, Resequencer.fresh_follows _ _, ?_⟩
      rintro k ⟨front, a, back, hsplit, -⟩
      simp at hsplit
  | append_singleton rest a ih =>
      obtain ⟨r, hstate, hf, hretains⟩ := ih fun front b back hsplit =>
        hok front b (back ++ [a]) (by rw [hsplit]; simp)
      obtain ⟨r', part, hnext, hf', -, hafter⟩ := writeOrdered_step hlen hf a
      have hlast := hok rest a [] rfl
      rw [hstate] at hlast
      obtain ⟨rfl, hkeep, harrived⟩ := hafter hlast
      refine ⟨r', by rw [writeAll_snoc, hstate, hnext], hf', ?_⟩
      intro k hk
      rcases hk.of_snoc with hk | ⟨rfl, hle⟩
      · exact hkeep k (hretains k hk)
      · rw [hstate] at hle
        exact harrived hle

end TcpState

namespace ReceivedFlow

variable {chunks : List Bytes}

theorem receive_snoc (arrivals : List (Arrival chunks)) (a : Arrival chunks) :
    receive (arrivals ++ [a]) = (receive arrivals).handleTCPData a := by
  rw [receive, List.foldl_append]
  rfl

/-- In every state of a flow the order holds, and a part of the next chunk was
written only if the flow was closed on a failed write. -/
theorem receive_mirrors (hlen : chunks.length + 1 < 2 ^ 64) (arrivals : List (Arrival chunks)) :
    ∃ r part, (receive arrivals).state = TcpState.mirror r part ∧
      Resequencer.Follows maxTCPReorder chunks r ∧ part <+: chunks.getD (r.expected - 1) [] ∧
      ((receive arrivals).error ≠ some .write → part = []) := by
  induction arrivals using List.reverseRecOn with
  | nil =>
      exact ⟨Resequencer.fresh, [], rfl, Resequencer.fresh_follows _ _, List.nil_prefix,
        fun _ => rfl⟩
  | append_singleton rest a ih =>
      obtain ⟨r, part, hstate, hf, hprefix, hpart⟩ := ih
      rw [receive_snoc, handleTCPData]
      cases herror : (receive rest).error with
      | some error =>
          rw [herror] at hpart
          exact ⟨r, part, hstate, hf, hprefix, by rw [herror]; exact hpart⟩
      | none =>
          obtain rfl := hpart (by simp [herror])
          rw [hstate]
          obtain ⟨r', part', hnext, hf', hprefix', hafter⟩ := TcpState.writeOrdered_step hlen hf a
          exact ⟨r', part', hnext, hf', hprefix', fun hne => (hafter hne).1⟩

/-- The flow's state comes from the calls of `writeOrdered` up to the first
error; while it is registered these are all its messages. -/
theorem receive_state (arrivals : List (Arrival chunks)) :
    ∃ reached, reached <+: arrivals ∧ (receive arrivals).state = TcpState.writeAll reached ∧
      ((receive arrivals).error = none → reached = arrivals) := by
  induction arrivals using List.reverseRecOn with
  | nil => exact ⟨[], List.nil_prefix, rfl, fun _ => rfl⟩
  | append_singleton rest a ih =>
      obtain ⟨reached, hprefix, hstate, hall⟩ := ih
      rw [receive_snoc, handleTCPData]
      cases herror : (receive rest).error with
      | some error =>
          refine ⟨reached, hprefix.trans (List.prefix_append _ _), hstate, ?_⟩
          intro hnone
          simp [herror] at hnone
      | none =>
          obtain rfl := hall herror
          exact ⟨reached ++ [a], List.prefix_rfl, by rw [TcpState.writeAll_snoc, hstate],
            fun _ => rfl⟩

/-- Nothing is written for a closed flow. -/
theorem receive_closed (arrivals more : List (Arrival chunks))
    (h : (receive arrivals).error ≠ none) : receive (arrivals ++ more) = receive arrivals := by
  induction more using List.reverseRecOn with
  | nil => rw [List.append_nil]
  | append_singleton rest a ih =>
      rw [← List.append_assoc, receive_snoc, ih, handleTCPData]
      obtain ⟨error, herror⟩ := Option.ne_none_iff_exists'.mp h
      rw [herror]

end ReceivedFlow

/-- Ordered delivery of a flow. Whatever messages arrive, in any order and
with repetitions: the connection has the chunks before the expected one, in
order, and a part of that one only after a failed write, which closes the flow
for good; what is held back lies in the window. If no write fails and the
chunks up to `n` have arrived, none of them ahead of the window, all of them
have been written. -/
theorem tcp_flow_written_in_order (chunks : List Bytes) (hlen : chunks.length + 1 < 2 ^ 64)
    (arrivals : List (Arrival chunks)) :
    (∃ part, (ReceivedFlow.receive arrivals).state.InOrder chunks part ∧
      (part ≠ [] → (ReceivedFlow.receive arrivals).error = some .write)) ∧
    (∀ more, (ReceivedFlow.receive arrivals).error ≠ none →
      ReceivedFlow.receive (arrivals ++ more) = ReceivedFlow.receive arrivals) ∧
    ((ReceivedFlow.receive arrivals).error = none →
      (ReceivedFlow.receive arrivals).state = TcpState.writeAll arrivals) ∧
    (TcpState.WritesSucceed arrivals → ∀ n,
      (∀ k, 0 < k → k ≤ n → TcpState.ArrivedInWindow arrivals k) →
        (TcpState.writeAll arrivals).InOrder chunks [] ∧
          n < (TcpState.writeAll arrivals).expected ∧
          (chunks.take n).flatten <+: (TcpState.writeAll arrivals).written) := by
  refine ⟨?_, fun more => ReceivedFlow.receive_closed arrivals more, ?_, ?_⟩
  · obtain ⟨r, part, hstate, hf, hprefix, hpart⟩ := ReceivedFlow.receive_mirrors hlen arrivals
    refine ⟨part, by rw [hstate]; exact TcpState.mirror_inOrder hf hprefix, ?_⟩
    intro hne
    by_contra herror
    exact hne (hpart herror)
  · intro hnone
    obtain ⟨reached, -, hstate, hall⟩ := ReceivedFlow.receive_state arrivals
    rw [hstate, hall hnone]
  · intro hok n hall
    obtain ⟨r, hstate, hf, hretains⟩ := TcpState.writeAll_mirrors hlen arrivals hok
    have hlt : n < r.expected :=
      hf.lt_expected fun k hpos hle => hretains k (hall k hpos hle)
    have hin : (TcpState.mirror r []).InOrder chunks [] :=
      TcpState.mirror_inOrder hf List.nil_prefix
    rw [hstate]
    refine ⟨hin, hlt, ?_⟩
    have htake : chunks.take n <+: chunks.take (r.expected - 1) :=
      List.take_prefix_take_left (by omega)
    rw [hin.written, List.append_nil]
    exact htake.flatten

/-- Two chunks that arrive in the other order; the second takes two writes. -/
def swappedArrivals : List (Arrival [[1], [2, 3]]) :=
  [⟨1, fun _ => []⟩, ⟨0, fun _ => [⟨1, false⟩, ⟨1, false⟩]⟩]

theorem tcp_flow_written_in_order_swapped :
    ([[1], [2, 3]] : List Bytes).length + 1 < 2 ^ 64 ∧
    TcpState.WritesSucceed swappedArrivals ∧
    2 < (TcpState.writeAll swappedArrivals).expected := by
  have hok : TcpState.WritesSucceed swappedArrivals := by
    intro front a back hsplit
    rcases front with _ | ⟨b, _ | ⟨c, _ | ⟨d, front⟩⟩⟩ <;> simp [swappedArrivals] at hsplit
    · obtain ⟨rfl, -⟩ := hsplit
      decide +kernel
    · obtain ⟨rfl, rfl, -⟩ := hsplit
      decide +kernel
  have harrived : ∀ k, 0 < k → k ≤ 2 → TcpState.ArrivedInWindow swappedArrivals k := by
    intro k hpos hle
    have hk : k = 1 ∨ k = 2 := by omega
    rcases hk with rfl | rfl
    · exact ⟨[⟨1, fun _ => []⟩], ⟨0, fun _ => [⟨1, false⟩, ⟨1, false⟩]⟩, [], rfl, rfl,
        by decide +kernel⟩
    · exact ⟨[], ⟨1, fun _ => []⟩, [⟨0, fun _ => [⟨1, false⟩, ⟨1, false⟩]⟩], rfl, rfl,
        by decide +kernel⟩
  have hlen : ([[1], [2, 3]] : List Bytes).length + 1 < 2 ^ 64 := by decide
  obtain ⟨-, -, -, hcomplete⟩ := tcp_flow_written_in_order [[1], [2, 3]] hlen swappedArrivals
  exact ⟨hlen, hok, (hcomplete hok 2 harrived).2.1⟩

end UnknownTunnel.App

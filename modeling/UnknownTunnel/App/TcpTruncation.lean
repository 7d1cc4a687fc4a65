import UnknownTunnel.App.TcpFlow

/-!
# Truncation of TCP flows

When the peer handles the close message of a flow it may have chunks missing
that travel on the other carrier. Whether some order of arrival truncates the
stream depends only on the carriers the messages were placed on.

## Implementation notes

The last chunks that share the carrier of the close message are the ones that
can overtake. If there are more of them than the reorder window, the peer
gives the flow up with an error before it sees the close message.
-/

namespace UnknownTunnel.App

open Foundation Transport

/-- How many of the last chunks are on the carrier of the close message. -/
def trailing (placed : List (Carrier × Bytes)) (kind : Carrier) : Nat :=
  (placed.reverse.takeWhile fun chunk => chunk.1 = kind).length

/-- Either all chunks are on the carrier of the close message, or the chunk
before the trailing ones is not. -/
theorem trailing_cases (placed : List (Carrier × Bytes)) (kind : Carrier) :
    (∀ chunk ∈ placed, chunk.1 = kind) ∨
    ∃ front chunk back, placed = front ++ chunk :: back ∧ chunk.1 ≠ kind ∧
      (∀ c ∈ back, c.1 = kind) ∧ back.length = trailing placed kind := by
  induction placed using List.reverseRecOn with
  | nil => exact Or.inl nofun
  | append_singleton rest last ih =>
      by_cases hlast : last.1 = kind
      · have hone : trailing (rest ++ [last]) kind = trailing rest kind + 1 := by
          simp [trailing, hlast]
        rcases ih with hall | ⟨front, chunk, back, rfl, hne, hback, hlen⟩
        · left
          intro chunk hmem
          rcases List.mem_append.mp hmem with hmem | hmem
          · exact hall chunk hmem
          · rw [List.mem_singleton.mp hmem]
            exact hlast
        · right
          refine ⟨front, chunk, back ++ [last], by simp, hne, ?_, ?_⟩
          · intro c hc
            rcases List.mem_append.mp hc with hc | hc
            · exact hback c hc
            · rw [List.mem_singleton.mp hc]
              exact hlast
          · rw [hone, List.length_append, hlen, List.length_singleton]
      · right
        refine ⟨rest, last, [], rfl, hlast, nofun, ?_⟩
        simp [trailing, hlast]

namespace PeerFlow

variable {writes : Nat → Bool}

/-- The numbers of the chunks among some messages. -/
def seqs : List FlowMessage → List Nat
  | [] => []
  | .data seq _ :: rest => seq :: seqs rest
  | .close :: rest => seqs rest

theorem seqs_append (a b : List FlowMessage) : seqs (a ++ b) = seqs a ++ seqs b := by
  induction a with
  | nil => rfl
  | cons m rest ih =>
      cases m with
      | data seq payload => simp only [List.cons_append, seqs, ih]
      | close => simpa only [List.cons_append, seqs] using ih

/-- What an open flow knows after some of the chunks have arrived. -/
structure Received (chunks : List Bytes) (arrived : List Nat) (r : Resequencer Bytes) : Prop where
  follows : r.Follows maxTCPReorder chunks
  retained : ∀ seq ∈ arrived, r.Retains seq
  sourced : r.Sourced fun seq _ => seq ∈ arrived

theorem Received.writeOrdered {chunks : List Bytes} {arrived : List Nat} {r : Resequencer Bytes}
    (h : Received chunks arrived r) {seq : Nat} {payload : Bytes}
    (hp : chunks[seq - 1]? = some payload)
    (hok : writeFails (writeOrdered writes r seq payload).2 = false) :
    Received chunks (arrived ++ [seq]) (writeOrdered writes r seq payload).1 := by
  have hnf : (Resequencer.accept maxTCPReorder writes r seq payload).2.isFailed = false := by
    generalize hout : (Resequencer.accept maxTCPReorder writes r seq payload).2 = outcome
    rw [App.writeOrdered, hout] at hok
    cases outcome <;> first | rfl | cases hok
  have hwindow : seq ≤ r.expected + maxTCPReorder := by
    by_contra hgt
    rw [App.writeOrdered, Resequencer.accept_beyond (not_le.mp hgt)] at hok
    cases hok
  constructor
  · exact h.follows.accept hp
  · intro k hk
    rcases List.mem_append.mp hk with hk | hk
    · exact (h.retained k hk).accept hnf
    · rw [List.mem_singleton.mp hk]
      exact (h.follows.retains_accept_iff hnf).mpr hwindow
  · have hmono : r.Sourced fun k _ => k ∈ arrived ++ [seq] :=
      h.sourced.mono fun _ _ hk => List.mem_append_left _ hk
    exact hmono.accept (List.mem_append_right _ (List.mem_singleton_self seq))

/-- An open flow has kept every chunk that arrived, in order. -/
theorem received_of_open {chunks : List Bytes} {messages : List FlowMessage}
    {r : Resequencer Bytes}
    (hm : ∀ m ∈ messages, ∃ seq payload, m = .data seq payload ∧ chunks[seq - 1]? = some payload)
    (h : start.handleAll writes messages = .open r) : Received chunks (seqs messages) r := by
  induction messages using List.reverseRecOn generalizing r with
  | nil =>
      cases h
      exact ⟨Resequencer.fresh_follows _ _, nofun, Resequencer.fresh_sourced _⟩
  | append_singleton rest m ih =>
      obtain ⟨seq, payload, rfl, hp⟩ := hm m (by simp)
      rw [handleAll_append] at h
      cases hrest : start.handleAll writes rest with
      | failed =>
          rw [hrest, handleAll_failed] at h
          cases h
      | closed written =>
          rw [hrest, handleAll_closed] at h
          cases h
      | «open» r₀ =>
          have hr₀ := ih (fun m hmem => hm m (List.mem_append_left _ hmem)) hrest
          rw [hrest] at h
          change (PeerFlow.open r₀).handleTCPData writes seq payload = .open r at h
          rw [handleTCPData] at h
          cases hfail : writeFails (App.writeOrdered writes r₀ seq payload).2 with
          | true =>
              rw [if_pos hfail] at h
              cases h
          | false =>
              rw [if_neg (by simp [hfail])] at h
              cases h
              rw [seqs_append]
              exact hr₀.writeOrdered hp hfail

/-- When every chunk has arrived, every chunk has been written. -/
theorem Received.complete {chunks : List Bytes} {arrived : List Nat} {r : Resequencer Bytes}
    (h : Received chunks arrived r)
    (hall : ∀ seq, 0 < seq → seq ≤ chunks.length → seq ∈ arrived) : r.output = chunks := by
  have hend : chunks.length < r.expected :=
    h.follows.lt_expected fun seq hpos hle => h.retained seq (hall seq hpos hle)
  rw [h.follows.output]
  exact List.take_of_length_le (by omega)

/-- A flow does not get past a chunk that has not arrived. -/
theorem Received.expected_le {chunks : List Bytes} {arrived : List Nat} {r : Resequencer Bytes}
    (h : Received chunks arrived r) {seq : Nat} (hpos : 0 < seq) (hseq : seq ∉ arrived) :
    r.expected ≤ seq := by
  by_contra hgt
  have hlen := h.sourced.expected
  have hlt : seq - 1 < r.output.length := by omega
  have hin := h.sourced.output (seq - 1) _ (List.getElem?_eq_getElem hlt)
  rw [Nat.sub_add_cancel hpos] at hin
  exact hseq hin

/-- Chunks that arrive in order are written at once. -/
theorem handleAll_in_order (placed : List (Carrier × Bytes)) (seq : Nat) (written : List Bytes) :
    (PeerFlow.open ⟨seq, ∅, written⟩).handleAll (fun _ => true)
        ((numbered seq placed).map Prod.snd) =
      .open ⟨seq + placed.length, ∅, written ++ placed.map Prod.snd⟩ := by
  induction placed generalizing seq written with
  | nil => simp [numbered, handleAll]
  | cons chunk rest ih =>
      obtain ⟨kind, payload⟩ := chunk
      have hstep : (PeerFlow.open ⟨seq, ∅, written⟩).handleTCPData (fun _ => true) seq payload =
          .open ⟨seq + 1, ∅, written ++ [payload]⟩ := by
        simp [handleTCPData, writeOrdered, Resequencer.accept, Resequencer.drain, writeFails]
      change ((PeerFlow.open ⟨seq, ∅, written⟩).handleTCPData (fun _ => true) seq payload).handleAll
        _ ((numbered (seq + 1) rest).map Prod.snd) = _
      rw [hstep, ih]
      simp only [List.length_cons, List.map_cons, List.append_assoc, List.singleton_append]
      rw [show seq + 1 + rest.length = seq + (rest.length + 1) by omega]

/-- Chunks within the window but ahead of a missing one are only kept. -/
theorem handleAll_ahead (writes : Nat → Bool) (r : Resequencer Bytes)
    (placed : List (Carrier × Bytes)) (seq : Nat)
    (hahead : r.expected < seq) (hwindow : seq + placed.length ≤ r.expected + maxTCPReorder + 1) :
    ∃ r', (PeerFlow.open r).handleAll writes ((numbered seq placed).map Prod.snd) = .open r' ∧
      r'.output = r.output := by
  induction placed generalizing seq r with
  | nil => exact ⟨r, rfl, rfl⟩
  | cons chunk rest ih =>
      obtain ⟨kind, payload⟩ := chunk
      rw [List.length_cons] at hwindow
      obtain ⟨r₁, hr₁, hexp, hout⟩ : ∃ r₁, (PeerFlow.open r).handleTCPData writes seq payload =
          .open r₁ ∧ r₁.expected = r.expected ∧ r₁.output = r.output := by
        rw [handleTCPData, writeOrdered, Resequencer.accept_held hahead (by omega)]
        refine ⟨_, if_neg Bool.false_ne_true, ?_, ?_⟩ <;> dsimp only <;> split <;> rfl
      obtain ⟨r', hr', hout'⟩ := ih r₁ (seq + 1) (by omega) (by omega)
      refine ⟨r', ?_, hout'.trans hout⟩
      change ((PeerFlow.open r).handleTCPData writes seq payload).handleAll writes
        ((numbered (seq + 1) rest).map Prod.snd) = _
      rw [hr₁]
      exact hr'

theorem mem_seqs {messages : List FlowMessage} {seq : Nat} {payload : Bytes}
    (h : .data seq payload ∈ messages) : seq ∈ seqs messages := by
  obtain ⟨front, back, rfl⟩ := List.append_of_mem h
  rw [seqs_append]
  exact List.mem_append_right _ List.mem_cons_self

/-- A flow that is still open was open before each of its messages. -/
theorem open_of_append {a b : List FlowMessage} {r : Resequencer Bytes}
    (h : start.handleAll writes (a ++ b) = .open r) :
    ∃ r₀, start.handleAll writes a = .open r₀ ∧
      (PeerFlow.open r₀).handleAll writes b = .open r := by
  rw [handleAll_append] at h
  cases ha : start.handleAll writes a with
  | failed =>
      rw [ha, handleAll_failed] at h
      cases h
  | closed written =>
      rw [ha, handleAll_closed] at h
      cases h
  | «open» r₀ => exact ⟨r₀, rfl, ha ▸ h⟩

/-- A chunk more than a window ahead of a missing one ends the flow. -/
theorem not_open_of_far {chunks : List Bytes} {messages : List FlowMessage}
    {r : Resequencer Bytes}
    (hm : ∀ m ∈ messages, ∃ seq payload, m = .data seq payload ∧ chunks[seq - 1]? = some payload)
    (h : start.handleAll writes messages = .open r) {missing seq : Nat} {payload : Bytes}
    (hpos : 0 < missing) (hmissing : missing ∉ seqs messages)
    (hfar : missing + maxTCPReorder < seq) : .data seq payload ∉ messages := by
  intro hmem
  obtain ⟨front, back, rfl⟩ := List.append_of_mem hmem
  obtain ⟨r₀, hfront, hback⟩ := open_of_append h
  have hr₀ := received_of_open (fun m hmem => hm m (List.mem_append_left _ hmem)) hfront
  have hexp : r₀.expected ≤ missing := by
    apply hr₀.expected_le hpos
    intro hin
    apply hmissing
    rw [seqs_append]
    exact List.mem_append_left _ hin
  have hfailed : (PeerFlow.open r₀).handleTCPData writes seq payload = .failed := by
    rw [handleTCPData, writeOrdered, Resequencer.accept_beyond (by omega)]
    rfl
  change ((PeerFlow.open r₀).handleTCPData writes seq payload).handleAll writes back = _ at hback
  rw [hfailed, handleAll_failed] at hback
  cases hback

end PeerFlow

/-! ## Arrival orders -/

section Arrival

variable {placed : List (Carrier × Bytes)} {kind : Carrier}

theorem Arrives.mem {sent arrived : List (Carrier × FlowMessage)} (h : Arrives sent arrived)
    {m : Carrier × FlowMessage} (hm : m ∈ arrived) : m ∈ sent := by
  have hin : m ∈ arrived.filter fun x => x.1 = m.1 := by simpa using hm
  have hsent := (h m.1).subset hin
  exact (List.mem_filter.mp hsent).1

/-- A list that ends in a new element has one beginning that contains it. -/
theorem eq_of_append_cons_isBeginning {α : Type*} {l l' t : List α} {x : α} (hx : x ∉ l')
    (h : l ++ x :: t <+: l' ++ [x]) : l = l' := by
  obtain ⟨s, hs⟩ := h
  rw [List.append_assoc] at hs
  rcases List.append_eq_append_iff.mp hs with ⟨z, hz, htail⟩ | ⟨z, hz, htail⟩
  · cases z with
    | nil => rw [hz, List.append_nil]
    | cons y z =>
        rw [List.cons_append, List.cons_append] at htail
        obtain ⟨rfl, -⟩ := List.cons.inj htail
        refine absurd ?_ hx
        rw [hz]
        exact List.mem_append_right _ List.mem_cons_self
  · cases z with
    | nil => rw [hz, List.append_nil]
    | cons y z =>
        have hlen := congrArg List.length htail
        simp at hlen

theorem close_notMem_numbered (seq : Nat) : (kind, FlowMessage.close) ∉ numbered seq placed := by
  intro h
  obtain ⟨i, k, p, -, heq⟩ := mem_numbered.mp h
  cases heq

/-- Before the close message arrives, every chunk of its carrier has arrived,
and nothing but chunks. -/
theorem Arrives.before_close {before after : List (Carrier × FlowMessage)} {k : Carrier}
    (h : Arrives (numbered 1 placed ++ [(kind, .close)]) (before ++ (k, .close) :: after))
    (hnone : .close ∉ before.map Prod.snd) :
    (∀ m ∈ before, m ∈ numbered 1 placed) ∧
      ∀ m ∈ numbered 1 placed, m.1 = kind → m ∈ before := by
  have hk : k = kind := by
    have hmem := h.mem (m := (k, .close)) (by simp)
    rcases List.mem_append.mp hmem with hmem | hmem
    · exact absurd hmem (close_notMem_numbered 1)
    · simpa using hmem
  subst hk
  constructor
  · intro m hm
    rcases List.mem_append.mp (h.mem (List.mem_append_left _ hm)) with hmem | hmem
    · exact hmem
    · rw [List.mem_singleton.mp hmem] at hm
      exact absurd (List.mem_map_of_mem (f := Prod.snd) hm) hnone
  · intro m hm hcarrier
    have hfilter := h k
    simp only [List.filter_append, List.filter_cons, decide_true, if_true, List.filter_nil]
      at hfilter
    have hnot : (k, FlowMessage.close) ∉ (numbered 1 placed).filter fun m => m.1 = k := fun hmem =>
      close_notMem_numbered 1 (List.mem_filter.mp hmem).1
    have heq := eq_of_append_cons_isBeginning hnot hfilter
    have hin : m ∈ before.filter fun m => m.1 = k := by
      rw [heq, List.mem_filter]
      exact ⟨hm, by simpa using hcarrier⟩
    exact (List.mem_filter.mp hin).1

/-- No order of arrival truncates the stream if nothing can overtake, or if
too much would have to. -/
theorem not_truncated
    (hplaced : (∀ chunk ∈ placed, chunk.1 = kind) ∨ maxTCPReorder < trailing placed kind)
    {writes : Nat → Bool} {arrived : List (Carrier × FlowMessage)} {written : List Bytes}
    (ha : Arrives (numbered 1 placed ++ [(kind, .close)]) arrived)
    (h : PeerFlow.start.handleAll writes (arrived.map Prod.snd) = .closed written) :
    written = placed.map Prod.snd := by
  obtain ⟨front, back, r, hsplit, hnone, hopen, rfl⟩ := PeerFlow.handleAll_eq_closed h
  obtain ⟨before, rest, rfl, rfl, hrest⟩ := List.map_eq_append_iff.mp hsplit
  obtain ⟨⟨k, m⟩, after, rfl, hm, -⟩ := List.map_eq_cons_iff.mp hrest
  cases hm
  obtain ⟨hchunks, hcarrier⟩ := ha.before_close hnone
  have hdata : ∀ m ∈ before.map Prod.snd, ∃ seq payload, m = .data seq payload ∧
      (placed.map Prod.snd)[seq - 1]? = some payload := by
    intro m hm
    obtain ⟨x, hx, rfl⟩ := List.mem_map.mp hm
    obtain ⟨i, c, payload, hi, rfl⟩ := mem_numbered.mp (hchunks x hx)
    refine ⟨1 + i, payload, rfl, ?_⟩
    rw [Nat.add_sub_cancel_left, List.getElem?_map, hi]
    rfl
  have harrived : ∀ i c payload, placed[i]? = some (c, payload) → c = kind →
      FlowMessage.data (1 + i) payload ∈ before.map Prod.snd := by
    intro i c payload hi hc
    have hmem := hcarrier _ (mem_numbered.mpr ⟨i, c, payload, hi, rfl⟩) hc
    exact List.mem_map_of_mem (f := Prod.snd) hmem
  have hreceived := PeerFlow.received_of_open hdata hopen
  apply hreceived.complete
  intro seq hpos hle
  rw [List.length_map] at hle
  have hindex : placed[seq - 1]? = some placed[seq - 1] := List.getElem?_eq_getElem (by omega)
  by_contra hmissing
  have hother : (placed[seq - 1]).1 ≠ kind := by
    intro hc
    apply hmissing
    have hin := harrived (seq - 1) _ _ hindex hc
    rw [show 1 + (seq - 1) = seq by omega] at hin
    exact PeerFlow.mem_seqs hin
  rcases hplaced with hall | hfar
  · exact hother (hall _ (List.getElem_mem _))
  · rcases trailing_cases placed kind with hall | ⟨head, chunk, tail, hsplit, -, htail, hlen⟩
    · exact hother (hall _ (List.getElem_mem _))
    · have hsize : placed.length = head.length + 1 + tail.length := by
        rw [hsplit, List.length_append, List.length_cons]
        omega
      have hlate : ∀ i chunk, head.length < i → placed[i]? = some chunk → chunk.1 = kind := by
        intro i chunk hi hget
        obtain ⟨j, rfl⟩ := Nat.exists_eq_add_of_lt hi
        rw [hsplit, show head.length + j + 1 = head.length + (j + 1) by omega,
          List.getElem?_append_right (by omega), Nat.add_sub_cancel_left,
          List.getElem?_cons_succ] at hget
        exact htail chunk (List.mem_of_getElem? hget)
      have hearly : seq - 1 ≤ head.length := by
        by_contra hgt
        exact hother (hlate (seq - 1) _ (not_le.mp hgt) hindex)
      have hget : placed[head.length + 1 + maxTCPReorder]? =
          some placed[head.length + 1 + maxTCPReorder] := List.getElem?_eq_getElem (by omega)
      have hin := harrived _ _ _ hget (hlate _ _ (by omega) hget)
      exact PeerFlow.not_open_of_far hdata hopen hpos hmissing (by omega) hin

/-- Otherwise some order of arrival truncates it. -/
theorem truncated (hother : ∃ chunk ∈ placed, chunk.1 ≠ kind)
    (hnear : trailing placed kind ≤ maxTCPReorder) :
    ∃ arrived written, Arrives (numbered 1 placed ++ [(kind, .close)]) arrived ∧
      PeerFlow.start.handleAll (fun _ => true) (arrived.map Prod.snd) = .closed written ∧
      written.length < placed.length := by
  rcases trailing_cases placed kind with hall | ⟨head, chunk, tail, rfl, hne, htail, hlen⟩
  · obtain ⟨chunk, hmem, hne⟩ := hother
    exact absurd (hall chunk hmem) hne
  -- The chunk on the other carrier is overtaken by all that follow it.
  refine ⟨numbered 1 head ++ numbered (1 + head.length + 1) tail ++ [(kind, .close)],
    head.map Prod.snd, ?_, ?_, ?_⟩
  · obtain ⟨other, payload⟩ := chunk
    intro k
    rw [numbered_append, numbered]
    simp only [List.filter_append, List.filter_cons]
    by_cases hk : other = k
    · have hempty : (numbered (1 + head.length + 1) tail).filter (fun m => m.1 = k) = [] := by
        rw [List.filter_eq_nil_iff]
        intro m hm
        obtain ⟨i, c, p, hi, rfl⟩ := mem_numbered.mp hm
        have hc := htail (c, p) (List.mem_of_getElem? hi)
        simp only [decide_eq_true_eq]
        rw [show c = kind from hc, ← hk]
        exact fun h => hne h.symm
      have hclose : ¬ kind = k := fun h => hne (hk.trans h.symm)
      simp only [hempty, hclose, hk, decide_true, decide_false, if_true, List.filter_nil,
        List.append_nil, Bool.false_eq_true, if_false]
      exact List.prefix_append _ _
    · simp only [hk, decide_false, Bool.false_eq_true, if_false, List.append_assoc]
      exact List.prefix_rfl
  · rw [List.map_append, List.map_append, PeerFlow.handleAll_append, PeerFlow.handleAll_append]
    have hhead := PeerFlow.handleAll_in_order head 1 []
    rw [List.nil_append] at hhead
    obtain ⟨r, hr, hout⟩ := PeerFlow.handleAll_ahead (fun _ => true)
      ⟨1 + head.length, ∅, head.map Prod.snd⟩ tail (1 + head.length + 1) (by simp)
      (by simp only; omega)
    rw [PeerFlow.start, Resequencer.fresh, hhead, hr]
    change PeerFlow.closed r.output = _
    rw [hout]
  · rw [List.length_map, List.length_append, List.length_cons]
    omega

end Arrival

/-- When every send of a flow succeeds and its chunks can be numbered, handling
the close message never truncates the stream, whatever the order of arrival and
the outcome of writes, exactly if all chunks went out on the carrier of the close
message or more of the last ones did than the peer reorders. -/
theorem tcp_close_after_all_chunks_iff (cfg : TransportConfig) (reads : List (Bytes × Attempt))
    (closing : Attempt) (placed : List (Carrier × Bytes)) (kind : Carrier)
    (hplaced : placement cfg reads = some placed)
    (hclose : sendPath closing (sendOrder cfg) = some kind) (hcount : reads.length + 1 < 2 ^ 64) :
    (∀ writes arrived written, Arrives (pumpTCP cfg closing 1 reads) arrived →
      PeerFlow.start.handleAll writes (arrived.map Prod.snd) = .closed written →
      written = reads.map Prod.fst) ↔
    (∀ chunk ∈ placed, chunk.1 = kind) ∨ 4096 < trailing placed kind := by
  rw [pumpTCP_of_placement hclose hplaced (by omega), ← payloads_of_placement hplaced]
  constructor
  · intro h
    by_contra hnot
    simp only [not_or, not_forall, not_lt] at hnot
    obtain ⟨⟨chunk, hmem, hne⟩, hnear⟩ := hnot
    obtain ⟨arrived, written, ha, hclosed, hlen⟩ := truncated ⟨chunk, hmem, hne⟩ hnear
    rw [h _ arrived written ha hclosed, List.length_map] at hlen
    exact absurd hlen (lt_irrefl _)
  · intro hcond writes arrived written ha hclosed
    exact not_truncated hcond ha hclosed

/-- The preferred carrier has a session, or only the standby has. -/
def preferredUp : Attempt := fun _ => .sent

def udpDown : Attempt := fun kind => if kind = .udp then .failed else .sent

theorem tcp_close_after_all_chunks_iff_one_carrier :
    placement ⟨.both, .udp⟩ [([1], preferredUp), ([2], preferredUp)] =
        some [(.udp, [1]), (.udp, [2])] ∧
      ∀ writes arrived written,
        Arrives (pumpTCP ⟨.both, .udp⟩ preferredUp 1 [([1], preferredUp), ([2], preferredUp)])
          arrived →
        PeerFlow.start.handleAll writes (arrived.map Prod.snd) = .closed written →
        written = [[1], [2]] :=
  ⟨rfl, (tcp_close_after_all_chunks_iff ⟨.both, .udp⟩ [([1], preferredUp), ([2], preferredUp)]
    preferredUp [(.udp, [1]), (.udp, [2])] .udp rfl rfl (by decide)).mpr (Or.inl (by decide))⟩

/-- One chunk goes out on the preferred carrier, which then fails, so the close
message goes out on the other one and arrives first. -/
theorem tcp_close_overtakes_chunk :
    pumpTCP ⟨.both, .udp⟩ udpDown 1 [([1], preferredUp)] =
        [(.udp, .data 1 [1]), (.tcp, .close)] ∧
      Arrives (pumpTCP ⟨.both, .udp⟩ udpDown 1 [([1], preferredUp)])
        [(.tcp, .close), (.udp, .data 1 [1])] ∧
      PeerFlow.start.handleAll (fun _ => true) [.close, .data 1 [1]] = .closed [] := by
  refine ⟨rfl, ?_, rfl⟩
  intro kind
  cases kind <;> decide

end UnknownTunnel.App

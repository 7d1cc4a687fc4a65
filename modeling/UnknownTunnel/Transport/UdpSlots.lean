import UnknownTunnel.Transport.UdpRetention

/-!
# The retransmission slots

A token in `slots` is taken by a `Send` call before its entry exists and is
given back by whoever removes the entry: the acknowledgement handler, or the
call itself when its write fails. The handler gives a token back only if it
removed an entry. A failing `Send` call does so in any case, so the tokens are
balanced exactly along the runs in which such a call finds its entry.

## Implementation notes

The acknowledgement handler removes the entry and gives the token back in two
steps. Between them it owes one token, which the balance counts.
-/

namespace UnknownTunnel.Transport

open Foundation

/-- A `Send` call that holds a token and has no entry of its own. -/
def SendCall.owns : SendCall → Bool
  | .holding _ => true
  | .sealed _ _ => true
  | .failing _ => true
  | _ => false

/-- The number of a call that is about to insert its entry. -/
def SendCall.sealedSeq : SendCall → Option Nat
  | .sealed seq _ => some seq
  | _ => none

namespace UdpSession

variable {C : Crypto} {s : UdpSession} {e : UdpEvent}

/-- The numbers of entries and of calls about to insert one are allocated, and
no number is used twice. -/
structure Numbered (s : UdpSession) : Prop where
  pending_le : ∀ seq ∈ s.pending, seq ≤ s.sendSeq
  sealed_le : ∀ seq packet, .sealed seq packet ∈ s.sends → seq ≤ s.sendSeq ∧ seq ∉ s.pending
  nodup : (s.sends.filterMap SendCall.sealedSeq).Nodup

theorem mem_sealedSeqs {calls : List SendCall} {seq : Nat} :
    seq ∈ calls.filterMap SendCall.sealedSeq ↔ ∃ packet, .sealed seq packet ∈ calls := by
  rw [List.mem_filterMap]
  constructor
  · rintro ⟨call, hmem, hseq⟩
    cases call with
    | sealed k packet =>
        cases hseq
        exact ⟨packet, hmem⟩
    | _ => cases hseq
  · rintro ⟨packet, hmem⟩
    exact ⟨_, hmem, rfl⟩

/-- Entries may be removed and calls may move on without inserting. -/
theorem Numbered.of_shrink (h : s.Numbered) {t : UdpSession} (hseq : t.sendSeq = s.sendSeq)
    (hp : ∀ seq ∈ t.pending, seq ∈ s.pending)
    (hm : ∀ seq packet, .sealed seq packet ∈ t.sends → .sealed seq packet ∈ s.sends)
    (hn : (t.sends.filterMap SendCall.sealedSeq).Sublist
      (s.sends.filterMap SendCall.sealedSeq)) : t.Numbered where
  pending_le := fun seq hseq' => hseq ▸ h.pending_le seq (hp seq hseq')
  sealed_le := by
    intro seq packet hmem
    obtain ⟨hle, hnot⟩ := h.sealed_le seq packet (hm seq packet hmem)
    exact ⟨hseq ▸ hle, fun hin => hnot (hp seq hin)⟩
  nodup := h.nodup.sublist hn

/-- A call that replaces another one and is not about to insert. -/
theorem Numbered.of_erase (h : s.Numbered) {t : UdpSession} {old : SendCall}
    (hseq : t.sendSeq = s.sendSeq) (hp : ∀ seq ∈ t.pending, seq ∈ s.pending)
    (ht : t.sends = s.sends.erase old ∨
      ∃ new : SendCall, new.sealedSeq = none ∧ t.sends = new :: s.sends.erase old) :
    t.Numbered := by
  have hsub : (s.sends.erase old).Sublist s.sends := List.erase_sublist
  rcases ht with ht | ⟨new, hnew, ht⟩
  · refine h.of_shrink hseq hp ?_ (by rw [ht]; exact hsub.filterMap _)
    intro seq packet hmem
    exact hsub.subset (ht ▸ hmem)
  · refine h.of_shrink hseq hp ?_ ?_
    · intro seq packet hmem
      rw [ht, List.mem_cons] at hmem
      rcases hmem with rfl | hmem
      · cases hnew
      · exact hsub.subset hmem
    · rw [ht, List.filterMap_cons_none hnew]
      exact hsub.filterMap _

theorem Numbered.apply (h : s.Numbered) (he : s.enabled e) : (s.apply C e).Numbered := by
  cases e with
  | packetLoop io =>
      obtain ⟨packet, rest, hq, ho⟩ := packetLoop_outcome C he
      obtain ⟨-, hseq, -, hsends, -⟩ := ho.frame
      refine h.of_shrink hseq ?_ (by rw [hsends]; exact fun _ _ => id) (by rw [hsends])
      intro seq hmem
      generalize s.apply C (.packetLoop io) = t at ho hmem
      generalize s.acked C (.packetLoop io) = acked at ho
      cases ho with
      | released hv hm => exact (Finmap.mem_erase.mp hmem).2
      | _ => exact hmem
  | deliver packet =>
      rcases deliverPacket_cases s packet with h' | ⟨_, h'⟩ | h' <;>
        simp only [UdpSession.apply, h'] <;> exact ⟨h.pending_le, h.sealed_le, h.nodup⟩
  | sendCheck payload =>
      refine h.of_shrink rfl (fun _ => id) ?_ ?_
      · intro seq packet hmem
        simpa [UdpSession.apply] using hmem
      · rw [UdpSession.apply, List.filterMap_cons_none rfl]
  | sendRefuse payload => exact h.of_erase rfl (fun _ => id) (Or.inl rfl)
  | sendAcquire payload => exact h.of_erase rfl (fun _ => id) (Or.inr ⟨_, rfl, rfl⟩)
  | sendSeal payload =>
      have hsub : (s.sends.erase (.holding payload)).Sublist s.sends := List.erase_sublist
      refine ⟨fun seq hmem => (h.pending_le seq hmem).trans (Nat.le_succ _), ?_, ?_⟩
      · intro seq packet hmem
        simp only [UdpSession.apply, List.mem_cons, SendCall.sealed.injEq] at hmem ⊢
        rcases hmem with ⟨rfl, -⟩ | hmem
        · exact ⟨le_rfl, fun hin => absurd (h.pending_le _ hin) (by omega)⟩
        · obtain ⟨hle, hnot⟩ := h.sealed_le seq packet (hsub.subset hmem)
          exact ⟨by omega, hnot⟩
      · simp only [UdpSession.apply, List.filterMap_cons, SendCall.sealedSeq, List.nodup_cons]
        refine ⟨?_, h.nodup.sublist (hsub.filterMap _)⟩
        intro hmem
        obtain ⟨packet, hmem⟩ := mem_sealedSeqs.mp hmem
        have hle := (h.sealed_le _ packet (hsub.subset hmem)).1
        omega
  | sendInsert seq packet =>
      have hsub : (s.sends.erase (.sealed seq packet)).Sublist s.sends := List.erase_sublist
      have hnodup : (seq :: (s.sends.erase (.sealed seq packet)).filterMap
          SendCall.sealedSeq).Nodup :=
        ((List.perm_cons_erase he).filterMap SendCall.sealedSeq).nodup_iff.mp h.nodup
      rw [List.nodup_cons] at hnodup
      refine ⟨?_, ?_, ?_⟩
      · intro k hmem
        rcases Finmap.mem_insert.mp hmem with rfl | hmem
        · exact (h.sealed_le _ _ he).1
        · exact h.pending_le k hmem
      · intro k packet' hmem
        simp only [UdpSession.apply, List.mem_cons, reduceCtorEq, false_or] at hmem
        obtain ⟨hle, hnot⟩ := h.sealed_le k packet' (hsub.subset hmem)
        refine ⟨hle, fun hin => ?_⟩
        rcases Finmap.mem_insert.mp hin with rfl | hin
        · exact hnodup.1 (mem_sealedSeqs.mpr ⟨packet', hmem⟩)
        · exact hnot hin
      · rw [UdpSession.apply, List.filterMap_cons_none rfl]
        exact hnodup.2
  | sendWrite seq packet ok =>
      cases ok with
      | true => exact h.of_erase rfl (fun _ => id) (Or.inl rfl)
      | false =>
          exact h.of_erase rfl (fun _ hmem => (Finmap.mem_erase.mp hmem).2)
            (Or.inr ⟨_, rfl, rfl⟩)
  | sendRelease seq => exact h.of_erase rfl (fun _ => id) (Or.inl rfl)
  | retransmit due failAt =>
      refine h.of_shrink rfl ?_ (fun _ _ => id) (List.Sublist.refl _)
      intro seq hmem
      exact (mem_retransmitScan due s.pending seq).mp hmem
  | loopRelease | loopReturn | close => exact ⟨h.pending_le, h.sealed_le, h.nodup⟩

/-- The tokens are those of the entries, of the calls without an entry and of
the acknowledgement handler between its two steps. -/
structure Balanced (s : UdpSession) : Prop where
  tokens : s.slots = s.pending.size + s.sends.countP SendCall.owns + s.loop.owed
  capacity : s.slots ≤ maxUDPPending

/-- A failing write finds the entry of its packet, so no acknowledgement has
removed it and given its token back. -/
def FindsEntry (s : UdpSession) : UdpEvent → Prop
  | .sendWrite seq _ false => seq ∈ s.pending
  | _ => True

instance decidableFindsEntry (s : UdpSession) : ∀ e, Decidable (s.FindsEntry e)
  | .sendWrite seq _ false => inferInstanceAs (Decidable (seq ∈ s.pending))
  | .sendWrite _ _ true => isTrue trivial
  | .sendCheck _ | .sendRefuse _ | .sendAcquire _ | .sendSeal _ | .sendInsert _ _
  | .sendRelease _ | .deliver _ | .packetLoop _ | .loopRelease | .loopReturn
  | .retransmit _ _ | .close => isTrue trivial

theorem Balanced.apply (h : s.Balanced) (hn : s.Numbered) (he : s.enabled e)
    (hok : s.FindsEntry e) : (s.apply C e).Balanced := by
  obtain ⟨htokens, hcap⟩ := h
  cases e with
  | packetLoop io =>
      simp only [he.1, LoopState.owed] at htokens
      obtain ⟨packet, rest, hq, hout⟩ := packetLoop_outcome C he
      generalize s.apply C (.packetLoop io) = t at hout ⊢
      generalize s.acked C (.packetLoop io) = acked at hout
      cases hout with
      | ignored => exact ⟨by simpa only [he.1, LoopState.owed] using htokens, hcap⟩
      | released hv hm =>
          have hsize := Table.size_erase_of_mem hm
          exact ⟨by simp only [LoopState.owed]; omega, hcap⟩
      | accepted plaintext hopen hw =>
          refine ⟨?_, hcap⟩
          simp only
          split <;> exact htokens
      | unacknowledged plaintext hopen hw => exact ⟨htokens, hcap⟩
  | sendCheck payload => exact ⟨by simpa [UdpSession.apply, SendCall.owns] using htokens, hcap⟩
  | sendRefuse payload =>
      rw [countP_calls_erase SendCall.owns he] at htokens
      exact ⟨htokens, hcap⟩
  | sendAcquire payload =>
      rw [countP_calls_erase SendCall.owns he.1] at htokens
      refine ⟨?_, he.2⟩
      simp only [UdpSession.apply, List.countP_cons, SendCall.owns, if_true, Bool.false_eq_true,
        if_false] at htokens ⊢
      omega
  | sendSeal payload =>
      rw [countP_calls_erase SendCall.owns he.1] at htokens
      refine ⟨?_, hcap⟩
      simpa only [UdpSession.apply, List.countP_cons, SendCall.owns, if_true] using htokens
  | sendInsert seq packet =>
      rw [countP_calls_erase SendCall.owns he] at htokens
      have hsize := Table.size_insert_of_notMem (hn.sealed_le seq packet he).2
        (⟨packet, 0⟩ : PendingDatagram)
      refine ⟨?_, hcap⟩
      simp only [UdpSession.apply, List.countP_cons, SendCall.owns, if_true, Bool.false_eq_true,
        if_false] at htokens ⊢
      omega
  | sendWrite seq packet ok =>
      rw [countP_calls_erase SendCall.owns he] at htokens
      cases ok with
      | true => exact ⟨htokens, hcap⟩
      | false =>
          have hsize := Table.size_erase_of_mem hok
          refine ⟨?_, hcap⟩
          simp only [UdpSession.apply, List.countP_cons, SendCall.owns, if_true,
            Bool.false_eq_true, if_false] at htokens ⊢
          omega
  | sendRelease seq =>
      rw [countP_calls_erase SendCall.owns he.1] at htokens
      simp only [SendCall.owns, if_true] at htokens
      exact ⟨by simp only [UdpSession.apply]; omega, by simp only [UdpSession.apply]; omega⟩
  | deliver packet =>
      rcases deliverPacket_cases s packet with h' | ⟨_, h'⟩ | h' <;>
        simp only [UdpSession.apply, h'] <;> exact ⟨htokens, hcap⟩
  | loopRelease =>
      obtain ⟨hl, hslots⟩ := he
      simp only [hl, LoopState.owed] at htokens
      refine ⟨?_, by simp only [UdpSession.apply]; omega⟩
      simp only [UdpSession.apply, LoopState.owed]
      omega
  | loopReturn =>
      simp only [he.1, LoopState.owed] at htokens
      exact ⟨htokens, hcap⟩
  | retransmit due failAt =>
      refine ⟨?_, hcap⟩
      simp only [UdpSession.apply, size_retransmitScan]
      exact htokens
  | close => exact ⟨htokens, hcap⟩

end UdpSession

/-- A session from `newUDPSession` on, with every interleaving of its goroutines, any delivered
datagrams and any outcomes of its writes. -/
def newSessionMachine (C : Crypto) : Machine UdpSession UdpEvent where
  init s := ∃ sessionID sendKey recvKey sendACK recvACK,
    s = newUDPSession sessionID sendKey recvKey sendACK recvACK
  enabled := UdpSession.enabled
  apply := UdpSession.apply C

instance (C : Crypto) : ∀ s e, Decidable ((newSessionMachine C).enabled s e) :=
  UdpSession.decidableEnabled

variable {C : Crypto} {s : UdpSession}

theorem numbered_of_reachable (run : (newSessionMachine C).Reachable s) : s.Numbered := by
  apply run.invariant
  · rintro s ⟨sessionID, sendKey, recvKey, sendACK, recvACK, rfl⟩
    exact ⟨nofun, nofun, List.nodup_nil⟩
  · intro s e h he
    exact h.apply he

theorem balanced_of_reachable
    (run : (newSessionMachine C).ReachableUnder UdpSession.FindsEntry s) : s.Balanced := by
  apply run.invariant (fun s run => numbered_of_reachable run.reachable)
  · rintro s ⟨sessionID, sendKey, recvKey, sendACK, recvACK, rfl⟩
    exact ⟨rfl, Nat.zero_le _⟩
  · intro s e hn h he hok
    exact h.apply hn he hok

/-- In a run in which every failing write finds its entry the tokens balance,
the entries stay within the capacity, and no party that gives a token back
has to wait for one. -/
theorem udp_slots_balanced (run : (newSessionMachine C).ReachableUnder UdpSession.FindsEntry s) :
    s.slots = s.pending.size + s.sends.countP SendCall.owns + s.loop.owed ∧
    s.pending.size ≤ maxUDPPending ∧
    (s.loop = .releasing → s.enabled .loopRelease) ∧
    ∀ seq, .failing seq ∈ s.sends → s.enabled (.sendRelease seq) := by
  obtain ⟨htokens, hcap⟩ := balanced_of_reachable run
  refine ⟨htokens, by omega, ?_, ?_⟩
  · intro hloop
    simp only [hloop, LoopState.owed] at htokens
    exact ⟨hloop, by omega⟩
  · intro seq hmem
    have hpos : 0 < s.sends.countP SendCall.owns := List.countP_pos_iff.mpr ⟨_, hmem, rfl⟩
    exact ⟨hmem, by omega⟩

namespace UdpSession

/-- A session and, with the keys exchanged, its peer. -/
def slotSession : UdpSession := newUDPSession 7 [1] [2] [3] [4]

def slotPeer : UdpSession := newUDPSession 7 [2] [1] [4] [3]

/-- The first packet of the session. -/
def slotPacket : Bytes := slotSession.dataPacket Crypto.sum 1 [0]

/-- A `Send` call up to its write. -/
def slotInserted : List UdpEvent :=
  [.sendCheck [0], .sendAcquire [0], .sendSeal [0], .sendInsert 1 slotPacket]

/-- The retransmission of the entry arrives before the first write returns,
and the peer acknowledges it. -/
def slotAcknowledged : List UdpEvent :=
  slotInserted ++ [.retransmit [1] none, .deliver (slotPeer.ackPacket Crypto.sum 1),
    .packetLoop ⟨true, fun _ => true⟩, .loopRelease]

/-- The session after some steps. -/
def slotsAfter (events : List UdpEvent) : UdpSession :=
  events.foldl (UdpSession.apply Crypto.sum) slotSession

theorem reachable_slotsAfter {ok : UdpSession → UdpEvent → Prop} (events : List UdpEvent)
    (h : (newSessionMachine Crypto.sum).Permitted ok slotSession events) :
    (newSessionMachine Crypto.sum).ReachableUnder ok (slotsAfter events) := by
  have hinit : (newSessionMachine Crypto.sum).init slotSession := ⟨7, [1], [2], [3], [4], rfl⟩
  exact Machine.ReachableUnder.run (.start hinit) events h

end UdpSession

/-- A write that fails while its entry is still there. -/
theorem udp_slots_balanced_after_failed_write :
    .failing 1 ∈ (UdpSession.slotsAfter
      (UdpSession.slotInserted ++ [.sendWrite 1 UdpSession.slotPacket false])).sends ∧
    (UdpSession.slotsAfter (UdpSession.slotInserted ++
      [.sendWrite 1 UdpSession.slotPacket false])).enabled (.sendRelease 1) := by
  have hfailing : SendCall.failing 1 ∈ (UdpSession.slotsAfter
      (UdpSession.slotInserted ++ [.sendWrite 1 UdpSession.slotPacket false])).sends := by
    decide +kernel
  refine ⟨hfailing, (udp_slots_balanced (UdpSession.reachable_slotsAfter _ ?_)).2.2.2 1 hfailing⟩
  decide +kernel

/-- The retransmission of a packet is acknowledged, and then its first write
fails: the call waits for a token that was given back already, while the
session is not finished. -/
theorem udp_slots_failed_write_waits :
    ∃ s, (newSessionMachine Crypto.sum).Reachable s ∧ s.loop = .running ∧ s.closed = false ∧
      s.slots ≠ s.pending.size + s.sends.countP SendCall.owns ∧
      s.sends = [.failing 1] ∧ ¬ s.enabled (.sendRelease 1) := by
  refine ⟨UdpSession.slotsAfter (UdpSession.slotAcknowledged ++
    [.sendWrite 1 UdpSession.slotPacket false]), UdpSession.reachable_slotsAfter _ ?_, ?_⟩
  · decide +kernel
  · decide +kernel

end UnknownTunnel.Transport

import UnknownTunnel.Transport.UdpOrder

/-!
# Retention of acknowledged packets

The acknowledgement of a packet is written before the packet is accepted,
and a number more than `maxUDPReorder` ahead of the expected one is dropped
without an error. The sender's lead is bounded only by its `maxUDPPending`
slots, so an acknowledged packet can be lost. Nothing is lost along runs
whose packet loops meet no number beyond the window.
-/

namespace UnknownTunnel.Transport

open Foundation

/-- A `Send` call that holds a slot and has no entry yet. -/
def SendCall.holds : SendCall → Bool
  | .holding _ => true
  | .sealed _ _ => true
  | _ => false

/-- The slots the packet loop still has to free. -/
def LoopState.owed : LoopState → Nat
  | .releasing => 1
  | _ => 0

namespace UdpSession

variable {C : Crypto} {s : UdpSession} {e : UdpEvent}

/-- The numbers a sender has allocated and finished inserting. The number of
a call whose write failed belongs to a session that is being finished. -/
def Inserted (s : UdpSession) (seq : Nat) : Prop :=
  0 < seq ∧ seq ≤ s.sendSeq ∧ (∀ packet, .sealed seq packet ∉ s.sends) ∧ .failing seq ∉ s.sends

theorem mem_retransmitScan (due : List Nat) (pending : Table Nat PendingDatagram) (seq : Nat) :
    seq ∈ (retransmitScan due pending).1 ↔ seq ∈ pending := by
  induction due generalizing pending with
  | nil => rfl
  | cons k due ih =>
      simp only [retransmitScan]
      cases hl : Finmap.lookup k pending with
      | none => exact ih pending
      | some item =>
          by_cases hr : udpMaxRetries ≤ item.retries
          · simp only [hr, if_true]
          · have hk : k ∈ pending := Finmap.mem_of_lookup_eq_some hl
            simp only [hr, if_false, ih, Finmap.mem_insert]
            constructor
            · rintro (rfl | h)
              · exact hk
              · exact h
            · exact Or.inr

theorem size_retransmitScan (due : List Nat) (pending : Table Nat PendingDatagram) :
    (retransmitScan due pending).1.size = pending.size := by
  have hkeys : (retransmitScan due pending).1.keys = pending.keys := by
    ext seq
    rw [Finmap.mem_keys, Finmap.mem_keys, mem_retransmitScan]
  rw [Table.size, Table.size, hkeys]

/-- A step of an open sender forgets a pending number only when its write
fails or when a queued acknowledgement of it verifies. -/
theorem mem_pending_apply (he : s.enabled e) {seq : Nat} (h : seq ∈ s.pending) :
    seq ∈ (s.apply C e).pending ∨ .failing seq ∈ (s.apply C e).sends ∨
      ∃ packet ∈ s.packetCh, s.VerifiesAck C packet ∧ udpSeq packet = seq := by
  cases e with
  | packetLoop io =>
      obtain ⟨packet, rest, hq, ho⟩ := packetLoop_outcome C he
      generalize s.apply C (.packetLoop io) = t at ho ⊢
      generalize s.acked C (.packetLoop io) = acked at ho
      cases ho with
      | released hv hm =>
          by_cases hs : seq = udpSeq packet
          · exact Or.inr (Or.inr ⟨packet, by simp [hq], hv, hs.symm⟩)
          · exact Or.inl (by simp [hs, h])
      | _ => exact Or.inl h
  | sendInsert k packet => exact Or.inl (by simp [apply, h])
  | sendWrite k packet ok =>
      cases ok with
      | true => exact Or.inl h
      | false =>
          by_cases hs : seq = k
          · exact Or.inr (Or.inl (by simp [apply, hs]))
          · exact Or.inl (by simp [apply, hs, h])
  | deliver packet =>
      rcases deliverPacket_cases s packet with h' | ⟨_, h'⟩ | h' <;>
        exact Or.inl (by simpa only [apply, h'] using h)
  | retransmit due failAt => exact Or.inl ((mem_retransmitScan due _ seq).mpr h)
  | _ => exact Or.inl h

/-- The `Send` call whose position a step advances. -/
def consumes : UdpEvent → Option SendCall
  | .sendRefuse payload => some (.checked payload)
  | .sendAcquire payload => some (.checked payload)
  | .sendSeal payload => some (.holding payload)
  | .sendInsert seq packet => some (.sealed seq packet)
  | .sendWrite seq packet _ => some (.inserted seq packet)
  | .sendRelease seq => some (.failing seq)
  | _ => none

theorem mem_sends_apply (he : s.enabled e) {call : SendCall} (h : call ∈ s.sends) :
    call ∈ (s.apply C e).sends ∨ consumes e = some call := by
  by_cases hc : consumes e = some call
  · exact Or.inr hc
  · left
    cases e with
    | packetLoop io =>
        obtain ⟨_, _, _, ho⟩ := packetLoop_outcome C he
        rw [ho.frame.2.2.2.1]
        exact h
    | deliver packet =>
        rcases deliverPacket_cases s packet with h' | ⟨_, h'⟩ | h' <;>
          simpa only [apply, h'] using h
    | sendWrite seq packet ok =>
        have hne : call ≠ .inserted seq packet := fun h' => hc (by rw [h']; rfl)
        cases ok <;> simp [apply, List.mem_erase_of_ne hne, h]
    | sendRefuse payload =>
        have hne : call ≠ .checked payload := fun h' => hc (by rw [h']; rfl)
        simp [apply, List.mem_erase_of_ne hne, h]
    | sendAcquire payload =>
        have hne : call ≠ .checked payload := fun h' => hc (by rw [h']; rfl)
        simp [apply, List.mem_erase_of_ne hne, h]
    | sendSeal payload =>
        have hne : call ≠ .holding payload := fun h' => hc (by rw [h']; rfl)
        simp [apply, List.mem_erase_of_ne hne, h]
    | sendInsert seq packet =>
        have hne : call ≠ .sealed seq packet := fun h' => hc (by rw [h']; rfl)
        simp [apply, List.mem_erase_of_ne hne, h]
    | sendRelease seq =>
        have hne : call ≠ .failing seq := fun h' => hc (by rw [h']; rfl)
        simp [apply, List.mem_erase_of_ne hne, h]
    | sendCheck payload => simp [apply, h]
    | _ => exact h

/-- The sender still answers for a number: it is being inserted, its write
has failed, or it is pending. -/
def Tracks (s : UdpSession) (seq : Nat) : Prop :=
  (∃ packet, .sealed seq packet ∈ s.sends) ∨ .failing seq ∈ s.sends ∨ seq ∈ s.pending

theorem Tracks.apply (he : s.enabled e) (ho : (s.apply C e).closed = false) {seq : Nat}
    (h : s.Tracks seq) :
    (s.apply C e).Tracks seq ∨
      ∃ packet ∈ s.packetCh, s.VerifiesAck C packet ∧ udpSeq packet = seq := by
  rcases h with ⟨packet, h⟩ | h | h
  · rcases mem_sends_apply (C := C) he h with h' | hc
    · exact Or.inl (Or.inl ⟨packet, h'⟩)
    · cases e with
      | sendInsert k packet' =>
          simp only [consumes, Option.some.injEq, SendCall.sealed.injEq] at hc
          obtain ⟨rfl, rfl⟩ := hc
          exact Or.inl (Or.inr (Or.inr (by simp [UdpSession.apply])))
      | _ => simp [consumes] at hc
  · rcases mem_sends_apply (C := C) he h with h' | hc
    · exact Or.inl (Or.inr (Or.inl h'))
    · cases e with
      | sendRelease k => cases ho
      | _ => simp [consumes] at hc
  · rcases mem_pending_apply (C := C) he h with h' | h' | h'
    · exact Or.inl (Or.inr (Or.inr h'))
    · exact Or.inl (Or.inr (Or.inl h'))
    · exact Or.inr h'

/-- A sealed number is tracked from its allocation on. -/
theorem tracks_of_sendSeq_lt (he : s.enabled e) {seq : Nat} (h₁ : s.sendSeq < seq)
    (h₂ : seq ≤ (s.apply C e).sendSeq) : (s.apply C e).Tracks seq := by
  rw [apply_sendSeq he] at h₂
  cases e with
  | sendSeal payload =>
      simp only [sealRecord, Option.toList_some, List.length_singleton] at h₂
      have hseq : seq = s.sendSeq + 1 := by omega
      subst hseq
      exact Or.inl ⟨_, List.mem_cons_self⟩
  | _ =>
      simp only [sealRecord, Option.toList_none, List.length_nil] at h₂
      omega

/-- Every pending entry and every call without an entry has its own slot. -/
def HasRoom (s : UdpSession) : Prop :=
  s.pending.size + s.sends.countP SendCall.holds + s.loop.owed ≤ s.slots ∧
    s.slots ≤ maxUDPPending

/-- A call that is taken out is counted for itself. -/
theorem countP_calls_erase (p : SendCall → Bool) {calls : List SendCall} {call : SendCall}
    (h : call ∈ calls) :
    calls.countP p = (calls.erase call).countP p + if p call then 1 else 0 := by
  rw [(List.perm_cons_erase h).countP_eq, List.countP_cons]

theorem HasRoom.apply (he : s.enabled e) (ho : (s.apply C e).closed = false)
    (h : s.HasRoom) : (s.apply C e).HasRoom := by
  obtain ⟨h₁, h₂⟩ := h
  cases e with
  | packetLoop io =>
      simp only [he.1, LoopState.owed] at h₁
      obtain ⟨packet, rest, hq, hout⟩ := packetLoop_outcome C he
      generalize s.apply C (.packetLoop io) = t at hout ho ⊢
      generalize s.acked C (.packetLoop io) = acked at hout
      cases hout with
      | ignored => exact ⟨by simpa only [he.1, LoopState.owed] using h₁, h₂⟩
      | released hv hm =>
          have hsize := Table.size_erase_of_mem hm
          exact ⟨by simp only [LoopState.owed]; omega, h₂⟩
      | accepted plaintext hopen hw =>
          refine ⟨?_, h₂⟩
          simp only
          split <;> exact h₁
      | unacknowledged plaintext hopen hw => cases ho
  | sendCheck payload => exact ⟨by simpa [UdpSession.apply, SendCall.holds] using h₁, h₂⟩
  | sendRefuse payload =>
      have hcount := countP_calls_erase SendCall.holds he
      simp only [SendCall.holds, Bool.false_eq_true, if_false] at hcount
      exact ⟨by simp only [UdpSession.apply]; omega, h₂⟩
  | sendAcquire payload =>
      obtain ⟨hmem, hslots⟩ := he
      have hcount := countP_calls_erase SendCall.holds hmem
      simp only [SendCall.holds, Bool.false_eq_true, if_false] at hcount
      refine ⟨?_, hslots⟩
      simp only [UdpSession.apply, List.countP_cons, SendCall.holds, if_true]
      omega
  | sendSeal payload =>
      have hcount := countP_calls_erase SendCall.holds he.1
      simp only [SendCall.holds, if_true] at hcount
      refine ⟨?_, h₂⟩
      simp only [UdpSession.apply, List.countP_cons, SendCall.holds, if_true]
      omega
  | sendInsert seq packet =>
      have hcount := countP_calls_erase SendCall.holds he
      simp only [SendCall.holds, if_true] at hcount
      have hsize := Table.size_insert_le s.pending seq ⟨packet, 0⟩
      refine ⟨?_, h₂⟩
      simp only [UdpSession.apply, List.countP_cons, SendCall.holds, Bool.false_eq_true, if_false]
      omega
  | sendWrite seq packet ok =>
      have hcount := countP_calls_erase SendCall.holds he
      simp only [SendCall.holds, Bool.false_eq_true, if_false] at hcount
      cases ok with
      | true => exact ⟨by simp only [UdpSession.apply]; omega, h₂⟩
      | false =>
          have hsize := Table.size_erase_le s.pending seq
          refine ⟨?_, h₂⟩
          simp only [UdpSession.apply, List.countP_cons, SendCall.holds, Bool.false_eq_true,
            if_false]
          omega
  | sendRelease seq => cases ho
  | deliver packet =>
      rcases deliverPacket_cases s packet with h' | ⟨_, h'⟩ | h' <;>
        simp only [UdpSession.apply, h'] <;> exact ⟨h₁, h₂⟩
  | loopRelease =>
      obtain ⟨hl, hslots⟩ := he
      simp only [hl, LoopState.owed] at h₁
      refine ⟨?_, by simp only [UdpSession.apply]; omega⟩
      simp only [UdpSession.apply, LoopState.owed]
      omega
  | loopReturn =>
      refine ⟨?_, h₂⟩
      simp only [UdpSession.apply, LoopState.owed]
      omega
  | retransmit due failAt =>
      refine ⟨?_, h₂⟩
      simp only [UdpSession.apply, size_retransmitScan]
      exact h₁
  | close => cases ho

/-- The packet loop meets no authentic number beyond the reorder window. -/
def WithinWindow (C : Crypto) (s : UdpSession) : UdpEvent → Prop
  | .packetLoop _ => ∀ packet plaintext, s.packetCh.head? = some packet →
      s.OpensData C packet plaintext → udpSeq packet ≤ s.recv.expected + maxUDPReorder
  | _ => True

/-- An open receiver keeps what it retained and retains what it acknowledges. -/
theorem retains_apply (he : s.enabled e) (ho : (s.apply C e).closed = false)
    (hw : s.WithinWindow C e) {sent : List Bytes} (hf : s.recv.Follows maxUDPReorder sent)
    {seq : Nat} (h : s.recv.Retains seq ∨ s.acked C e = some seq) :
    (s.apply C e).recv.Retains seq := by
  cases e with
  | packetLoop io =>
      obtain ⟨packet, rest, hq, hout⟩ := packetLoop_outcome C he
      generalize s.apply C (.packetLoop io) = t at hout ho ⊢
      generalize s.acked C (.packetLoop io) = acked at hout h
      cases hout with
      | ignored => exact h.resolve_right fun ha => by cases ha
      | released hv hm => exact h.resolve_right fun ha => by cases ha
      | accepted plaintext hopen hack =>
          have hnf := (Bool.or_eq_false_iff.mp ho).2
          rcases h with h | h
          · exact h.accept hnf
          · cases h
            exact (hf.retains_accept_iff hnf).mpr (hw packet plaintext (by simp [hq]) hopen)
      | unacknowledged plaintext hopen hack => cases ho
  | deliver packet =>
      have h' := h.resolve_right fun ha => by cases ha
      rcases deliverPacket_cases s packet with hd | ⟨_, hd⟩ | hd <;>
        simpa only [apply, hd] using h'
  | sendWrite k packet ok => cases ok <;> exact h.resolve_right fun ha => by cases ha
  | _ => exact h.resolve_right fun ha => by cases ha

end UdpSession

/-- What an open link keeps while no number is beyond the window. -/
structure LinkRetention (L : Link) : Prop where
  retained : ∀ X, (L.session X).closed = false →
    ∀ seq ∈ L.authenticated X, (L.session X).recv.Retains seq
  tracked : ∀ X, (L.session X).closed = false →
    ∀ seq, 0 < seq → seq ≤ (L.session X).sendSeq →
      (L.session X).Tracks seq ∨ seq ∈ L.authenticated X.peer
  room : ∀ X, (L.session X).closed = false → (L.session X).HasRoom

theorem LinkRetention.apply {C : Crypto} {L : Link} {e : Side × UdpEvent}
    (hi : LinkInvariant C L) (h : LinkRetention L) (he : L.enabled C e)
    (hw : (L.session e.1).WithinWindow C e.2) : LinkRetention (L.apply C e) := by
  refine ⟨?_, ?_, ?_⟩
  · intro X ho seq hseq
    by_cases hX : X = e.1
    · subst hX
      simp only [Link.apply, Function.update_self, List.mem_append, Option.mem_toList] at ho hseq ⊢
      have hopen := UdpSession.closed_of_apply he.1 ho
      exact UdpSession.retains_apply he.1 ho hw (hi.follows _)
        (hseq.imp (h.retained _ hopen seq) id)
    · simp only [Link.apply, Function.update_of_ne hX] at ho hseq ⊢
      exact h.retained X ho seq hseq
  · intro X ho seq hpos hle
    by_cases hX : X = e.1
    · subst hX
      simp only [Link.apply, Function.update_self] at ho hle ⊢
      have hopen := UdpSession.closed_of_apply he.1 ho
      have hpeer : Function.update L.authenticated e.1
          (L.authenticated e.1 ++ ((L.session e.1).acked C e.2).toList) e.1.peer =
          L.authenticated e.1.peer := Function.update_of_ne (Side.peer_ne _) ..
      rw [hpeer]
      by_cases hold : seq ≤ (L.session e.1).sendSeq
      · rcases h.tracked _ hopen seq hpos hold with ht | ha
        · rcases ht.apply he.1 ho with ht | ⟨packet, hmem, hv, rfl⟩
          · exact Or.inl ht
          · exact Or.inr (hi.acknowledged (hi.queued _ packet hmem) hv)
        · exact Or.inr ha
      · exact Or.inl (UdpSession.tracks_of_sendSeq_lt he.1 (by omega) hle)
    · have hsame : (L.apply C e).session X = L.session X := Function.update_of_ne hX ..
      rw [hsame] at ho hle ⊢
      exact (h.tracked X ho seq hpos hle).imp id Link.mem_authenticated_apply
  · intro X ho
    by_cases hX : X = e.1
    · subst hX
      simp only [Link.apply, Function.update_self] at ho ⊢
      exact (h.room _ (UdpSession.closed_of_apply he.1 ho)).apply he.1 ho
    · simp only [Link.apply, Function.update_of_ne hX] at ho ⊢
      exact h.room X ho

theorem LinkRetention.start (keys : KeySet) (sessionID : Nat) :
    LinkRetention (Link.start keys sessionID) where
  retained := by intro X _ seq hseq; cases hseq
  tracked := by
    intro X _ seq hpos hle
    cases X <;> exact absurd hle (by simp [Link.start, peeredSession, newUDPSession]; omega)
  room := by
    intro X _
    cases X <;>
      simp [UdpSession.HasRoom, Link.start, peeredSession, newUDPSession, LoopState.owed]

/-- The runs along which no packet loop meets a number beyond the window. -/
def linkWithinWindow (C : Crypto) (L : Link) (e : Side × UdpEvent) : Prop :=
  (L.session e.1).WithinWindow C e.2

theorem linkRetention_of_reachable {C : Crypto} {L : Link}
    (run : (linkMachine C).ReachableUnder (linkWithinWindow C) L) : LinkRetention L := by
  apply run.invariant (fun L run => linkInvariant_of_reachable run.reachable)
  · rintro L ⟨keys, sessionID, -, -, -, rfl⟩
    exact LinkRetention.start keys sessionID
  · intro L e hi h he hw
    exact h.apply hi he hw

/-- Along runs that stay within the window every inserted number is pending,
published or held, and the pending table never outgrows its slots. In any
run, the number of a packet accepted without error is published or held
exactly when it lies within the window. -/
theorem udp_acknowledged_packet_retained (C : Crypto) :
    (∀ L, (linkMachine C).ReachableUnder (linkWithinWindow C) L →
      ∀ X, (L.session X).closed = false → (L.session X.peer).closed = false →
        (∀ seq, (L.session X).Inserted seq →
          seq ∈ (L.session X).pending ∨ seq < (L.session X.peer).recv.expected ∨
            seq ∈ (L.session X.peer).recv.reorder) ∧
        (L.session X).pending.size ≤ maxUDPPending) ∧
    (∀ L, (linkMachine C).Reachable L → ∀ X io packet seq,
      ((L.session X).handlePacket C io packet).acked = some seq →
      ((L.session X).handlePacket C io packet).err = false →
        ((seq < ((L.session X).handlePacket C io packet).session.recv.expected ∨
            seq ∈ ((L.session X).handlePacket C io packet).session.recv.reorder) ↔
          seq ≤ (L.session X).recv.expected + maxUDPReorder)) := by
  constructor
  · intro L run X ho hp
    have h := linkRetention_of_reachable run
    constructor
    · rintro seq ⟨hpos, hle, hsealed, hfailing⟩
      rcases h.tracked X ho seq hpos hle with (⟨packet, hs⟩ | hf | hm) | ha
      · exact absurd hs (hsealed packet)
      · exact absurd hf hfailing
      · exact Or.inl hm
      · exact Or.inr (h.retained X.peer hp seq ha)
    · obtain ⟨hroom, hslots⟩ := h.room X ho
      omega
  · intro L run X io packet seq hack herr
    have hi := linkInvariant_of_reachable run
    rcases UdpSession.handlePacket_cases C io (L.session X) packet with
      h | ⟨-, -, h⟩ | ⟨plaintext, -, h⟩
    · rw [h] at hack
      cases hack
    · rw [h] at hack
      cases hack
    · rw [h] at hack herr ⊢
      cases hw : io.ackWritten with
      | false =>
          simp only [hw, Bool.false_eq_true, if_false] at herr
          cases herr
      | true =>
          simp only [hw, if_true, Option.some.injEq] at hack herr ⊢
          subst hack
          exact (hi.follows X).retains_accept_iff herr

/-- The network delivers only datagrams the peer has written. -/
def DeliversWritten (L : Link) (e : Side × UdpEvent) : Prop :=
  match e.2 with
  | .deliver packet => packet ∈ L.wire e.1.peer
  | _ => True

theorem deliversWritten_of_isSend (L : Link) (e : Side × UdpEvent) (h : e.2.isSend = true) :
    DeliversWritten L e := by
  obtain ⟨X, ev⟩ := e
  cases ev with
  | deliver packet => cases h
  | _ => trivial

theorem linkWithinWindow_of_isSend {C : Crypto} (L : Link) (e : Side × UdpEvent)
    (h : e.2.isSend = true) : linkWithinWindow C L e := by
  obtain ⟨X, ev⟩ := e
  cases ev with
  | packetLoop io => cases h
  | _ => trivial

theorem udp_acknowledged_packet_retained_full_window :
    ∃ L, (linkMachine Crypto.sum).ReachableUnder (linkWithinWindow Crypto.sum) L ∧
      (L.session .client).closed = false ∧ (L.session .server).closed = false ∧
      (L.session .client).Inserted 8192 ∧
      (8192 ∈ (L.session .client).pending ∨ 8192 < (L.session .server).recv.expected ∨
        8192 ∈ (L.session .server).recv.reorder) := by
  obtain ⟨L, run, hserver, ⟨pending, hclient, -⟩, -⟩ :=
    exists_unanswered Crypto.sum sampleKeys 7 [0] (by decide) (by decide) (by decide) (by decide)
      8192 le_rfl linkWithinWindow_of_isSend
  have hc : (L.session .client).closed = false := by rw [hclient]; rfl
  have hs : (L.session .server).closed = false := by rw [hserver]; rfl
  have hi : (L.session .client).Inserted 8192 := by
    rw [hclient]
    exact ⟨by decide, le_rfl, nofun, nofun⟩
  exact ⟨L, run, hc, hs, hi,
    ((udp_acknowledged_packet_retained Crypto.sum).1 L run .client hc hs).1 8192 hi⟩

/-- The client sends 4098 packets, the network delays the first 4097 of them
and delivers the last one and its acknowledgement. -/
theorem udp_acknowledged_packet_lost :
    ∃ L, (linkMachine Crypto.sum).ReachableUnder DeliversWritten L ∧
      (L.session .client).closed = false ∧ (L.session .server).closed = false ∧
      (L.session .client).Inserted 4098 ∧ 4098 ∉ (L.session .client).pending ∧
      ¬ 4098 < (L.session .server).recv.expected ∧
      4098 ∉ (L.session .server).recv.reorder := by
  obtain ⟨L, run, hserver, ⟨pending, hclient, hpending⟩, hwritten, -, hsealed⟩ :=
    exists_unanswered Crypto.sum sampleKeys 7 [0] (by decide) (by decide) (by decide) (by decide)
      4098 (by decide) deliversWritten_of_isSend
  have hsend := hwritten 4098 (by decide) le_rfl
  have hrecord := hsealed 4098 (by decide) le_rfl
  have hdata : L.Unforged Crypto.sum .server
      ((peeredSession sampleKeys 7 .client).dataPacket Crypto.sum 4098 [0]) := by
    rw [Link.Unforged, hserver]
    constructor
    · intro plaintext hopen
      have hsame : (some [0] : Option Bytes) = some plaintext := by
        rw [← hopen.2]
        decide
      cases hsame
      exact hrecord
    · intro hv
      exact absurd hv (by unfold UdpSession.VerifiesAck; decide)
  let io : PacketIO := ⟨true, fun _ => true⟩
  obtain ⟨L', run', hserver', hclient', -, hwire', hmaced'⟩ :=
    Link.receive io (by rw [hserver]; rfl) (by rw [hserver]; rfl) (by rw [hserver]; rfl) hdata
      hsend (fun _ => trivial) run
  rw [hserver] at hserver' hwire' hmaced'
  obtain ⟨hstep, hack, hacked⟩ := UdpSession.packetLoop_dataPacket (C := Crypto.sum)
    (peeredSession sampleKeys 7 .client)
    { peeredSession sampleKeys 7 .server with
      packetCh := [(peeredSession sampleKeys 7 .client).dataPacket Crypto.sum 4098 [0]] }
    [0] rfl rfl rfl (by decide) (by decide) (by decide) (rfl : io.ackWritten = true)
  rw [hstep] at hserver'
  rw [hack] at hwire'
  rw [hacked] at hmaced'
  replace hclient' : L'.session .client = _ := hclient'.trans hclient
  have hanswer : L'.Unforged Crypto.sum .client
      ((peeredSession sampleKeys 7 .server).ackPacket Crypto.sum 4098) := by
    have htake : ((peeredSession sampleKeys 7 .server).ackPacket Crypto.sum 4098).take udpHeaderLen
        = makeUDPHeader udpPacketACK 7 4098 16 := take_header ..
    rw [Link.Unforged, hclient', hmaced', htake]
    constructor
    · intro plaintext hopen
      have hnone : (none : Option Bytes) = some plaintext := by
        rw [← hopen.2]
        change _ = Crypto.sum.aeadOpen sampleKeys.serverSend _ _ _
        decide
      cases hnone
    · intro hv
      exact List.mem_append_right _ (List.mem_singleton_self _)
  have hdeliver : DeliversWritten L' (.client, .deliver
      ((peeredSession sampleKeys 7 .server).ackPacket Crypto.sum 4098)) := by
    change _ ∈ L'.wire .server
    rw [hwire']
    exact List.mem_append_right _ (List.mem_singleton_self _)
  obtain ⟨L'', run'', hclient'', hserver'', -⟩ :=
    Link.receive io (by rw [hclient']; rfl) (by rw [hclient']; rfl) (by rw [hclient']; rfl)
      hanswer hdeliver (fun _ => trivial) run'
  replace hserver'' : L''.session .server = _ := hserver''.trans hserver'
  have hrelease := UdpSession.packetLoop_ackPacket (C := Crypto.sum) io
    (peeredSession sampleKeys 7 .server)
    { unansweredClient sampleKeys 7 4098 pending with
      packetCh := [(peeredSession sampleKeys 7 .server).ackPacket Crypto.sum 4098] }
    rfl rfl rfl (show 7 < 2 ^ 64 by decide) (by decide)
    ((hpending 4098).mpr ⟨by decide, le_rfl⟩)
  rw [hclient', hrelease] at hclient''
  refine ⟨L'', run'', ?_⟩
  rw [hserver'', hclient'']
  refine ⟨rfl, rfl, ⟨by decide, le_rfl, fun _ => List.not_mem_nil, List.not_mem_nil⟩,
    ?_, by decide, by decide⟩
  simp [Finmap.mem_erase]

end UnknownTunnel.Transport

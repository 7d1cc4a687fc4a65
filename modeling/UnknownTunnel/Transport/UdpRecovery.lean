import UnknownTunnel.Foundation.Progress
import UnknownTunnel.Transport.Carriers
import UnknownTunnel.Transport.Retransmission

/-!
# Recovery of a UDP link

However many packets the network has lost, the entries of the pending table
are enough to get every payload across: each number that the receiver does not
have is still pending, its entry holds the packet that was sealed, and a tick at
which all entries are due writes all of them again. No acknowledgement has to
arrive for that.

## Implementation notes

The link is run under a clock, so that a tick resends exactly the entries that
are due. The continuation uses one tick of the sender, the arrival of datagrams
that the sender has written, and rounds of the receiver's packet loop.
-/

namespace UnknownTunnel.Transport

open Foundation

/-! ## Sealed packets in the pending table -/

/-- The packet that a side has sealed under a number. -/
def Link.Issued (C : Crypto) (L : Link) (Y : Side) (seq : Nat) (packet : Bytes) : Prop :=
  ∃ payload, packet = (L.session Y).dataPacket C seq payload ∧
    payload.length ≤ maxUDPPlaintext ∧ 0 < seq ∧ (L.sent Y)[seq - 1]? = some payload ∧
    ⟨(L.session Y).sendKey, nonceFor seq,
      makeUDPHeader udpPacketData (L.session Y).sessionID seq (payload.length + aeadOverhead),
      payload⟩ ∈ L.sealed

/-- What is known of a `Send` call. -/
def Link.Vouches (C : Crypto) (L : Link) (Y : Side) : SendCall → Prop
  | .checked payload | .holding payload => payload.length ≤ maxUDPPlaintext
  | .sealed seq packet | .inserted seq packet => L.Issued C Y seq packet
  | .failing _ => True

/-- Calls and entries carry the packets that were sealed. -/
structure Issuing (C : Crypto) (L : Link) : Prop where
  calls : ∀ Y, ∀ call ∈ (L.session Y).sends, L.Vouches C Y call
  pending : ∀ Y seq item, Finmap.lookup seq (L.session Y).pending = some item →
    L.Issued C Y seq item.packet

namespace UdpSession

variable {C : Crypto} {s : UdpSession} {e : UdpEvent}

/-- Where a call stands after a step. -/
theorem mem_sends_of_apply (he : s.enabled e) {call : SendCall}
    (h : call ∈ (s.apply C e).sends) :
    call ∈ s.sends ∨
    (∃ payload, payload.length ≤ maxUDPPlaintext ∧ call = .checked payload) ∨
    (∃ payload, .checked payload ∈ s.sends ∧ call = .holding payload) ∨
    (∃ payload, .holding payload ∈ s.sends ∧ e = .sendSeal payload ∧
      call = .sealed (s.sendSeq + 1) (s.dataPacket C (s.sendSeq + 1) payload)) ∨
    (∃ seq packet, .sealed seq packet ∈ s.sends ∧ call = .inserted seq packet) ∨
    ∃ seq, call = .failing seq := by
  -- A step replaces one call by its next position.
  have hreplace : ∀ {old new : SendCall}, call ∈ new :: s.sends.erase old →
      call = new ∨ call ∈ s.sends := by
    intro old new hc
    obtain hnew | hrest := List.mem_cons.mp hc
    · exact Or.inl hnew
    · exact Or.inr (List.mem_of_mem_erase hrest)
  cases e with
  | sendCheck payload =>
      obtain rfl | hc := List.mem_cons.mp h
      · exact Or.inr (Or.inl ⟨payload, he.2, rfl⟩)
      · exact Or.inl hc
  | sendRefuse payload => exact Or.inl (List.mem_of_mem_erase h)
  | sendAcquire payload =>
      obtain rfl | hc := hreplace h
      · exact Or.inr (Or.inr (Or.inl ⟨payload, he.1, rfl⟩))
      · exact Or.inl hc
  | sendSeal payload =>
      obtain rfl | hc := hreplace h
      · exact Or.inr (Or.inr (Or.inr (Or.inl ⟨payload, he.1, rfl, rfl⟩)))
      · exact Or.inl hc
  | sendInsert seq packet =>
      obtain rfl | hc := hreplace h
      · exact Or.inr (Or.inr (Or.inr (Or.inr (Or.inl ⟨seq, packet, he, rfl⟩))))
      · exact Or.inl hc
  | sendWrite seq packet ok =>
      cases ok with
      | true => exact Or.inl (List.mem_of_mem_erase h)
      | false =>
          obtain rfl | hc := hreplace h
          · exact Or.inr (Or.inr (Or.inr (Or.inr (Or.inr ⟨seq, rfl⟩))))
          · exact Or.inl hc
  | sendRelease seq => exact Or.inl (List.mem_of_mem_erase h)
  | packetLoop io =>
      obtain ⟨_, _, _, ho⟩ := packetLoop_outcome C he
      rw [ho.frame.2.2.2.1] at h
      exact Or.inl h
  | deliver packet =>
      left
      obtain hd | ⟨-, hd⟩ | hd := deliverPacket_cases s packet <;>
        simpa only [apply, hd] using h
  | _ => exact Or.inl h

/-- A resend keeps the packet of an entry. -/
theorem packet_retransmitScan {due : List Nat} {pending : Table Nat PendingDatagram} {seq : Nat}
    {item : PendingDatagram} (h : Finmap.lookup seq (retransmitScan due pending).1 = some item) :
    ∃ old, Finmap.lookup seq pending = some old ∧ old.packet = item.packet := by
  induction due generalizing pending with
  | nil => exact ⟨item, h, rfl⟩
  | cons k due ih =>
      simp only [retransmitScan] at h
      cases hl : Finmap.lookup k pending with
      | none =>
          rw [hl] at h
          exact ih h
      | some other =>
          simp only [hl] at h
          split at h
          · exact ⟨item, h, rfl⟩
          · obtain ⟨old, hold, hpacket⟩ := ih h
            rw [Table.lookup_insert_eq] at hold
            split at hold
            · rename_i hseq
              obtain rfl := Option.some.inj hold
              exact ⟨other, by rw [hseq, hl], hpacket⟩
            · exact ⟨old, hold, hpacket⟩

/-- Where an entry comes from. -/
theorem packet_pending_apply (he : s.enabled e) {seq : Nat} {item : PendingDatagram}
    (h : Finmap.lookup seq (s.apply C e).pending = some item) :
    (∃ old, Finmap.lookup seq s.pending = some old ∧ old.packet = item.packet) ∨
      .sealed seq item.packet ∈ s.sends := by
  cases e with
  | sendInsert k packet =>
      simp only [apply, Table.lookup_insert_eq] at h
      split at h
      · rename_i hseq
        obtain rfl := Option.some.inj h
        exact Or.inr (hseq ▸ he)
      · exact Or.inl ⟨item, h, rfl⟩
  | retransmit due failAt => exact Or.inl (packet_retransmitScan h)
  | _ =>
      exact Or.inl ⟨item, lookup_pending_apply he (fun _ _ hc => by cases hc)
        (fun _ _ hc => by cases hc) h, rfl⟩

end UdpSession

namespace Issuing

variable {C : Crypto} {L : Link} {e : Side × UdpEvent}

theorem issued_apply (he : L.enabled C e) {Y : Side} {seq : Nat} {packet : Bytes}
    (h : L.Issued C Y seq packet) : (L.apply C e).Issued C Y seq packet := by
  obtain ⟨payload, hpacket, hlen, hpos, hsent, hsealed⟩ := h
  have hid := Link.apply_session_identity he Y
  simp only [UdpSession.identity, Prod.mk.injEq] at hid
  obtain ⟨hsid, hkey, -⟩ := hid
  refine ⟨payload, ?_, hlen, hpos, Link.mem_sent_apply hsent, ?_⟩
  · rw [hpacket, UdpSession.dataPacket, UdpSession.dataPacket, hsid, hkey]
  · rw [hsid, hkey]
    exact List.mem_append_left _ hsealed

theorem vouches_apply (he : L.enabled C e) {Y : Side} {call : SendCall}
    (h : L.Vouches C Y call) : (L.apply C e).Vouches C Y call := by
  cases call with
  | sealed seq packet | inserted seq packet => exact issued_apply he h
  | _ => exact h

/-- The call that seals a payload vouches for its packet. -/
theorem sealed_issued (hi : LinkInvariant C L) {Y : Side} {payload : Bytes}
    (he : L.enabled C (Y, .sendSeal payload)) (hlen : payload.length ≤ maxUDPPlaintext) :
    (L.apply C (Y, .sendSeal payload)).Issued C Y ((L.session Y).sendSeq + 1)
      ((L.session Y).dataPacket C ((L.session Y).sendSeq + 1) payload) := by
  have hid := Link.apply_session_identity he Y
  simp only [UdpSession.identity, Prod.mk.injEq] at hid
  obtain ⟨hsid, hkey, -⟩ := hid
  refine ⟨payload, ?_, hlen, Nat.succ_pos _, ?_, ?_⟩
  · rw [UdpSession.dataPacket, UdpSession.dataPacket, hsid, hkey]
  · simp [Link.apply, UdpSession.sealRecord, (hi.counter Y).1]
  · rw [hsid, hkey]
    exact List.mem_append_right _ (List.mem_singleton_self _)

theorem apply (hi : LinkInvariant C L) (h : Issuing C L) (he : L.enabled C e) :
    Issuing C (L.apply C e) := by
  have hother : ∀ Y, Y ≠ e.1 → (L.apply C e).session Y = L.session Y := fun Y hY =>
    Function.update_of_ne hY ..
  have hself : (L.apply C e).session e.1 = (L.session e.1).apply C e.2 :=
    Function.update_self ..
  refine ⟨?_, ?_⟩
  · intro Y call hcall
    by_cases hY : Y = e.1
    · subst hY
      rw [hself] at hcall
      obtain hold | ⟨payload, hlen, rfl⟩ | ⟨payload, hold, rfl⟩ | ⟨payload, hold, hev, rfl⟩ |
        ⟨seq, packet, hold, rfl⟩ | ⟨seq, rfl⟩ := UdpSession.mem_sends_of_apply he.1 hcall
      · exact vouches_apply he (h.calls _ call hold)
      · exact hlen
      · exact h.calls e.1 _ hold
      · obtain ⟨Y, ev⟩ := e
        cases hev
        exact sealed_issued hi he (h.calls Y _ hold)
      · exact issued_apply he (h.calls e.1 _ hold)
      · trivial
    · rw [hother Y hY] at hcall
      exact vouches_apply he (h.calls Y call hcall)
  · intro Y seq item hl
    by_cases hY : Y = e.1
    · subst hY
      rw [hself] at hl
      obtain ⟨old, hold, hpacket⟩ | hcall := UdpSession.packet_pending_apply he.1 hl
      · rw [← hpacket]
        exact issued_apply he (h.pending _ seq old hold)
      · exact issued_apply he (h.calls e.1 _ hcall)
    · rw [hother Y hY] at hl
      exact issued_apply he (h.pending Y seq item hl)

end Issuing

theorem issuing_of_reachable {C : Crypto} {L : Link} (run : (linkMachine C).Reachable L) :
    Issuing C L := by
  apply Machine.ReachableUnder.invariant run
    (fun L run => linkInvariant_of_reachable run)
  · rintro L ⟨keys, sessionID, -, -, -, rfl⟩
    refine ⟨?_, ?_⟩
    · intro Y call hcall
      cases Y <;> cases hcall
    · intro Y seq item hl
      cases Y <;> simp [Link.start, peeredSession, newUDPSession] at hl
  · intro L e hi h he _
    exact h.apply hi he

/-! ## Steps of a recovery -/

theorem Link.session_apply_self (C : Crypto) (L : Link) (X : Side) (ev : UdpEvent) :
    (L.apply C (X, ev)).session X = (L.session X).apply C ev :=
  Function.update_self ..

theorem Link.session_apply_peer (C : Crypto) (L : Link) (X : Side) (ev : UdpEvent) :
    (L.apply C (X, ev)).session X.peer = L.session X.peer :=
  Function.update_of_ne (Side.peer_ne X) ..

/-- Datagrams that the peer of `X` has written arrive, and the packet loop of `X`
takes them. -/
def Arrives (X : Side) (L : Link) (e : Side × UdpEvent) : Prop :=
  match e.2 with
  | .deliver packet => e.1 = X ∧ packet ∈ L.wire X.peer
  | .packetLoop io => e.1 = X ∧ io.ackWritten = true ∧ ∀ n, io.published n = true
  | .loopRelease => e.1 = X
  | _ => False

theorem LoopState.owed_le_one (l : LoopState) : l.owed ≤ 1 := by
  cases l <;> decide

/-- An open session's packet loop has not returned. -/
def UdpSession.Listening (s : UdpSession) : Prop := s.closed = false → s.loop ≠ .returned

theorem UdpSession.Listening.apply {C : Crypto} {s : UdpSession} {e : UdpEvent}
    (h : s.Listening) (he : s.enabled e) : (s.apply C e).Listening := by
  intro ho
  have hloop := h (closed_of_apply he ho)
  cases e with
  | packetLoop io =>
      obtain ⟨_, _, _, hout⟩ := packetLoop_outcome C he
      generalize s.apply C (.packetLoop io) = t at hout ho ⊢
      generalize s.acked C (.packetLoop io) = acked at hout
      cases hout with
      | ignored => exact hloop
      | released hv hm => exact fun h => by cases h
      | accepted plaintext hopen hw =>
          simp [(Bool.or_eq_false_iff.mp ho).2]
      | unacknowledged plaintext hopen hw => cases ho
  | loopReturn =>
      rw [UdpSession.apply] at ho
      exact absurd (he.2.symm.trans ho) (by decide)
  | loopRelease => exact fun h => by cases h
  | deliver packet =>
      obtain hd | ⟨-, hd⟩ | hd := deliverPacket_cases s packet <;>
        simpa only [UdpSession.apply, hd] using hloop
  | sendWrite seq packet ok => cases ok <;> exact hloop
  | _ => exact hloop

theorem listening_of_reachable {C : Crypto} {L : Link} (run : (linkMachine C).Reachable L)
    (X : Side) : (L.session X).Listening := by
  apply run.invariant (I := fun L => ∀ X, (L.session X).Listening)
  · rintro L ⟨keys, sessionID, -, -, -, rfl⟩ X
    cases X <;> exact fun _ h => by cases h
  · intro L e h he X
    by_cases hX : X = e.1
    · subst hX
      change (Function.update L.session e.1 _ e.1).Listening
      rw [Function.update_self]
      exact (h e.1).apply he.1
    · change (Function.update L.session e.1 _ X).Listening
      rw [Function.update_of_ne hX]
      exact h X

theorem sessionID_of_reachable {C : Crypto} {L : Link} (run : (linkMachine C).Reachable L)
    (X : Side) : (L.session X).sessionID < 2 ^ 64 := by
  apply run.invariant (I := fun L => ∀ X, (L.session X).sessionID < 2 ^ 64)
  · rintro L ⟨keys, sessionID, -, -, hid, rfl⟩ X
    cases X <;> exact hid
  · intro L e h he X
    have hkeep := congrArg Prod.fst (Link.apply_session_identity he X)
    exact hkeep.trans_lt (h X)

/-- Both sessions are open, and what `X` lacks of the payloads its peer has written. -/
structure Recovering (C : Crypto) (X : Side) (payloads : List Bytes) (L : Link) : Prop where
  run : (linkMachine C).Reachable L
  receiver : (L.session X).closed = false
  room : (L.session X).HasRoom
  sender : (L.session X.peer).closed = false
  sent : L.sent X.peer = payloads
  covered : ∀ seq, 0 < seq → seq ≤ payloads.length →
    (L.session X).recv.Retains seq ∨ ∃ packet ∈ L.wire X.peer, L.Issued C X.peer seq packet

namespace Recovering

variable {C : Crypto} {X : Side} {payloads : List Bytes} {L : Link}

theorem follows (h : Recovering C X payloads L) :
    (L.session X).recv.Follows maxUDPReorder payloads :=
  h.sent ▸ (linkInvariant_of_reachable h.run).follows X

/-- A step of the receiver that forgets nothing. -/
theorem receiver_apply (h : Recovering C X payloads L) (ev : UdpEvent)
    (he : L.enabled C (X, ev)) (hopen : ((L.session X).apply C ev).closed = false)
    (hkeep : ∀ k, (L.session X).recv.Retains k → ((L.session X).apply C ev).recv.Retains k) :
    Recovering C X payloads (L.apply C (X, ev)) ∧
      (L.session X).recv.expected ≤ ((L.session X).apply C ev).recv.expected := by
  have hside := L.session_apply_self C X ev
  have hpeer := L.session_apply_peer C X ev
  have hsent : (L.apply C (X, ev)).sent X.peer = payloads :=
    (Function.update_of_ne (Side.peer_ne X) ..).trans h.sent
  have hnext : Recovering C X payloads (L.apply C (X, ev)) := by
    refine ⟨h.run.next he trivial, by rw [hside]; exact hopen, ?_, by rw [hpeer]; exact h.sender,
      hsent, ?_⟩
    · rw [hside]
      exact h.room.apply he.1 hopen
    · intro seq hpos hle
      rw [hside]
      obtain hretains | ⟨packet, hwire, hissued⟩ := h.covered seq hpos hle
      · exact Or.inl (hkeep seq hretains)
      · refine Or.inr ⟨packet, ?_, Issuing.issued_apply he hissued⟩
        exact (congrArg (packet ∈ ·) (Function.update_of_ne (Side.peer_ne X) ..)).mpr hwire
  exact ⟨hnext, h.follows.expected_le (hside ▸ hnext.follows) hkeep⟩

/-- The receiver's packet loop takes the next packet. -/
theorem packetLoop_apply (h : Recovering C X payloads L)
    (he : (L.session X).enabled (.packetLoop ⟨true, fun _ => true⟩)) :
    Recovering C X payloads (L.apply C (X, .packetLoop ⟨true, fun _ => true⟩)) ∧
      (L.session X).recv.expected ≤
        ((L.session X).apply C (.packetLoop ⟨true, fun _ => true⟩)).recv.expected := by
  have hkept : ((L.session X).apply C (.packetLoop ⟨true, fun _ => true⟩)).closed = false ∧
      ∀ k, (L.session X).recv.Retains k →
        ((L.session X).apply C (.packetLoop ⟨true, fun _ => true⟩)).recv.Retains k := by
    obtain ⟨packet, rest, -, hout⟩ := UdpSession.packetLoop_outcome C he
    generalize (L.session X).apply C _ = t at hout ⊢
    generalize (L.session X).acked C _ = acked at hout
    cases hout with
    | ignored => exact ⟨h.receiver, fun _ hk => hk⟩
    | released hv hm => exact ⟨h.receiver, fun _ hk => hk⟩
    | accepted plaintext hopen hw =>
        have hnf := Resequencer.accept_delivers (fun _ => rfl) maxUDPReorder
          (L.session X).recv (udpSeq packet) plaintext
        exact ⟨Bool.or_eq_false_iff.mpr ⟨h.receiver, hnf⟩, fun _ hk => hk.accept hnf⟩
    | unacknowledged plaintext hopen hw => cases hw
  exact h.receiver_apply _ ⟨he, trivial⟩ hkept.1 hkept.2

/-- The packets that the receiver has queued are handled first. -/
theorem idle (h : Recovering C X payloads L) {n : Nat}
    (hn : n ≤ (L.session X).recv.expected) :
    (linkMachine C).CanReach (Arrives X) L fun L' =>
      Recovering C X payloads L' ∧ n ≤ (L'.session X).recv.expected ∧
        (L'.session X).packetCh = [] ∧ (L'.session X).loop = .running := by
  -- A round shortens the queue by one, and may leave a slot to be freed.
  apply Machine.CanReach.of_measure
    (P := fun L' => Recovering C X payloads L' ∧ n ≤ (L'.session X).recv.expected)
    (fun L' => 2 * (L'.session X).packetCh.length + (L'.session X).loop.owed) ?_ ⟨h, hn⟩
  rintro L ⟨h, hn⟩
  cases hloop : (L.session X).loop with
  | returned =>
      exact absurd hloop (listening_of_reachable h.run X h.receiver)
  | releasing =>
      have hslots : 0 < (L.session X).slots := by
        have hroom := h.room.1
        rw [hloop, LoopState.owed] at hroom
        omega
      have he : L.enabled C (X, .loopRelease) := ⟨⟨hloop, hslots⟩, trivial⟩
      obtain ⟨hnext, hle⟩ := h.receiver_apply _ he h.receiver fun _ hk => hk
      refine Or.inr (.step _ he rfl (.here ⟨⟨hnext, ?_⟩, ?_⟩))
      · change n ≤ ((L.apply C (X, .loopRelease)).session X).recv.expected
        rw [Link.session_apply_self]
        exact hn
      · change 2 * ((L.apply C (X, .loopRelease)).session X).packetCh.length +
          ((L.apply C (X, .loopRelease)).session X).loop.owed < _
        rw [Link.session_apply_self]
        exact Nat.lt_succ_self _
  | running =>
      cases hq : (L.session X).packetCh with
      | nil => exact Or.inl ⟨h, hn, rfl, rfl⟩
      | cons packet rest =>
          have he : (L.session X).enabled (.packetLoop ⟨true, fun _ => true⟩) :=
            ⟨hloop, by rw [hq]; exact List.cons_ne_nil _ _⟩
          obtain ⟨hnext, hle⟩ := h.packetLoop_apply he
          have hrest : ((L.session X).apply C (.packetLoop ⟨true, fun _ => true⟩)).packetCh =
              rest := by
            obtain ⟨_, rest', hq', hout⟩ := UdpSession.packetLoop_outcome C he
            obtain ⟨-, rfl⟩ := List.cons.inj (hq.symm.trans hq')
            exact hout.frame.2.2.2.2
          refine Or.inr (.step (X, .packetLoop ⟨true, fun _ => true⟩) ⟨he, trivial⟩
            ⟨rfl, rfl, fun _ => rfl⟩ (.here ⟨⟨hnext, ?_⟩, ?_⟩))
          · change n ≤ ((L.apply C (X, .packetLoop ⟨true, fun _ => true⟩)).session X).recv.expected
            rw [Link.session_apply_self]
            exact hn.trans hle
          · change 2 *
              ((L.apply C (X, .packetLoop ⟨true, fun _ => true⟩)).session X).packetCh.length +
              ((L.apply C (X, .packetLoop ⟨true, fun _ => true⟩)).session X).loop.owed < _
            rw [Link.session_apply_self, hrest, List.length_cons]
            have howed := LoopState.owed_le_one
              ((L.session X).apply C (.packetLoop ⟨true, fun _ => true⟩)).loop
            omega

/-- The expected packet arrives and moves the receiver on. -/
theorem advance (h : Recovering C X payloads L) (hq : (L.session X).packetCh = [])
    (hloop : (L.session X).loop = .running)
    (hless : (L.session X).recv.expected ≤ payloads.length)
    (hpayloads : ∀ payload ∈ payloads, 0 < payload.length) :
    (linkMachine C).CanReach (Arrives X) L fun L' =>
      Recovering C X payloads L' ∧ (L.session X).recv.expected < (L'.session X).recv.expected := by
  let r := (L.session X).recv
  -- The expected number is not retained, so its packet was written.
  obtain ⟨packet, hwire, payload, hpacket, hlen, -, hsent, hsealed⟩ :=
    (h.covered r.expected h.follows.pos hless).resolve_left h.follows.not_retains_expected
  rw [h.sent] at hsent
  have hpos := hpayloads payload (List.mem_of_getElem? hsent)
  have hseq : r.expected < 2 ^ 64 := by
    have hcount := ((linkInvariant_of_reachable h.run).counter X.peer).2
    rw [h.sent] at hcount
    exact hless.trans_lt hcount
  have hm := (linkInvariant_of_reachable h.run).mirrored
  have hunforged : L.Unforged C X packet := by
    rw [hpacket]
    exact unforged_dataPacket (hm.recvKey X) hseq hpos hsealed
  -- The arrival.
  let L₁ := L.apply C (X, .deliver packet)
  have hX : L₁.session X = { L.session X with packetCh := [packet] } := by
    rw [Link.session_apply_self]
    simp [UdpSession.apply, UdpSession.deliverPacket, h.receiver, hq, packetQueueLen]
  have h₁ : Recovering C X payloads L₁ := by
    refine (h.receiver_apply (.deliver packet) ⟨trivial, hunforged⟩ ?_ ?_).1
    · rw [← Link.session_apply_self, hX]
      exact h.receiver
    · intro k hk
      rwa [← Link.session_apply_self, hX]
  -- The round of the packet loop.
  have he : (L₁.session X).enabled (.packetLoop ⟨true, fun _ => true⟩) := by
    rw [hX]
    exact ⟨hloop, List.cons_ne_nil _ _⟩
  have hnext : r.expected <
      ((L₁.session X).apply C (.packetLoop ⟨true, fun _ => true⟩)).recv.expected := by
    rw [hX, (UdpSession.packetLoop_dataPacket (L.session X.peer)
      { L.session X with packetCh := [packet] } payload (by rw [hpacket])
      (hm.recvKey X) (hm.sessionID X) (sessionID_of_reachable h.run X) hseq hlen rfl).1]
    exact h.follows.expected_lt_accept (fun _ => rfl) hsent
  refine .step (X, .deliver packet) ⟨trivial, hunforged⟩ ⟨rfl, hwire⟩ <|
    .step (X, .packetLoop ⟨true, fun _ => true⟩) ⟨he, trivial⟩ ⟨rfl, rfl, fun _ => rfl⟩ <|
    .here ⟨(h₁.packetLoop_apply he).1, ?_⟩
  change _ < ((L₁.apply C (X, .packetLoop ⟨true, fun _ => true⟩)).session X).recv.expected
  rw [Link.session_apply_self]
  exact hnext

/-- Packets arrive in order until the receiver has published all payloads. -/
theorem all (h : Recovering C X payloads L)
    (hpayloads : ∀ payload ∈ payloads, 0 < payload.length) :
    (linkMachine C).CanReach (Arrives X) L fun L' =>
      (L'.session X).recv.output = payloads ∧ (L'.session X).closed = false ∧
        (L'.session X.peer).closed = false := by
  apply Machine.CanReach.of_measure (P := Recovering C X payloads)
    (fun L' => payloads.length + 1 - (L'.session X).recv.expected) ?_ h
  intro L h
  by_cases hless : (L.session X).recv.expected ≤ payloads.length
  · right
    refine (h.idle le_rfl).trans ?_
    rintro L₁ ⟨h₁, hle, hq, hloop⟩
    by_cases hless₁ : (L₁.session X).recv.expected ≤ payloads.length
    · refine (h₁.advance hq hloop hless₁ hpayloads).trans ?_
      rintro L₂ ⟨h₂, hlt⟩
      exact .here ⟨h₂, by omega⟩
    · exact .here ⟨h₁, by omega⟩
  · refine Or.inl ⟨?_, h.receiver, h.sender⟩
    rw [h.follows.output, List.take_of_length_le (by omega)]

end Recovering

/-- What the window keeps of a link whose calls have returned: each number sent is
retained by the receiver or pending. -/
theorem covered_of_reachable {C : Crypto} {L : Link} {X : Side}
    (run : (linkMachine C).ReachableUnder (linkWithinWindow C) L)
    (hreceiver : (L.session X).closed = false) (hsender : (L.session X.peer).closed = false)
    (hcalls : (L.session X.peer).sends = []) {seq : Nat} (hpos : 0 < seq)
    (hle : seq ≤ (L.sent X.peer).length) :
    (L.session X).recv.Retains seq ∨ seq ∈ (L.session X.peer).pending := by
  have hr := linkRetention_of_reachable run
  rw [← ((linkInvariant_of_reachable run.reachable).counter X.peer).1] at hle
  obtain (⟨packet, hcall⟩ | hcall | hmem) | hauth := hr.tracked X.peer hsender seq hpos hle
  · rw [hcalls] at hcall
    cases hcall
  · rw [hcalls] at hcall
    cases hcall
  · exact Or.inr hmem
  · rw [Side.peer_peer] at hauth
    exact Or.inl (hr.retained X hreceiver seq hauth)

/-- A tick at which every pending entry is due and has a try left writes all of
their packets. -/
theorem Recovering.of_tick {C : Crypto} {L : Link} {X : Side}
    (run : (linkMachine C).ReachableUnder (linkWithinWindow C) L)
    (hreceiver : (L.session X).closed = false) (hsender : (L.session X.peer).closed = false)
    (hcalls : (L.session X.peer).sends = [])
    (htries : ∀ seq item, Finmap.lookup seq (L.session X.peer).pending = some item →
      item.retries < udpMaxRetries)
    {due : List Nat} (hnodup : due.Nodup)
    (hdue : ∀ seq, seq ∈ due ↔ seq ∈ (L.session X.peer).pending) :
    Recovering C X (L.sent X.peer) (L.apply C (X.peer, .retransmit due none)) := by
  let Y := X.peer
  have hmem : ∀ seq ∈ due, seq ∈ (L.session Y).pending := fun seq => (hdue seq).mp
  have hexhausted : (UdpSession.retransmitScan due (L.session Y).pending).2.2 = false := by
    by_contra hnone
    obtain ⟨seq, item, -, hl, hmax⟩ :=
      UdpSession.exhausted_of_retransmitScan hnodup (Bool.not_eq_false _ ▸ hnone)
    exact absurd (htries seq item hl) (Nat.not_lt.mpr hmax)
  have he : L.enabled C (Y, .retransmit due none) := ⟨hsender, trivial⟩
  have hX : (L.apply C (Y, .retransmit due none)).session X = L.session X :=
    Function.update_of_ne (Side.peer_ne X).symm ..
  have hsent : (L.apply C (Y, .retransmit due none)).sent Y = L.sent Y := by
    simp [Link.apply, UdpSession.sealRecord]
  have hwire : (L.apply C (Y, .retransmit due none)).wire Y =
      L.wire Y ++ due.map (L.session Y).pendingPacket := by
    have hwritten := UdpSession.resent_eq none hnodup hmem
    rw [UdpSession.resentNumbers, if_neg (by rw [hexhausted]; decide)] at hwritten
    exact (Function.update_self ..).trans (congrArg (L.wire Y ++ ·) hwritten)
  refine ⟨run.reachable.next he trivial, ?_, ?_, ?_, hsent, ?_⟩
  · rw [hX]
    exact hreceiver
  · rw [hX]
    exact (linkRetention_of_reachable run).room X hreceiver
  · rw [Link.session_apply_self]
    simp [UdpSession.apply, UdpSession.tickFails, hexhausted, hsender, Y]
  · intro seq hpos hle
    rw [hX]
    obtain hretains | hpending := covered_of_reachable run hreceiver hsender hcalls hpos hle
    · exact Or.inl hretains
    · obtain ⟨item, hl⟩ := Finmap.mem_iff.mp hpending
      have hissued := (issuing_of_reachable run.reachable).pending Y seq item hl
      refine Or.inr ⟨item.packet, ?_, Issuing.issued_apply he hissued⟩
      rw [hwire]
      refine List.mem_append_right _ (List.mem_map.mpr ⟨seq, (hdue seq).mpr hpending, ?_⟩)
      simp [UdpSession.pendingPacket, Y, hl]

/-! ## The link under a clock -/

/-- A link under a clock, with the times of the datagrams of each end. -/
structure TimedLink where
  link : Link
  now : Nat
  /-- The values that the field `last` of a side's entries has had, newest first. -/
  times : Side → Nat → List Nat

/-- A step of one side and the time at which it is taken. -/
structure TimedStep where
  event : Side × UdpEvent
  time : Nat

def UdpEvent.isTick : UdpEvent → Bool
  | .retransmit _ _ => true
  | _ => false

namespace TimedLink

variable (C : Crypto)

def enabled (T : TimedLink) (e : TimedStep) : Prop :=
  T.link.enabled C e.event ∧ T.now ≤ e.time ∧
    (T.link.session e.event.1).TakesDue (T.times e.event.1) e.time e.event.2

def apply (T : TimedLink) (e : TimedStep) : TimedLink where
  link := T.link.apply C e.event
  now := e.time
  times := Function.update T.times e.event.1
    ((T.link.session e.event.1).timesAfter (T.times e.event.1) e.time e.event.2)

/-- Every packet that arrives is within the receiver's window. -/
def withinWindow (T : TimedLink) (e : TimedStep) : Prop := linkWithinWindow C T.link e.event

/-- The steps of a recovery of the side `X`: a tick of its peer, and arrivals. -/
def Recovers (X : Side) (T : TimedLink) (e : TimedStep) : Prop :=
  match e.event.2 with
  | .retransmit _ failAt => e.event.1 = X.peer ∧ failAt = none
  | _ => Arrives X T.link e.event

end TimedLink

/-- The runs of a link under a clock. -/
def timedLinkMachine (C : Crypto) : Machine TimedLink TimedStep where
  init := fun T => (linkMachine C).init T.link ∧ T.times = fun _ _ => []
  enabled := TimedLink.enabled C
  apply := TimedLink.apply C

namespace TimedLink

variable {C : Crypto} {T : TimedLink} {X : Side}

theorem link_of_reachable (run : (timedLinkMachine C).ReachableUnder (withinWindow C) T) :
    (linkMachine C).ReachableUnder (linkWithinWindow C) T.link := by
  apply run.invariant (I := fun T => (linkMachine C).ReachableUnder (linkWithinWindow C) T.link)
    (J := fun _ => True) (fun _ _ => trivial)
  · intro T hinit
    exact .start hinit.1
  · intro T e _ h he hok
    exact h.next he.1 hok

theorem mem_timesAfter {s : UdpSession} {times : Nat → List Nat} {time t seq : Nat} {e : UdpEvent}
    (h : t ∈ s.timesAfter times time e seq) : t = time ∨ t ∈ times seq := by
  cases e with
  | sendInsert k packet =>
      simp only [UdpSession.timesAfter] at h
      split at h
      · exact Or.inl (List.mem_singleton.mp h)
      · exact Or.inr h
  | retransmit due failAt =>
      simp only [UdpSession.timesAfter] at h
      split at h
      · exact Or.inr h
      · exact List.mem_cons.mp h
  | _ => exact Or.inr h

/-- No entry has a time that is still to come. -/
theorem times_le_now {ok : TimedLink → TimedStep → Prop}
    (run : (timedLinkMachine C).ReachableUnder ok T) :
    ∀ Y seq, ∀ t ∈ T.times Y seq, t ≤ T.now := by
  apply run.reachable.invariant (I := fun T => ∀ Y seq, ∀ t ∈ T.times Y seq, t ≤ T.now)
  · rintro T ⟨-, htimes⟩ Y seq t ht
    rw [htimes] at ht
    cases ht
  · intro T e h he Y seq t ht
    have hnow : T.now ≤ e.time := he.2.1
    change t ∈ Function.update T.times e.event.1 _ Y seq at ht
    by_cases hY : Y = e.event.1
    · subst hY
      rw [Function.update_self] at ht
      obtain rfl | hold := mem_timesAfter ht
      · exact le_rfl
      · exact (h _ seq t hold).trans hnow
    · rw [Function.update_of_ne hY] at ht
      exact (h Y seq t ht).trans hnow

/-- Long enough after all of them, every pending entry is due. -/
theorem isDue_later {ok : TimedLink → TimedStep → Prop}
    (run : (timedLinkMachine C).ReachableUnder ok T) (Y : Side) (seq : Nat) :
    UdpSession.IsDue (T.times Y) (T.now + udpRetransmitAfter) seq := by
  have hlast : (T.times Y seq).headD 0 ≤ T.now := by
    cases htimes : T.times Y seq with
    | nil => exact Nat.zero_le _
    | cons last earlier =>
        exact times_le_now run Y seq last (htimes ▸ List.mem_cons_self)
  unfold UdpSession.IsDue
  omega

/-- Steps of a link that are no ticks can be taken at any later time. -/
theorem permitted_at {ok : Link → Side × UdpEvent → Prop} {es : List (Side × UdpEvent)}
    (hes : (linkMachine C).Permitted ok T.link es)
    (hticks : ∀ L e, ok L e → e.2.isTick = false) {time : Nat} (htime : T.now ≤ time) :
    (timedLinkMachine C).Permitted (fun T e => ok T.link e.event) T (es.map (⟨·, time⟩)) ∧
      ((es.map (⟨·, time⟩)).foldl (TimedLink.apply C) T).link = es.foldl (Link.apply C) T.link := by
  induction es generalizing T with
  | nil => exact ⟨trivial, rfl⟩
  | cons e es ih =>
      obtain ⟨he, hok, hrest⟩ := hes
      obtain ⟨hnext, hlink⟩ := ih (T := T.apply C ⟨e, time⟩) hrest le_rfl
      refine ⟨⟨⟨he, htime, ?_⟩, hok, hnext⟩, hlink⟩
      obtain ⟨Y, ev⟩ := e
      cases ev with
      | retransmit due failAt => cases hticks _ _ hok
      | _ => trivial

end TimedLink

/-- From every state that a link under a clock reaches within the window, if both
sessions are open, the sender's calls have returned, no payload is empty and the
entries have a try left, one tick of the sender as soon as all of them are due,
arrivals of what it wrote and rounds of the receiver's packet loop can bring every
payload sent so far to the receiver, however many datagrams were lost before. No
acknowledgement has to arrive for it. -/
theorem udp_link_recovers (C : Crypto) (T : TimedLink) (X : Side)
    (run : (timedLinkMachine C).ReachableUnder (TimedLink.withinWindow C) T)
    (hreceiver : (T.link.session X).closed = false)
    (hsender : (T.link.session X.peer).closed = false)
    (hcalls : (T.link.session X.peer).sends = [])
    (hpayloads : ∀ payload ∈ T.link.sent X.peer, 0 < payload.length)
    (htries : ∀ seq item, Finmap.lookup seq (T.link.session X.peer).pending = some item →
      item.retries < udpMaxRetries) :
    ∃ es, (timedLinkMachine C).Permitted (TimedLink.Recovers X) T es ∧
      (∀ e ∈ es, e.time = T.now + udpRetransmitAfter) ∧
      ((es.foldl (TimedLink.apply C) T).link.session X).recv.output = T.link.sent X.peer ∧
      ((es.foldl (TimedLink.apply C) T).link.session X).closed = false ∧
      ((es.foldl (TimedLink.apply C) T).link.session X.peer).closed = false := by
  let time := T.now + udpRetransmitAfter
  obtain ⟨due, hnodup, hdue⟩ : ∃ due : List Nat, due.Nodup ∧
      ∀ seq, seq ∈ due ↔ seq ∈ (T.link.session X.peer).pending :=
    ⟨(T.link.session X.peer).pending.keys.toList, Finset.nodup_toList _, fun seq => by
      rw [Finset.mem_toList, Finmap.mem_keys]⟩
  -- The tick.
  let tick : TimedStep := ⟨(X.peer, .retransmit due none), time⟩
  have htick : T.enabled C tick := by
    refine ⟨⟨hsender, trivial⟩, Nat.le_add_right _ _, hnodup, fun seq => ?_⟩
    rw [hdue]
    exact (and_iff_left (TimedLink.isDue_later run X.peer seq)).symm
  have hrecovering : Recovering C X (T.link.sent X.peer) (T.apply C tick).link :=
    .of_tick (TimedLink.link_of_reachable run) hreceiver hsender hcalls htries hnodup hdue
  -- The arrivals.
  obtain ⟨es, hes, hgoal⟩ := hrecovering.all hpayloads
  have hticks : ∀ L e, Arrives X L e → e.2.isTick = false := by
    rintro L ⟨Y, ev⟩ harrives
    cases ev with
    | retransmit due failAt => exact harrives.elim
    | _ => rfl
  obtain ⟨hpermitted, hlink⟩ :=
    TimedLink.permitted_at hes hticks (show (T.apply C tick).now ≤ time from le_rfl)
  refine ⟨tick :: es.map (⟨·, time⟩), ⟨htick, ⟨rfl, rfl⟩, hpermitted.mono ?_⟩, ?_, ?_⟩
  · rintro T ⟨⟨Y, ev⟩, t⟩ harrives
    cases ev with
    | retransmit due failAt => exact harrives.elim
    | _ => exact harrives
  · intro e he
    obtain rfl | he := List.mem_cons.mp he
    · rfl
    · obtain ⟨event, -, rfl⟩ := List.mem_map.mp he
      rfl
  · rw [List.foldl_cons, hlink]
    exact hgoal

/-- The client of a new link has sent one payload, and its packet is lost. -/
def lostPacketSteps (C : Crypto) : List (Side × UdpEvent) :=
  callSteps .client 1 [0] ((peeredSession sampleKeys 7 .client).dataPacket C 1 [0])

def lostPacket (C : Crypto) : TimedLink :=
  ((lostPacketSteps C).map (⟨·, 0⟩)).foldl (TimedLink.apply C)
    ⟨Link.start sampleKeys 7, 0, fun _ _ => []⟩

theorem udp_link_recovers_lost_packet :
    ((lostPacket Crypto.sum).link.session .server).recv.output = [] ∧
      (lostPacket Crypto.sum).link.sent .client = [[0]] ∧
      ∃ es, (timedLinkMachine Crypto.sum).Permitted (TimedLink.Recovers .server)
          (lostPacket Crypto.sum) es ∧
        ((es.foldl (TimedLink.apply Crypto.sum)
          (lostPacket Crypto.sum)).link.session .server).recv.output = [[0]] := by
  let T : TimedLink := ⟨Link.start sampleKeys 7, 0, fun _ _ => []⟩
  have hcall : (linkMachine Crypto.sum).Permitted
      (fun L e => linkWithinWindow Crypto.sum L e ∧ e.2.isTick = false) T.link
      (lostPacketSteps Crypto.sum) := by
    refine callSteps_permitted rfl rfl (by decide) (by decide) (by decide) fun L e hsend _ =>
      ⟨linkWithinWindow_of_isSend L e hsend, ?_⟩
    obtain ⟨Y, ev⟩ := e
    cases ev with
    | retransmit due failAt => cases hsend
    | _ => rfl
  obtain ⟨hpermitted, hlink⟩ := TimedLink.permitted_at hcall (fun _ _ hok => hok.2) (le_refl T.now)
  have run : (timedLinkMachine Crypto.sum).ReachableUnder (TimedLink.withinWindow Crypto.sum)
      (lostPacket Crypto.sum) := by
    have hstart : (timedLinkMachine Crypto.sum).init T :=
      ⟨⟨sampleKeys, 7, by decide, by decide, by decide, rfl⟩, rfl⟩
    exact (Machine.ReachableUnder.start hstart).run _ (hpermitted.mono fun _ _ hok => hok.1)
  have hsession : (lostPacket Crypto.sum).link.session = _ :=
    (congrArg Link.session hlink).trans
      (foldl_callSteps (L := Link.start sampleKeys 7) (Y := .client) rfl 1 _ rfl rfl).1
  have hclient : (lostPacket Crypto.sum).link.session .client =
      (peeredSession sampleKeys 7 .client).afterCall Crypto.sum [0] := by
    rw [hsession]
    exact Function.update_self ..
  have hserver : (lostPacket Crypto.sum).link.session .server =
      peeredSession sampleKeys 7 .server := by
    rw [hsession]
    exact Function.update_of_ne (by decide) ..
  have hsent : (lostPacket Crypto.sum).link.sent .client = [[0]] := rfl
  obtain ⟨es, hes, -, hout, -⟩ := udp_link_recovers Crypto.sum _ .server run
    (by rw [hserver]; rfl) (by rw [Side.peer, hclient]; rfl) (by rw [Side.peer, hclient]; rfl)
    (by rw [Side.peer, hsent]; decide)
    (by
      intro seq item hl
      rw [Side.peer, hclient, UdpSession.afterCall, Table.lookup_insert_eq] at hl
      split at hl
      · obtain rfl := Option.some.inj hl
        decide
      · simp [peeredSession, newUDPSession] at hl)
  exact ⟨by rw [hserver]; rfl, hsent, es, hes, hout.trans hsent⟩

end UnknownTunnel.Transport

import UnknownTunnel.Transport.UdpLink

/-!
# In-order exactly-once delivery over a UDP link

Every plaintext a side opens was sealed by its peer under the same number,
so the resequencer of a side follows the payloads its peer has sent. An
acknowledgement verifies only after the peer has authenticated the packet it
names.
-/

namespace UnknownTunnel.Transport

open Foundation

namespace Link

variable {C : Crypto} {L : Link} {e : Side × UdpEvent}

theorem apply_session_identity (he : L.enabled C e) (Y : Side) :
    ((L.apply C e).session Y).identity = (L.session Y).identity := by
  by_cases h : Y = e.1
  · subst h
    simpa [apply] using UdpSession.apply_identity he.1
  · simp [apply, h]

theorem apply_sent (Y : Side) :
    ∃ more, (L.apply C e).sent Y = L.sent Y ++ more := by
  by_cases h : Y = e.1
  · subst h
    exact ⟨_, Function.update_self ..⟩
  · exact ⟨[], by simp [apply, h]⟩

theorem mem_sent_apply {Y : Side} {n : Nat} {payload : Bytes}
    (h : (L.sent Y)[n]? = some payload) : ((L.apply C e).sent Y)[n]? = some payload := by
  obtain ⟨more, hmore⟩ := apply_sent (C := C) (L := L) (e := e) Y
  obtain ⟨hlt, -⟩ := List.getElem?_eq_some_iff.mp h
  rw [hmore, List.getElem?_append_left hlt, h]

theorem mem_authenticated_apply {Y : Side} {seq : Nat} (h : seq ∈ L.authenticated Y) :
    seq ∈ (L.apply C e).authenticated Y := by
  by_cases hY : Y = e.1
  · subst hY
    simp [apply, h]
  · simpa [apply, hY] using h

/-- Verification reads only the identity of a session, and the records grow. -/
theorem Unforged.apply (he : L.enabled C e) {Y : Side} {packet : Bytes}
    (h : L.Unforged C Y packet) : (L.apply C e).Unforged C Y packet := by
  have hid := apply_session_identity he Y
  simp only [UdpSession.identity, Prod.mk.injEq] at hid
  obtain ⟨-, -, hrecv, -, hack⟩ := hid
  refine ⟨?_, ?_⟩
  · intro plaintext ho
    simp only [UdpSession.OpensData, hrecv] at ho ⊢
    exact List.mem_append_left _ (h.1 plaintext ho)
  · intro hv
    simp only [UdpSession.VerifiesAck, hack] at hv ⊢
    exact List.mem_append_left _ (h.2 hv)

end Link

/-- The keys of the two sides mirror each other and the directions differ. -/
structure Mirrored (L : Link) : Prop where
  sessionID : ∀ X, (L.session X).sessionID = (L.session X.peer).sessionID
  recvKey : ∀ X, (L.session X).recvKey = (L.session X.peer).sendKey
  recvACK : ∀ X, (L.session X).recvACK = (L.session X.peer).sendACK
  sendKey : ∀ X, (L.session X).sendKey ≠ (L.session X.peer).sendKey
  sendACK : ∀ X, (L.session X).sendACK ≠ (L.session X.peer).sendACK

/-- Everything a run of the link keeps. -/
structure LinkInvariant (C : Crypto) (L : Link) : Prop where
  mirrored : Mirrored L
  counter : ∀ X, (L.session X).sendSeq = (L.sent X).length ∧ (L.sent X).length < 2 ^ 64
  sealed : ∀ r ∈ L.sealed, ∃ X seq, r.key = (L.session X).sendKey ∧ 0 < seq ∧
    r.aad = makeUDPHeader udpPacketData (L.session X).sessionID seq
      (r.plaintext.length + aeadOverhead) ∧
    (L.sent X)[seq - 1]? = some r.plaintext
  maced : ∀ r ∈ L.maced, ∃ X, ∃ seq ∈ L.authenticated X,
    r = (L.session X).macRecord seq
  authenticated : ∀ X, ∀ seq ∈ L.authenticated X,
    0 < seq ∧ seq ≤ (L.sent X.peer).length
  queued : ∀ X, ∀ packet ∈ (L.session X).packetCh, L.Unforged C X packet
  follows : ∀ X, (L.session X).recv.Follows maxUDPReorder (L.sent X.peer)

namespace LinkInvariant

variable {C : Crypto} {L : Link} {e : Side × UdpEvent}

/-- An opened packet carries the payload its peer sent under its number. -/
theorem opened (h : LinkInvariant C L) {X : Side} {packet plaintext : Bytes}
    (hf : L.Unforged C X packet) (ho : (L.session X).OpensData C packet plaintext) :
    0 < udpSeq packet ∧ (L.sent X.peer)[udpSeq packet - 1]? = some plaintext := by
  obtain ⟨Y, seq, hkey, hpos, haad, hsent⟩ := h.sealed _ (hf.1 plaintext ho)
  have hY : Y = X.peer := by
    rcases Side.eq_or_eq_peer X.peer Y with hY | hY
    · exact hY
    · rw [Side.peer_peer] at hY
      subst hY
      exact absurd (hkey.symm.trans (h.mirrored.recvKey Y)) (h.mirrored.sendKey Y)
  subst hY
  have hlt : seq < 2 ^ 64 := by
    obtain ⟨hlt, -⟩ := List.getElem?_eq_some_iff.mp hsent
    have hcount := (h.counter X.peer).2
    omega
  have hseq : udpSeq packet = seq := udpSeq_of_take haad hlt
  rw [hseq]
  exact ⟨hpos, hsent⟩

/-- A verified acknowledgement names a number its peer has authenticated. -/
theorem acknowledged (h : LinkInvariant C L) {X : Side} {packet : Bytes}
    (hf : L.Unforged C X packet) (hv : (L.session X).VerifiesAck C packet) :
    udpSeq packet ∈ L.authenticated X.peer := by
  obtain ⟨Y, seq, hmem, hr⟩ := h.maced _ (hf.2 hv)
  simp only [UdpSession.macRecord, MacRecord.mk.injEq] at hr
  obtain ⟨hkey, hheader⟩ := hr
  have hY : Y = X.peer := by
    rcases Side.eq_or_eq_peer X.peer Y with hY | hY
    · exact hY
    · rw [Side.peer_peer] at hY
      subst hY
      exact absurd (hkey.symm.trans (h.mirrored.recvACK Y)) (h.mirrored.sendACK Y)
  subst hY
  have hlt : seq < 2 ^ 64 := by
    have hle := (h.authenticated X.peer seq hmem).2
    have hcount := (h.counter X.peer.peer).2
    omega
  rw [udpSeq_of_take hheader hlt]
  exact hmem

theorem start {keys : KeySet} {sessionID : Nat} (hs : keys.clientSend ≠ keys.serverSend)
    (ha : keys.clientAck ≠ keys.serverAck) : LinkInvariant C (Link.start keys sessionID) where
  mirrored :=
    { sessionID := by intro X; cases X <;> rfl
      recvKey := by intro X; cases X <;> rfl
      recvACK := by intro X; cases X <;> rfl
      sendKey := by intro X; cases X <;> [exact hs; exact hs.symm]
      sendACK := by intro X; cases X <;> [exact ha; exact ha.symm] }
  counter := by intro X; cases X <;> exact ⟨rfl, by simp [Link.start]⟩
  sealed := by intro r hr; cases hr
  maced := by intro r hr; cases hr
  authenticated := by intro X seq hseq; cases hseq
  queued := by intro X packet hp; cases X <;> cases hp
  follows := by intro X; cases X <;> exact Resequencer.fresh_follows _ _

theorem mirrored_apply (h : Mirrored L) (he : L.enabled C e) : Mirrored (L.apply C e) := by
  have hid := fun Y => Link.apply_session_identity he Y
  simp only [UdpSession.identity, Prod.mk.injEq] at hid
  refine ⟨?_, ?_, ?_, ?_, ?_⟩ <;> intro X <;>
    obtain ⟨h₁, h₂, h₃, h₄, h₅⟩ := hid X <;>
    obtain ⟨k₁, k₂, k₃, k₄, k₅⟩ := hid X.peer
  · rw [h₁, k₁, h.sessionID X]
  · rw [h₃, k₂, h.recvKey X]
  · rw [h₅, k₄, h.recvACK X]
  · rw [h₂, k₂]
    exact h.sendKey X
  · rw [h₄, k₄]
    exact h.sendACK X

theorem counter_apply (h : LinkInvariant C L) (he : L.enabled C e) (Y : Side) :
    ((L.apply C e).session Y).sendSeq = ((L.apply C e).sent Y).length ∧
      ((L.apply C e).sent Y).length < 2 ^ 64 := by
  obtain ⟨hc, hb⟩ := h.counter Y
  by_cases hY : Y = e.1
  · subst hY
    have hseq := UdpSession.apply_sendSeq (C := C) he.1
    have hlen : ((L.apply C e).sent e.1).length = (L.session e.1).sendSeq +
        ((L.session e.1).sealRecord e.2).toList.length := by
      rw [hc]
      cases hr : (L.session e.1).sealRecord e.2 <;> simp [Link.apply, hr]
    refine ⟨by rw [hlen, ← hseq]; simp [Link.apply], ?_⟩
    rw [hlen]
    rcases e with ⟨X, ev⟩
    cases ev with
    | sendSeal payload => exact he.1.2
    | _ =>
        simp only [UdpSession.sealRecord, Option.toList_none, List.length_nil, Nat.add_zero]
        exact hc ▸ hb
  · simpa [Link.apply, hY] using ⟨hc, hb⟩

theorem sealed_apply (h : LinkInvariant C L) (he : L.enabled C e) :
    ∀ r ∈ (L.apply C e).sealed, ∃ X seq, r.key = ((L.apply C e).session X).sendKey ∧ 0 < seq ∧
      r.aad = makeUDPHeader udpPacketData ((L.apply C e).session X).sessionID seq
        (r.plaintext.length + aeadOverhead) ∧
      ((L.apply C e).sent X)[seq - 1]? = some r.plaintext := by
  have hid := fun Y => Link.apply_session_identity he Y
  simp only [UdpSession.identity, Prod.mk.injEq] at hid
  intro r hr
  rcases List.mem_append.mp hr with hr | hr
  · obtain ⟨X, seq, hkey, hpos, haad, hsent⟩ := h.sealed r hr
    obtain ⟨hsid, hsend, -⟩ := hid X
    exact ⟨X, seq, by rw [hsend, hkey], hpos, by rw [hsid, haad], Link.mem_sent_apply hsent⟩
  · rcases e with ⟨X, ev⟩
    cases ev with
    | sendSeal payload =>
        simp only [UdpSession.sealRecord, Option.toList_some, List.mem_singleton] at hr
        subst hr
        obtain ⟨hsid, hsend, -⟩ := hid X
        refine ⟨X, (L.session X).sendSeq + 1, by rw [hsend], Nat.succ_pos _, by rw [hsid], ?_⟩
        simp [Link.apply, UdpSession.sealRecord, (h.counter X).1]
    | _ => simp [UdpSession.sealRecord] at hr

theorem maced_apply (h : LinkInvariant C L) (he : L.enabled C e) :
    ∀ r ∈ (L.apply C e).maced, ∃ X, ∃ seq ∈ (L.apply C e).authenticated X,
      r = ((L.apply C e).session X).macRecord seq := by
  have hid := fun Y => Link.apply_session_identity he Y
  simp only [UdpSession.identity, Prod.mk.injEq] at hid
  have hmac : ∀ X seq, ((L.apply C e).session X).macRecord seq =
      (L.session X).macRecord seq := by
    intro X seq
    obtain ⟨hsid, -, -, hsend, -⟩ := hid X
    simp only [UdpSession.macRecord, hsid, hsend]
  intro r hr
  rcases List.mem_append.mp hr with hr | hr
  · obtain ⟨X, seq, hmem, hr⟩ := h.maced r hr
    exact ⟨X, seq, Link.mem_authenticated_apply hmem, by rw [hmac, hr]⟩
  · cases hack : (L.session e.1).acked C e.2 with
    | none => simp [hack] at hr
    | some seq =>
        simp only [hack, Option.map_some, Option.toList_some, List.mem_singleton] at hr
        exact ⟨e.1, seq, by simp [Link.apply, hack], by rw [hmac, hr]⟩

theorem authenticated_apply (h : LinkInvariant C L) (he : L.enabled C e) :
    ∀ X, ∀ seq ∈ (L.apply C e).authenticated X,
      0 < seq ∧ seq ≤ ((L.apply C e).sent X.peer).length := by
  have hold : ∀ X, ∀ seq ∈ L.authenticated X,
      0 < seq ∧ seq ≤ ((L.apply C e).sent X.peer).length := by
    intro X seq hseq
    obtain ⟨hpos, hle⟩ := h.authenticated X seq hseq
    obtain ⟨more, hmore⟩ := Link.apply_sent (C := C) (L := L) (e := e) X.peer
    refine ⟨hpos, ?_⟩
    rw [hmore, List.length_append]
    omega
  intro X seq hseq
  by_cases hX : X = e.1
  · subst hX
    simp only [Link.apply, Function.update_self, List.mem_append, Option.mem_toList] at hseq
    rcases hseq with hseq | hseq
    · exact hold _ seq hseq
    · obtain ⟨packet, plaintext, hmem, ho, rfl⟩ := UdpSession.acked_eq_some he.1 hseq
      obtain ⟨hpos, hsent⟩ := h.opened (h.queued _ packet hmem) ho
      obtain ⟨hlt, -⟩ := List.getElem?_eq_some_iff.mp
        (Link.mem_sent_apply (C := C) (e := e) hsent)
      exact ⟨hpos, by omega⟩
  · simp only [Link.apply, Function.update_of_ne hX] at hseq
    exact hold X seq hseq

theorem queued_apply (h : LinkInvariant C L) (he : L.enabled C e) :
    ∀ X, ∀ packet ∈ ((L.apply C e).session X).packetCh, (L.apply C e).Unforged C X packet := by
  intro X packet hp
  apply Link.Unforged.apply he
  by_cases hX : X = e.1
  · subst hX
    simp only [Link.apply, Function.update_self] at hp
    rcases UdpSession.mem_packetCh_apply he.1 hp with hp | hev
    · exact h.queued _ packet hp
    · have hf := he.2
      rw [hev] at hf
      exact hf
  · simp only [Link.apply, Function.update_of_ne hX] at hp
    exact h.queued X packet hp

theorem follows_apply (h : LinkInvariant C L) (he : L.enabled C e) :
    ∀ X, ((L.apply C e).session X).recv.Follows maxUDPReorder ((L.apply C e).sent X.peer) := by
  intro X
  obtain ⟨more, hmore⟩ := Link.apply_sent (C := C) (L := L) (e := e) X.peer
  rw [hmore]
  by_cases hX : X = e.1
  · subst hX
    simp only [Link.apply, Function.update_self]
    rcases UdpSession.apply_recv (C := C) he.1 with hr | ⟨io, packet, plaintext, -, hmem, ho, hr⟩
    · rw [hr]
      exact (h.follows _).append more
    · rw [hr]
      have hsent := (h.opened (h.queued _ packet hmem) ho).2
      exact ((h.follows _).accept hsent).append more
  · simp only [Link.apply, Function.update_of_ne hX]
    exact (h.follows X).append more

theorem apply (h : LinkInvariant C L) (he : L.enabled C e) : LinkInvariant C (L.apply C e) where
  mirrored := mirrored_apply h.mirrored he
  counter := h.counter_apply he
  sealed := h.sealed_apply he
  maced := h.maced_apply he
  authenticated := h.authenticated_apply he
  queued := h.queued_apply he
  follows := h.follows_apply he

end LinkInvariant

/-- The invariant holds in every state a link reaches. -/
theorem linkInvariant_of_reachable {C : Crypto} {L : Link}
    (run : (linkMachine C).Reachable L) : LinkInvariant C L := by
  apply run.invariant
  · rintro L ⟨keys, sessionID, hs, ha, -, rfl⟩
    exact LinkInvariant.start hs ha
  · intro L e h he
    exact h.apply he

/-- In every state a link reaches, a side has published exactly the payloads
its peer sent under the numbers before the expected one, in order. Whatever
waits is the payload sent under its number and lies in the window, and an
entry leaves the pending table only after the peer has authenticated it. -/
theorem udp_in_order_exactly_once (C : Crypto) (L : Link) (run : (linkMachine C).Reachable L)
    (X : Side) :
    (L.session X).sendSeq = (L.sent X).length ∧
    0 < (L.session X).recv.expected ∧
    (L.session X).recv.expected - 1 ≤ (L.sent X.peer).length ∧
    (L.session X).recv.output = (L.sent X.peer).take ((L.session X).recv.expected - 1) ∧
    (∀ seq payload, Finmap.lookup seq (L.session X).recv.reorder = some payload →
      (L.session X).recv.expected < seq ∧ seq ≤ (L.session X).recv.expected + 4096 ∧
        (L.sent X.peer)[seq - 1]? = some payload) ∧
    (∀ io, (L.session X).enabled (.packetLoop io) → ∀ seq ∈ (L.session X).pending,
      seq ∉ ((L.session X).apply C (.packetLoop io)).pending →
        seq ∈ L.authenticated X.peer) := by
  have h := linkInvariant_of_reachable run
  have hf := h.follows X
  refine ⟨(h.counter X).1, hf.pos, by have := hf.bound; omega, hf.output, hf.waiting, ?_⟩
  intro io he seq hm hgone
  obtain ⟨packet, rest, hq, hout⟩ := UdpSession.packetLoop_outcome C he
  generalize (L.session X).apply C (.packetLoop io) = t at hout hgone
  generalize (L.session X).acked C (.packetLoop io) = acked at hout
  cases hout with
  | released hv hmem =>
      have hseq : seq = udpSeq packet := by
        by_contra hne
        exact hgone (Finmap.mem_erase.mpr ⟨hne, hm⟩)
      rw [hseq]
      exact h.acknowledged (h.queued X packet (by simp [hq])) hv
  | ignored => exact absurd hm hgone
  | accepted plaintext hopen hack => exact absurd hm hgone
  | unacknowledged plaintext hopen hack => exact absurd hm hgone

theorem udp_in_order_exactly_once_one_packet :
    ∃ L, (linkMachine Crypto.sum).Reachable L ∧ L.sent .client = [[0]] ∧
      (L.session .server).recv.expected = 2 ∧ (L.session .server).recv.output = [[0]] := by
  obtain ⟨L, run, hserver, -, hwritten, hsent, hsealed⟩ :=
    exists_unanswered Crypto.sum sampleKeys 7 [0] (by decide) (by decide) (by decide) (by decide)
      1 (by decide) (fun _ _ _ => trivial)
  have hdata : L.Unforged Crypto.sum .server
      ((peeredSession sampleKeys 7 .client).dataPacket Crypto.sum 1 [0]) := by
    rw [Link.Unforged, hserver]
    constructor
    · intro plaintext hopen
      have hsame : (some [0] : Option Bytes) = some plaintext := by
        rw [← hopen.2]
        decide
      cases hsame
      exact hsealed 1 (by decide) le_rfl
    · intro hv
      exact absurd hv (by unfold UdpSession.VerifiesAck; decide)
  let io : PacketIO := ⟨true, fun _ => true⟩
  obtain ⟨L', run', hserver', -, hsent', -⟩ :=
    Link.receive io (by rw [hserver]; rfl) (by rw [hserver]; rfl) (by rw [hserver]; rfl) hdata
      trivial (fun _ => trivial) run
  rw [hserver, (UdpSession.packetLoop_dataPacket (C := Crypto.sum)
    (peeredSession sampleKeys 7 .client)
    { peeredSession sampleKeys 7 .server with
      packetCh := [(peeredSession sampleKeys 7 .client).dataPacket Crypto.sum 1 [0]] }
    [0] rfl rfl rfl (by decide) (by decide) (by decide) (rfl : io.ackWritten = true)).1] at hserver'
  have hexpected : (L'.session .server).recv.expected = 2 := by
    rw [hserver']
    decide
  refine ⟨L', run', hsent' ▸ hsent, hexpected, ?_⟩
  rw [(udp_in_order_exactly_once Crypto.sum L' run' .server).2.2.2.1, hexpected, Side.peer,
    hsent', hsent]
  rfl

end UnknownTunnel.Transport

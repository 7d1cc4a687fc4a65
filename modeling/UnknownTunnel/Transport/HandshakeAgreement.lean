import UnknownTunnel.Transport.KeyDerivation

/-!
# Handshake agreement

A session a dial returns has exactly one counterpart at the server, and a
session the server exposes has exactly one counterpart at the client: the
same carrier, nonces and identifier, and each other's keys.

## Implementation notes

Agreement on the carrier does not come from the handshake messages, which are
the same on both, but from the key confirmation: the text that was opened was
sealed on the same carrier by the only end that holds the key for sending.
-/

namespace UnknownTunnel.Transport

open Foundation

namespace UdpServer

variable {C : Crypto} {cfg : NodeConfig} {S : UdpServer} {e : ServerEvent}

/-- Only the read loop adds to the datagrams of an object. -/
theorem delivered_objectAfter (he : S.enabled e) {j : Nat} {o : ServerSession}
    (ho : S.objects[j]? = some o) {packet : Bytes} :
    packet ∈ (S.objectAfter C e j o).delivered →
      packet ∈ o.delivered ∨ S.reader = .delivering j packet := by
  refine objectAfter_induction (motive := fun p => packet ∈ p.delivered →
    packet ∈ o.delivered ∨ S.reader = .delivering j packet) he ho ?_ ?_
  · intro p hp hmem
    cases hp with
    | delivered packet' h =>
        rcases List.mem_append.mp hmem with hmem | hmem
        · exact Or.inl hmem
        · rw [List.mem_singleton.mp hmem]
          exact Or.inr h
    | received hw =>
        left
        rw [ServerSession.receiveConfirm] at hmem
        split at hmem
        · split at hmem <;> exact hmem
        · exact hmem
    | _ => exact Or.inl hmem
  · intro p hp
    exact hp

/-- The read loop delivers the datagram it has just read. -/
theorem reader_delivering_apply (he : S.enabled e) {i : Nat} {packet : Bytes}
    (h : (S.apply C cfg e).reader = .delivering i packet) :
    S.reader = .delivering i packet ∨ ∃ now remote, e = .datagram now remote packet := by
  cases e with
  | datagram now remote packet' =>
      simp only [apply, control, readLoop] at h
      split at h
      · split at h
        · cases h
        · split at h <;> cases h
      · split at h
        · cases h
        · split at h
          · cases h
          · split at h
            · cases h
              exact Or.inr ⟨now, remote, rfl⟩
            · cases h
  | readError | deliver | abandon | welcome => cases h
  | register sessionID serverNonce timestamp =>
      obtain ⟨⟨remote, hello, hr⟩, -⟩ := he
      simp only [apply, control, register, hr] at h
      split at h <;> cases h
  | reap j =>
      obtain ⟨o, ho, -⟩ := he
      simp only [apply, control, ho, reapTables] at h
      left
      split at h <;> exact h
  | confirmCommit j =>
      obtain ⟨o, ho, -⟩ := he
      simp only [apply, control, ho, commitTables] at h
      left
      split at h <;> exact h
  | _ => exact Or.inl h

end UdpServer

namespace World

variable {C : Crypto} {cfg : NodeConfig} {W : World} {e : WorldEvent}

/-! ## Calls of `Seal` -/

theorem sealed_subset (C : Crypto) (cfg : NodeConfig) (W : World) (e : WorldEvent) :
    W.sealed ⊆ (W.apply C cfg e).sealed := by
  cases e with
  | newDial carrier nonce timestamp => exact fun _ h => h
  | dial i ev => exact List.subset_append_left _ _
  | server ev => exact List.subset_append_left _ _
  | accept j ev => exact List.subset_append_left _ _
  | newAccept now stream serverNonce timestamp written =>
      rcases newAccept_cases C cfg W now stream serverNonce timestamp written with
        h | ⟨_, _, -, -, h⟩
      · rw [h]
        exact fun _ hr => hr
      · rw [h]
        exact fun _ hr => hr

theorem created_udp {i : Nat} : W.created (.udp i) ↔ ∃ v, W.serverEnd (.udp i) = some v := by
  simp only [created, serverEnd, Option.map_eq_some_iff]
  constructor
  · intro h
    exact ⟨_, _, List.getElem?_eq_getElem h, rfl⟩
  · rintro ⟨v, o, ho, -⟩
    exact (List.getElem?_eq_some_iff.mp ho).1

/-- The TCP end at a place is as it was, has taken a step, or is new. -/
theorem accept_cases (he : W.enabled cfg e) {j : Nat} {a' : Accept}
    (h : (W.apply C cfg e).accepts[j]? = some a') :
    W.accepts[j]? = some a' ∨
    (∃ a ev, e = .accept j ev ∧ W.accepts[j]? = some a ∧ a.enabled ev ∧ a' = a.apply C ev) ∨
    ∃ hello serverNonce written, a' = Accept.start C cfg hello serverNonce written := by
  cases e with
  | newDial carrier nonce timestamp => exact Or.inl h
  | dial i ev => exact Or.inl h
  | server ev => exact Or.inl h
  | newAccept now stream serverNonce timestamp written =>
      rcases newAccept_cases C cfg W now stream serverNonce timestamp written with
        hw | ⟨hello, _, -, -, hw⟩
      · rw [hw] at h
        exact Or.inl h
      · rw [hw] at h
        simp only [List.getElem?_append] at h
        split at h
        · exact Or.inl h
        · obtain ⟨hlt, ha⟩ := List.getElem?_eq_some_iff.mp h
          refine Or.inr (Or.inr ⟨hello, serverNonce, written, ?_⟩)
          rw [← ha]
          simp
  | accept i ev =>
      obtain ⟨a, ha, hen⟩ := he
      simp only [apply, List.getElem?_modify] at h
      by_cases hij : i = j
      · subst hij
        rw [ha] at h
        simp only [if_true, Option.map_eq_map, Option.map_some, Option.some.injEq] at h
        exact Or.inr (Or.inl ⟨a, ev, rfl, ha, hen, h.symm⟩)
      · simp only [hij, if_false] at h
        left
        simpa using h

theorem accept_keep (C : Crypto) (he : W.enabled cfg e) {j : Nat} {a : Accept}
    (h : W.accepts[j]? = some a) :
    ∃ a', (W.apply C cfg e).accepts[j]? = some a' ∧ a'.created = a.created := by
  cases e with
  | newDial carrier nonce timestamp => exact ⟨a, h, rfl⟩
  | dial i ev => exact ⟨a, h, rfl⟩
  | server ev => exact ⟨a, h, rfl⟩
  | newAccept now stream serverNonce timestamp written =>
      refine ⟨a, ?_, rfl⟩
      rcases newAccept_cases C cfg W now stream serverNonce timestamp written with
        hw | ⟨_, _, -, -, hw⟩
      · rw [hw]
        exact h
      · rw [hw]
        exact (List.getElem?_append_left (List.getElem?_eq_some_iff.mp h).1).trans h
  | accept i ev =>
      obtain ⟨p, hp, hen⟩ := he
      simp only [apply, List.getElem?_modify, h]
      by_cases hij : i = j
      · subst hij
        rw [h] at hp
        cases hp
        exact ⟨a.apply C ev, by simp, Accept.created_apply hen⟩
      · exact ⟨a, by simp [hij], rfl⟩

/-- The server node keeps the sessions it has made. -/
theorem created_keep (C : Crypto) (he : W.enabled cfg e) {r : EndRef} (h : W.created r) :
    (W.apply C cfg e).created r := by
  cases r with
  | udp i =>
      obtain ⟨v, hv⟩ := created_udp.mp h
      exact created_udp.mpr ⟨v, serverEnd_keep he hv⟩
  | tcp j =>
      obtain ⟨a, ha, hc⟩ := h
      obtain ⟨a', ha', hsame⟩ := accept_keep C he ha
      exact ⟨a', ha', hsame.trans hc⟩

/-- A record was made by an end that uses the key for sending. -/
def Sealer (W : World) (r : SealRecord) : Prop :=
  (∃ i c, W.clientEnd i = some c ∧ r.key = c.keys.send ∧ r.aad.length = c.carrier.aadLen) ∨
  ∃ ref v, W.serverEnd ref = some v ∧ W.created ref ∧ r.key = v.keys.send ∧
    r.aad.length = v.carrier.aadLen

theorem Sealer.apply {r : SealRecord} (h : W.Sealer r) (he : W.enabled cfg e) :
    (W.apply C cfg e).Sealer r := by
  rcases h with ⟨i, c, hc, hrest⟩ | ⟨ref, v, hv, hcreated, hrest⟩
  · exact Or.inl ⟨i, c, clientEnd_keep C he hc, hrest⟩
  · exact Or.inr ⟨ref, v, serverEnd_keep he hv, created_keep C he hcreated, hrest⟩

theorem dial_sealer {i : Nat} {d : Dial} {ev : DialEvent} {r : SealRecord}
    (hd : W.dials[i]? = some d) (hr : d.sealRecord ev = some r) : W.Sealer r := by
  rw [Dial.sealRecord] at hr
  split at hr
  · rename_i nonce s confirm se hphase hev
    obtain ⟨hkey, hlen⟩ := Session.sealRecord_eq_some hr
    refine Or.inl ⟨i, ⟨s.kind, s.sessionID, d.nonce, nonce, s.keys⟩, ?_, hkey, hlen⟩
    rw [clientEnd_of hd, Dial.sessionEnd, hphase]
  · cases hr

theorem server_sealer {ev : ServerEvent} {r : SealRecord}
    (hr : serverSeal W.server ev = some r) : W.Sealer r := by
  cases ev with
  | session i ue =>
      obtain ⟨o, ho, hr⟩ := Option.bind_eq_some_iff.mp hr
      obtain ⟨hkey, hlen⟩ := Session.sealRecord_eq_some (s := .udp o.session) (e := .udp ue) hr
      have hend : W.serverEnd (.udp i) = some o.sessionEnd := by
        simp only [serverEnd, ho, Option.map_some]
      exact Or.inr ⟨.udp i, o.sessionEnd, hend, created_udp.mpr ⟨_, hend⟩, hkey, hlen⟩
  | _ => cases hr

theorem accept_sealer {j : Nat} {a : Accept} {ev : AcceptEvent} {r : SealRecord}
    (ha : W.accepts[j]? = some a) (hen : a.enabled ev) (hr : a.sealRecord ev = some r) :
    W.Sealer r := by
  obtain ⟨hcreated, hkey, hlen⟩ := Accept.sealRecord_eq_some hen hr
  refine Or.inr ⟨.tcp j, a.sessionEnd, ?_, ⟨a, ha, hcreated⟩, hkey, hlen⟩
  simp only [serverEnd, ha, Option.map_some]

/-- Every call of `Seal` is made by an end. -/
theorem sealer_apply (he : W.enabled cfg e) (h : ∀ r ∈ W.sealed, W.Sealer r) :
    ∀ r ∈ (W.apply C cfg e).sealed, (W.apply C cfg e).Sealer r := by
  intro r hr
  refine Sealer.apply ?_ he
  cases e with
  | newDial carrier nonce timestamp => exact h r hr
  | dial i ev =>
      obtain ⟨d, hd, -⟩ := he
      rcases List.mem_append.mp hr with hr | hr
      · exact h r hr
      · rw [Option.mem_toList, hd] at hr
        exact dial_sealer hd hr
  | server ev =>
      rcases List.mem_append.mp hr with hr | hr
      · exact h r hr
      · rw [Option.mem_toList] at hr
        exact server_sealer hr
  | accept j ev =>
      obtain ⟨a, ha, hen⟩ := he
      rcases List.mem_append.mp hr with hr | hr
      · exact h r hr
      · rw [Option.mem_toList, ha] at hr
        exact accept_sealer ha hen hr
  | newAccept now stream serverNonce timestamp written =>
      rcases newAccept_cases C cfg W now stream serverNonce timestamp written with
        hw | ⟨_, _, -, -, hw⟩
      · rw [hw] at hr
        exact h r hr
      · rw [hw] at hr
        exact h r hr

/-! ## What has been received -/

/-- Whatever the ends have received was sealed for them. -/
structure ReceivedOk (C : Crypto) (W : World) : Prop where
  dial : ∀ (i : Nat) (d : Dial) nonce s c, W.dials[i]? = some d →
    d.phase = .established nonce s c →
    s.Vouched C W.sealed ∧ (c = .returned → SealedUnder W.sealed s.kind s.keys.recv)
  accept : ∀ (j : Nat) (a : Accept), W.accepts[j]? = some a →
    a.session.Vouched W.sealed ∧
      (a.state = .exposed → SealedUnder W.sealed .tcp a.session.recvKey)
  delivered : ∀ (i : Nat) (o : ServerSession), W.server.objects[i]? = some o →
    ∀ packet ∈ o.delivered, o.session.PacketUnforged C W.sealed packet
  delivering : ∀ i packet, W.server.reader = .delivering i packet →
    ∀ (j : Nat) (o : ServerSession), W.server.objects[j]? = some o →
      o.session.PacketUnforged C W.sealed packet

theorem newSession_vouched (C : Crypto) (cfg : NodeConfig) (d : Dial) (w : Handshake)
    (sealed : List SealRecord) : (d.newSession C cfg w).Vouched C sealed := by
  rw [Dial.newSession]
  cases d.carrier with
  | tcp => exact fun h => absurd rfl h
  | udp => exact ⟨fun _ hp => absurd hp List.not_mem_nil, Resequencer.fresh_sourced _⟩

theorem ReceivedOk.dial_apply (h : W.ReceivedOk C) (he : W.enabled cfg e)
    (hi : W.Ideal C cfg e) {i : Nat} {d' : Dial} {nonce : Bytes} {s : Session}
    {c : ClientConfirm} (hd' : (W.apply C cfg e).dials[i]? = some d')
    (hp : d'.phase = .established nonce s c) :
    s.Vouched C W.sealed ∧ (c = .returned → SealedUnder W.sealed s.kind s.keys.recv) := by
  rcases dial_cases he hd' with hd | ⟨d, ev, rfl, hd, hen, rfl⟩ | ⟨-, _, _, _, -, rfl⟩
  · exact h.dial i d' nonce s c hd hp
  · have hmove := Dial.apply_move C cfg.peer hen
    rw [hp] at hmove
    cases hmove with
    | kept n w h₀ hid => exact ⟨newSession_vouched C cfg.peer d w W.sealed, fun hc => by cases hc⟩
    | welcomed n w w' h₀ hw =>
        exact ⟨newSession_vouched C cfg.peer d w' W.sealed, fun hc => by cases hc⟩
    | moved nonce s c₀ c h₀ hr =>
        have hv := (h.dial i d nonce s c₀ hd h₀).1
        exact ⟨hv, fun hc => hv.sealedUnder (hr hc)⟩
    | stepped nonce s₀ c₀ c se h₀ hev hse hr =>
        obtain ⟨hv, hret⟩ := h.dial i d nonce s₀ c₀ hd h₀
        refine ⟨hv.apply hse ((hi.2 d hd).2 nonce s₀ c₀ se h₀ hev), fun hc => ?_⟩
        have hid := Session.identity_apply C hse
        simp only [Session.identity, Prod.mk.injEq] at hid
        rw [hid.1, hid.2.2]
        exact hret (hr hc)
    | closed nonce s₀ c₀ h₀ => exact ⟨(h.dial i d nonce s₀ c₀ hd h₀).1.close, fun hc => by cases hc⟩
  · cases hp

theorem ReceivedOk.accept_apply (h : W.ReceivedOk C) (he : W.enabled cfg e)
    (hi : W.Ideal C cfg e) {j : Nat} {a' : Accept}
    (ha' : (W.apply C cfg e).accepts[j]? = some a') :
    a'.session.Vouched W.sealed ∧
      (a'.state = .exposed → SealedUnder W.sealed .tcp a'.session.recvKey) := by
  rcases accept_cases he ha' with ha | ⟨a, ev, rfl, ha, hen, rfl⟩ | ⟨hello, nonce, written, rfl⟩
  · exact h.accept j a' ha
  · obtain ⟨hv, hex⟩ := h.accept j a ha
    refine ⟨Accept.vouched_apply hv hen (hi.2 a ha), fun hstate => ?_⟩
    have horigin := Accept.origin_apply C a ev
    simp only [Accept.origin, Prod.mk.injEq] at horigin
    rw [horigin.2.2.2]
    rcases Accept.exposed_apply hen hstate with hold | hr
    · exact hex hold
    · exact hv hr
  · refine ⟨fun hr => absurd rfl hr, fun hstate => ?_⟩
    cases written <;> cases hstate

/-- The server node takes steps of the UDP server only. -/
theorem server_apply (C : Crypto) (cfg : NodeConfig) (W : World) (e : WorldEvent) :
    (W.apply C cfg e).server = W.server ∨
      ∃ ev, e = .server ev ∧ (W.apply C cfg e).server = W.server.apply C cfg ev := by
  cases e with
  | server ev => exact Or.inr ⟨ev, rfl, rfl⟩
  | newAccept now stream serverNonce timestamp written =>
      left
      rcases newAccept_cases C cfg W now stream serverNonce timestamp written with
        h | ⟨_, _, -, -, h⟩
      · rw [h]
      · rw [h]
  | _ => exact Or.inl rfl

theorem ReceivedOk.delivered_apply (h : W.ReceivedOk C) (he : W.enabled cfg e) {i : Nat}
    {o' : ServerSession} (ho' : (W.apply C cfg e).server.objects[i]? = some o') :
    ∀ packet ∈ o'.delivered, o'.session.PacketUnforged C W.sealed packet := by
  intro packet hmem
  rcases server_apply C cfg W e with hs | ⟨ev, rfl, hs⟩
  · rw [hs] at ho'
    exact h.delivered i o' ho' packet hmem
  · rw [hs] at ho'
    change W.server.enabled ev at he
    rcases UdpServer.object_apply he ho' with ⟨o, ho, rfl⟩ | ⟨_, _, -, hreg⟩
    · have hk := UdpSession.recvKey_of_identity (UdpServer.identity_objectAfter C he ho)
      rcases UdpServer.delivered_objectAfter he ho hmem with hold | hread
      · exact (h.delivered i o ho packet hold).of_recvKey hk
      · exact (h.delivering i packet hread i o ho).of_recvKey hk
    · obtain ⟨hello, serverNonce, -, rfl⟩ := hreg.object
      cases hmem

theorem ReceivedOk.delivering_apply (h : W.ReceivedOk C) (he : W.enabled cfg e)
    (hi : W.Ideal C cfg e) {i j : Nat} {packet : Bytes} {o' : ServerSession}
    (hr : (W.apply C cfg e).server.reader = .delivering i packet)
    (ho' : (W.apply C cfg e).server.objects[j]? = some o') :
    o'.session.PacketUnforged C W.sealed packet := by
  rcases server_apply C cfg W e with hs | ⟨ev, rfl, hs⟩
  · rw [hs] at hr ho'
    exact h.delivering i packet hr j o' ho'
  · rw [hs] at hr ho'
    change W.server.enabled ev at he
    have hbefore : ∀ o, W.server.objects[j]? = some o →
        o.session.PacketUnforged C W.sealed packet := by
      intro o ho
      rcases UdpServer.reader_delivering_apply he hr with hread | ⟨now, remote, rfl⟩
      · exact h.delivering i packet hread j o ho
      · exact hi.2 o (List.mem_of_getElem? ho)
    rcases UdpServer.object_apply he ho' with ⟨o, ho, rfl⟩ | ⟨_, _, -, hreg⟩
    · exact (hbefore o ho).of_recvKey
        (UdpSession.recvKey_of_identity (UdpServer.identity_objectAfter C he ho))
    · obtain ⟨hello, serverNonce, hhello, -⟩ := hreg.object
      rcases UdpServer.reader_delivering_apply he hr with hread | ⟨now, remote, rfl⟩
      · rw [hhello] at hread
        cases hread
      · rw [UdpServer.enabled, hhello] at he
        cases he

theorem ReceivedOk.apply (h : W.ReceivedOk C) (he : W.enabled cfg e) (hi : W.Ideal C cfg e) :
    (W.apply C cfg e).ReceivedOk C where
  dial := by
    intro i d nonce s c hd hp
    obtain ⟨hv, hret⟩ := h.dial_apply he hi hd hp
    exact ⟨hv.mono (sealed_subset C cfg W e), fun hc => (hret hc).mono (sealed_subset C cfg W e)⟩
  accept := by
    intro j a ha
    obtain ⟨hv, hex⟩ := h.accept_apply he hi ha
    exact ⟨fun hr => (hv hr).mono (sealed_subset C cfg W e),
      fun hs => (hex hs).mono (sealed_subset C cfg W e)⟩
  delivered := by
    intro i o ho packet hmem
    exact (h.delivered_apply he ho packet hmem).mono (sealed_subset C cfg W e)
  delivering := by
    intro i packet hr j o ho
    exact (h.delivering_apply he hi hr ho).mono (sealed_subset C cfg W e)

/-! ## Agreement -/

/-- What holds throughout a run without collisions and forgeries. -/
structure HandshakeInvariant (C : Crypto) (cfg : NodeConfig) (W : World) : Prop where
  ends : W.EndsDistinct C cfg
  dials : W.DialsOk C cfg
  sealers : ∀ r ∈ W.sealed, W.Sealer r
  received : W.ReceivedOk C
  server : (serverMachine C cfg).Reachable W.server

theorem handshakeInvariant_start (C : Crypto) (cfg : NodeConfig) :
    start.HandshakeInvariant C cfg where
  ends := endsDistinct_start C cfg
  dials := by constructor <;> intros <;> simp_all [start, clientEnd]
  sealers := nofun
  received := by constructor <;> intros <;> simp_all [start, UdpServer.start]
  server := .start rfl

theorem HandshakeInvariant.apply (h : W.HandshakeInvariant C cfg) (he : W.enabled cfg e)
    (hi : W.Ideal C cfg e) : (W.apply C cfg e).HandshakeInvariant C cfg where
  ends := h.ends.apply he hi.1
  dials := h.dials.apply he hi
  sealers := sealer_apply he h.sealers
  received := h.received.apply he hi
  server := by
    rcases server_apply C cfg W e with hs | ⟨ev, rfl, hs⟩
    · rw [hs]
      exact h.server
    · rw [hs]
      exact h.server.next he trivial

theorem handshakeInvariant_of_reachable
    (run : (handshakeMachine C cfg).ReachableUnder (Ideal C cfg) W) :
    W.HandshakeInvariant C cfg := by
  refine run.invariant (J := fun _ => True) (fun _ _ => trivial) ?_ ?_
  · rintro W rfl
    exact handshakeInvariant_start C cfg
  · intro W e _ h he hi
    exact h.apply he hi

/-- The data keys of a derived end are those of the end that answered it. -/
theorem Derived.data {c v : SessionEnd}
    (hkeys : c.keys = (serverKeys C cfg c.carrier c.clientNonce c.serverNonce).mirror)
    (hv : v.keys = serverKeys C cfg v.carrier v.clientNonce v.serverNonce)
    (hcn : v.clientNonce = c.clientNonce) (hsn : v.serverNonce = c.serverNonce) :
    c.keys.send = v.keys.recv ∧ c.keys.recv = v.keys.send := by
  obtain ⟨hs, hr⟩ := serverKeys_data C cfg c.carrier v.carrier c.clientNonce c.serverNonce
  rw [hkeys, hv, hcn, hsn]
  exact ⟨hr, hs⟩

/-- The end that answered a dial, with the keys they share. -/
theorem HandshakeInvariant.counterpart (h : W.HandshakeInvariant C cfg) {i : Nat}
    {c : SessionEnd} (hc : W.clientEnd i = some c) :
    ∃ r v, W.serverEnd r = some v ∧ v.clientNonce = c.clientNonce ∧
      c.keys.send = v.keys.recv ∧ c.keys.recv = v.keys.send ∧
      (v.carrier = c.carrier → v = c.mirror) := by
  have hd := h.dials.derived i c hc
  obtain ⟨r, v, hv, hcn, hsn, hid⟩ := hd.answered
  have hkeys := h.ends.keys r v hv
  obtain ⟨hs, hr⟩ := Derived.data hd.keys hkeys hcn hsn
  refine ⟨r, v, hv, hcn, hs, hr, fun hcarrier => ?_⟩
  have hsid : v.sessionID = c.sessionID := by
    cases hcc : c.carrier with
    | tcp => rw [hd.identifier hcc, h.ends.identifier r v hv (hcarrier.trans hcc)]
    | udp => exact hid hcc
  have hmirror : v.keys = c.keys.mirror := by
    rw [hkeys, hd.keys, hcarrier, hcn, hsn, SessionKeys.mirror_mirror]
  obtain ⟨carrier, sessionID, clientNonce, serverNonce, keys⟩ := v
  simp only [SessionEnd.mirror, SessionEnd.mk.injEq]
  exact ⟨hcarrier, hsid, hcn, hsn, hmirror⟩

/-- Whoever confirmed a dial's keys is its counterpart on its carrier. -/
theorem HandshakeInvariant.client_agrees (h : W.HandshakeInvariant C cfg)
    (hash : W.HashesInjective C cfg) {i : Nat} {c : SessionEnd} (hc : W.clientEnd i = some c)
    (hs : SealedUnder W.sealed c.carrier c.keys.recv) :
    ∃ r, W.created r ∧ W.serverEnd r = some c.mirror := by
  obtain ⟨r, v, hv, -, -, hrecv, hmirror⟩ := h.counterpart hc
  obtain ⟨rec, hmem, hkey, hlen⟩ := hs
  rcases h.sealers rec hmem with ⟨i', c', hc', hkey', -⟩ | ⟨r', v', hv', hcreated, hkey', hlen'⟩
  · obtain ⟨r', v', hv', -, hsend', -⟩ := h.counterpart hc'
    refine absurd ?_ (h.ends.directions hash hv hv')
    calc v.keys.send = rec.key := hrecv.symm.trans hkey.symm
      _ = v'.keys.recv := hkey'.trans hsend'
  · have hr : r' = r := h.ends.send hash hv' hv (hkey'.symm.trans (hkey.trans hrecv))
    subst hr
    rw [hv] at hv'
    cases hv'
    refine ⟨r', hcreated, ?_⟩
    rw [hv, hmirror (Carrier.aadLen_injective (hlen'.symm.trans hlen))]

/-- Whoever confirmed the keys of a server's end is its counterpart. -/
theorem HandshakeInvariant.server_agrees (h : W.HandshakeInvariant C cfg)
    (hash : W.HashesInjective C cfg) {r : EndRef} {v : SessionEnd} (hv : W.serverEnd r = some v)
    (hs : SealedUnder W.sealed v.carrier v.keys.recv) :
    ∃ i, W.clientEnd i = some v.mirror := by
  obtain ⟨rec, hmem, hkey, hlen⟩ := hs
  rcases h.sealers rec hmem with ⟨i, c, hc, hkey', hlen'⟩ | ⟨r', v', hv', -, hkey', -⟩
  · obtain ⟨r', v', hv', -, hsend, -, hmirror⟩ := h.counterpart hc
    have hr : r = r' := h.ends.recv hash hv hv' (hkey.symm.trans (hkey'.trans hsend))
    subst hr
    rw [hv] at hv'
    cases hv'
    refine ⟨i, ?_⟩
    rw [hc, hmirror (Carrier.aadLen_injective (hlen.symm.trans hlen')), SessionEnd.mirror_mirror]
  · exact absurd (hkey'.symm.trans hkey) (h.ends.directions hash hv' hv)

/-- An exposed end has had its keys confirmed. -/
theorem HandshakeInvariant.confirmed (h : W.HandshakeInvariant C cfg) {r : EndRef}
    {v : SessionEnd} (hv : W.serverEnd r = some v) (hx : W.exposed r) :
    SealedUnder W.sealed v.carrier v.keys.recv := by
  cases r with
  | udp i =>
      obtain ⟨o, ho, hc⟩ := hx
      simp only [serverEnd, ho, Option.map_some, Option.some.injEq] at hv
      subst hv
      have hauth := (UdpServer.invariant_of_reachable h.server).authentic i o ho
      obtain ⟨packet, hmem, hopen⟩ := hauth.received (by rw [hc]; rfl)
      exact (h.received.delivered i o ho packet hmem).sealedUnder hopen
  | tcp j =>
      obtain ⟨a, ha, hstate⟩ := hx
      simp only [serverEnd, ha, Option.map_some, Option.some.injEq] at hv
      subst hv
      exact (h.received.accept j a ha).2 hstate

/-- Dials are told apart by the keys they derive. -/
theorem HandshakeInvariant.dial_unique (h : W.HandshakeInvariant C cfg) {i j : Nat}
    {c c' : SessionEnd} (hc : W.clientEnd i = some c) (hc' : W.clientEnd j = some c')
    (hn : c.clientNonce = c'.clientNonce) : i = j := by
  obtain ⟨d, hd, hend⟩ := clientEnd_eq_some hc
  obtain ⟨d', hd', hend'⟩ := clientEnd_eq_some hc'
  obtain ⟨_, _, _, -, rfl⟩ := Dial.sessionEnd_eq_some hend
  obtain ⟨_, _, _, -, rfl⟩ := Dial.sessionEnd_eq_some hend'
  exact h.dials.nonces i j d d' hd hd' hn

end World

/-! ## A handshake without interference -/

namespace World

section Undisturbed

variable (C : Crypto) (cfg : NodeConfig) (n sn : Bytes)

/-- The bytes of a message written for a nonce, as a blob. -/
def messageBlob (h : Handshake) (bindNonce : Bytes) : Bytes :=
  Bytes.bePut 2 (handshakeBody h ++ C.hmac cfg.secret (macInput h bindNonce)).length ++
    (handshakeBody h ++ C.hmac cfg.secret (macInput h bindNonce))

def clientStart : TcpSession :=
  let keys := C.deriveKeys cfg.secret n sn cfg.peerID cfg.nodeID
  newTCPSession keys.clientSend keys.serverSend

def serverStart : TcpSession :=
  let keys := C.deriveKeys cfg.secret n sn cfg.peerID cfg.nodeID
  newTCPSession keys.serverSend keys.clientSend

/-- One dial and one TCP end that has answered it. -/
def tcpPair (phase : DialPhase) (s : TcpSession) (state : AcceptState)
    (sealed : List SealRecord) : World where
  dials := [⟨.tcp, n, phase⟩]
  server := UdpServer.start
  accepts := [⟨n, sn, s, state⟩]
  maced := [macInput (helloFor cfg.peer n 0) [], macInput (welcomeMessage cfg 0 sn 0) n]
  sealed := sealed

variable {C cfg n sn}

theorem readBlob_message {h : Handshake} (hv : h.Valid) (bindNonce : Bytes) :
    readBlob (messageBlob C cfg h bindNonce) 512 =
      some (handshakeBody h ++ C.hmac cfg.secret (macInput h bindNonce), []) := by
  have hbody := length_handshakeBody hv.nonce
  have hmac := C.hmac_length cfg.secret (macInput h bindNonce)
  have hn := hv.nodeID
  have hp := hv.peerID
  have hlen : (handshakeBody h ++ C.hmac cfg.secret (macInput h bindNonce)).length ≤ 218 := by
    rw [List.length_append]
    omega
  have hpos : 0 < (handshakeBody h ++ C.hmac cfg.secret (macInput h bindNonce)).length := by
    rw [List.length_append]
    omega
  have hwrite : writeBlob (handshakeBody h ++ C.hmac cfg.secret (macInput h bindNonce)) =
      some (messageBlob C cfg h bindNonce) := by
    rw [writeBlob, if_neg (by omega), messageBlob]
  have hread : readBlob (messageBlob C cfg h bindNonce ++ []) 512 = _ :=
    readBlob_writeBlob hwrite hpos (by omega) []
  rwa [List.append_nil] at hread

theorem macUnforged_message {h : Handshake} (hv : h.Valid) {bindNonce : Bytes}
    {maced : List Bytes} (hmem : macInput h bindNonce ∈ maced) :
    MacUnforged C cfg.secret maced
      (handshakeBody h ++ C.hmac cfg.secret (macInput h bindNonce)) bindNonce := by
  intro _
  rw [baseLen_body hv, List.take_left]
  exact hmem

theorem acceptRequest_message (hv : (helloFor cfg.peer n 0).Valid) :
    acceptRequest C cfg 0 (messageBlob C cfg (helloFor cfg.peer n 0) []) =
      some (helloFor cfg.peer n 0) := by
  have hvalid : validateHandshake 0 (helloFor cfg.peer n 0) handshakeHello cfg.peerID cfg.nodeID =
      .ok () := by
    simp [validateHandshake, helloFor, NodeConfig.peer, maxClockSkew]
  simp only [acceptRequest, readBlob_message hv, Option.bind_some, UdpServer.acceptHello,
    decodeHandshake_encode C hv, hvalid]

theorem response_message (hw : (welcomeMessage cfg 0 sn 0).Valid) :
    (Dial.start .tcp n).response C cfg.peer 0 (messageBlob C cfg (welcomeMessage cfg 0 sn 0) n) =
      .established sn (.tcp (clientStart C cfg n sn)) .unstarted := by
  have hvalid : validateHandshake 0 (welcomeMessage cfg 0 sn 0) handshakeWelcome cfg.nodeID
      cfg.peerID = .ok () := by
    simp [validateHandshake, welcomeMessage, maxClockSkew]
  have hdecode : decodeHandshake C (handshakeBody (welcomeMessage cfg 0 sn 0) ++
      C.hmac cfg.secret (macInput (welcomeMessage cfg 0 sn 0) n)) n cfg.secret =
      .ok (welcomeMessage cfg 0 sn 0) := decodeHandshake_encode C hw n cfg.secret
  simp only [Dial.response, readBlob_message hw, Dial.start, NodeConfig.peer, hdecode, hvalid]
  rfl

/-- The dial has its session, and the server waits for its confirmation. -/
theorem reachable_answered (hv : (helloFor cfg.peer n 0).Valid)
    (hw : (welcomeMessage cfg 0 sn 0).Valid) :
    (handshakeMachine C cfg).ReachableUnder (Ideal C cfg)
      (tcpPair cfg n sn (.established sn (.tcp (clientStart C cfg n sn)) .unstarted)
        (serverStart C cfg n sn) .waiting []) := by
  have run₀ : (handshakeMachine C cfg).ReachableUnder (Ideal C cfg) start := .start rfl
  have run₁ := run₀.to (.newDial .tcp n 0) hv ⟨nofun, trivial⟩ rfl
  have hwelcome : ∃ data, UdpServer.welcomeFor C cfg (helloFor cfg.peer n 0) 0 sn 0 = .ok data :=
    ⟨_, encodeHandshake_eq_ok C hw n cfg.secret⟩
  obtain ⟨data, hdata⟩ := hwelcome
  have run₂ : (handshakeMachine C cfg).ReachableUnder (Ideal C cfg)
      (tcpPair cfg n sn (.greeting 0 Handshake.zero) (serverStart C cfg n sn) .waiting []) := by
    refine run₁.to (.newAccept 0 (messageBlob C cfg (helloFor cfg.peer n 0) []) sn 0 true)
      (by simp [handshakeMachine, enabled]) ?_ ?_
    · refine ⟨fun _ _ r v hr => ?_, trivial⟩
      cases r <;> simp [serverEnd, handshakeMachine, apply, start, UdpServer.start] at hr
    · simp only [handshakeMachine, apply, acceptRequest_message hv, hdata]
      rfl
  refine run₂.to (.dial 0 (.response 0 (messageBlob C cfg (welcomeMessage cfg 0 sn 0) n)))
    ⟨_, rfl, rfl, 0, Handshake.zero, rfl⟩ ?_ ?_
  · refine ⟨trivial, fun d hd => ?_⟩
    cases hd
    constructor
    · intro bytes hbytes
      simp only [DialEvent.handshake, readBlob_message hw, Option.map_some, Option.some.injEq]
        at hbytes
      subst hbytes
      exact macUnforged_message hw (by simp [tcpPair])
    · rintro _ _ _ _ - hev
      cases hev
  · have hphase := response_message (C := C) (n := n) hw
    simp only [Dial.start] at hphase
    simp only [handshakeMachine, apply, tcpPair, List.modify_cons, Dial.apply, Dial.phaseAfter,
      hphase]
    rfl

/-- The record of a confirmation, the first call of `Seal` of its session. -/
def firstRecord (key payload : Bytes) : SealRecord :=
  ⟨key, nonceFor 1, Bytes.bePut 8 1, payload⟩

/-- A TCP session that has sent its confirmation, and one that has read its
peer's. -/
def sentOne (s : TcpSession) : TcpSession := { s with sendSeq := 1 }

def readOne (s : TcpSession) (payload : Bytes) : TcpSession :=
  { s with recvSeq := 2, received := [payload] }

theorem apply_first_frame {s t : TcpSession} {payload : Bytes} (hk : s.recvKey = t.sendKey)
    (hs : s.recvSeq = 1) (hr : s.received = []) (hp : payload.length ≤ maxTCPFrame) :
    s.apply C (.frame (t.frameHeader C 1 payload) (t.frameCiphertext C 1 payload) true) =
      readOne s payload := by
  simp only [TcpSession.apply, TcpSession.readFrame_frame hk hs (by simp) hp, if_true, hs, hr,
    readOne, List.nil_append]

/-- Two TCP sessions of one key set, before either has sent or read a frame. -/
structure FreshPair (client server : TcpSession) : Prop where
  toServer : server.recvKey = client.sendKey
  toClient : client.recvKey = server.sendKey
  counters : client.sendSeq = 0 ∧ server.sendSeq = 0 ∧ client.recvSeq = 1 ∧ server.recvSeq = 1
  unread : client.received = [] ∧ server.received = []
  reading : client.reading = true ∧ server.reading = true
  running : client.closed = false ∧ server.closed = false

theorem freshPair_start : FreshPair (clientStart C cfg n sn) (serverStart C cfg n sn) :=
  ⟨rfl, rfl, ⟨rfl, rfl, rfl, rfl⟩, ⟨rfl, rfl⟩, ⟨rfl, rfl⟩, ⟨rfl, rfl⟩⟩

section Confirmation

variable {client server : TcpSession} (pair : FreshPair client server)

theorem length_clientConfirm : clientConfirm.length ≤ maxTCPFrame := by decide

theorem length_serverConfirm : serverConfirm.length ≤ maxTCPFrame := by decide

include pair

theorem FreshPair.client_sends
    (run : (handshakeMachine C cfg).ReachableUnder (Ideal C cfg)
      (tcpPair cfg n sn (.established sn (.tcp client) .unstarted) server .waiting [])) :
    (handshakeMachine C cfg).ReachableUnder (Ideal C cfg)
      (tcpPair cfg n sn (.established sn (.tcp (sentOne client)) .waiting) server .waiting
        [firstRecord client.sendKey clientConfirm]) := by
  have hsend := pair.counters.1
  refine run.to (.dial 0 (.confirm (.tcp (.send clientConfirm none)))) ?_ ?_ ?_
  · exact ⟨_, rfl, sn, _, rfl, ⟨length_clientConfirm, by rw [hsend]; simp⟩, rfl⟩
  · refine ⟨trivial, fun d hd => ?_⟩
    cases hd
    refine ⟨nofun, ?_⟩
    rintro _ _ _ _ hp hev
    cases hp
    cases hev
    trivial
  · simp [handshakeMachine, apply, tcpPair, Dial.apply, Dial.phaseAfter, Session.apply,
      TcpSession.apply, Dial.sealRecord, DialEvent.sessionEvent, Session.sealRecord,
      TcpSession.sealRecord, confirmStart, sentOne, firstRecord, hsend, pair.running]

theorem FreshPair.server_reads
    (run : (handshakeMachine C cfg).ReachableUnder (Ideal C cfg)
      (tcpPair cfg n sn (.established sn (.tcp (sentOne client)) .waiting) server .waiting
        [firstRecord client.sendKey clientConfirm])) :
    (handshakeMachine C cfg).ReachableUnder (Ideal C cfg)
      (tcpPair cfg n sn (.established sn (.tcp (sentOne client)) .waiting)
        (readOne server clientConfirm) .waiting [firstRecord client.sendKey clientConfirm]) := by
  have hseq := pair.counters.2.2.2
  refine run.to (.accept 0 (.session (.frame (client.frameHeader C 1 clientConfirm)
    (client.frameCiphertext C 1 clientConfirm) true))) ?_ ?_ ?_
  · exact ⟨_, rfl, TcpSession.frame_enabled pair.reading.2 (by rw [hseq]; simp)
      length_clientConfirm, nofun⟩
  · refine ⟨trivial, fun a ha => ?_⟩
    cases ha
    exact TcpSession.frameUnforged_frame pair.toServer (by simp) (by simp [tcpPair, firstRecord])
  · simp [handshakeMachine, apply, tcpPair, Accept.apply, Accept.sealRecord,
      TcpSession.sealRecord,
      apply_first_frame pair.toServer hseq pair.unread.2 length_clientConfirm]

theorem FreshPair.server_sends
    (run : (handshakeMachine C cfg).ReachableUnder (Ideal C cfg)
      (tcpPair cfg n sn (.established sn (.tcp (sentOne client)) .waiting)
        (readOne server clientConfirm) .waiting [firstRecord client.sendKey clientConfirm])) :
    (handshakeMachine C cfg).ReachableUnder (Ideal C cfg)
      (tcpPair cfg n sn (.established sn (.tcp (sentOne client)) .waiting)
        (sentOne (readOne server clientConfirm)) .exposed
        [firstRecord client.sendKey clientConfirm, firstRecord server.sendKey serverConfirm]) := by
  have hsend := pair.counters.2.1
  refine run.to (.accept 0 (.receive (.send serverConfirm none))) ?_ ?_ ?_
  · exact ⟨_, rfl, rfl, nofun, ⟨length_serverConfirm, by simp [readOne, hsend]⟩, rfl⟩
  · exact ⟨trivial, fun _ _ => trivial⟩
  · simp [handshakeMachine, apply, tcpPair, Accept.apply, Accept.sealRecord, Accept.Confirmed,
      TcpSession.apply, TcpSession.sealRecord, answerAfter, sentOne, readOne, firstRecord,
      hsend, pair.running]

theorem FreshPair.client_reads
    (run : (handshakeMachine C cfg).ReachableUnder (Ideal C cfg)
      (tcpPair cfg n sn (.established sn (.tcp (sentOne client)) .waiting)
        (sentOne (readOne server clientConfirm)) .exposed
        [firstRecord client.sendKey clientConfirm, firstRecord server.sendKey serverConfirm])) :
    (handshakeMachine C cfg).ReachableUnder (Ideal C cfg)
      (tcpPair cfg n sn
        (.established sn (.tcp (readOne (sentOne client) serverConfirm)) .waiting)
        (sentOne (readOne server clientConfirm)) .exposed
        [firstRecord client.sendKey clientConfirm, firstRecord server.sendKey serverConfirm]) := by
  have hseq := pair.counters.2.2.1
  refine run.to (.dial 0 (.session (.tcp (.frame (server.frameHeader C 1 serverConfirm)
    (server.frameCiphertext C 1 serverConfirm) true)))) ?_ ?_ ?_
  · exact ⟨_, rfl, sn, _, _, rfl,
      TcpSession.frame_enabled pair.reading.1 (by simp [sentOne, hseq]) length_serverConfirm,
      trivial⟩
  · refine ⟨trivial, fun d hd => ?_⟩
    cases hd
    refine ⟨nofun, ?_⟩
    rintro _ _ _ _ hp hev
    cases hp
    cases hev
    exact TcpSession.frameUnforged_frame pair.toClient (by simp) (by simp [tcpPair, firstRecord])
  · have happly := apply_first_frame (C := C) (s := sentOne client) pair.toClient hseq
      pair.unread.1 length_serverConfirm
    simp [handshakeMachine, apply, tcpPair, Dial.apply, Dial.phaseAfter, Session.apply,
      Dial.sealRecord, DialEvent.sessionEvent, Session.sealRecord, TcpSession.sealRecord,
      clientConfirmAfter, happly]

end Confirmation

theorem derivations_tcpPair {n sn : Bytes} {s : Session} {c : ClientConfirm} {t : TcpSession}
    {state : AcceptState} {sealed : List SealRecord} :
    (tcpPair cfg n sn (.established sn s c) t state sealed).derivations ⊆ {(n, sn)} := by
  rintro p (⟨i, c, hc, rfl⟩ | ⟨r, v, hv, rfl⟩)
  · obtain ⟨d, hd, hend⟩ := clientEnd_eq_some hc
    obtain ⟨rfl, rfl⟩ : i = 0 ∧ _ = d := by
      simpa [tcpPair, List.getElem?_singleton] using hd
    cases hend
    rfl
  · cases r with
    | udp i => simp [serverEnd, tcpPair, UdpServer.start] at hv
    | tcp j =>
        obtain ⟨a, ha, rfl⟩ := Option.map_eq_some_iff.mp hv
        obtain ⟨rfl, rfl⟩ : j = 0 ∧ _ = a := by
          simpa [tcpPair, List.getElem?_singleton] using ha
        rfl

/-- A handshake that nobody disturbs is completed on both sides. -/
theorem reachable_completed (C : Crypto) (cfg : NodeConfig) (n sn : Bytes)
    (hv : (helloFor cfg.peer n 0).Valid)
    (hw : (welcomeMessage cfg 0 sn 0).Valid) :
    ∃ W, (handshakeMachine C cfg).ReachableUnder (Ideal C cfg) W ∧ W.returned 0 ∧
      W.exposed (.tcp 0) ∧ W.derivations ⊆ {(n, sn)} := by
  have pair : FreshPair (clientStart C cfg n sn) (serverStart C cfg n sn) := freshPair_start
  have run := reachable_answered (C := C) hv hw
  -- The sessions are kept as variables, so that their keys are never computed.
  generalize clientStart C cfg n sn = client at pair run
  generalize serverStart C cfg n sn = server at pair run
  have confirmed :=
    pair.client_reads (pair.server_sends (pair.server_reads (pair.client_sends run)))
  have returned : (handshakeMachine C cfg).ReachableUnder (Ideal C cfg)
      (tcpPair cfg n sn
        (.established sn (.tcp (readOne (sentOne client) serverConfirm)) .returned)
        (sentOne (readOne server clientConfirm)) .exposed
        [firstRecord client.sendKey clientConfirm, firstRecord server.sendKey serverConfirm]) := by
    refine confirmed.to (.dial 0 .receive) ⟨_, rfl, sn, _, rfl, nofun⟩ ?_ ?_
    · refine ⟨trivial, fun d hd => ?_⟩
      cases hd
      refine ⟨nofun, ?_⟩
      rintro _ _ _ _ - hev
      cases hev
    · simp [handshakeMachine, apply, tcpPair, Dial.apply, Dial.phaseAfter, Dial.sealRecord,
        DialEvent.sessionEvent, Session.received, readOne]
  exact ⟨_, returned, ⟨_, sn, _, rfl, rfl⟩, ⟨_, rfl, rfl⟩, derivations_tcpPair⟩

end Undisturbed

end World

/-- In every run with fresh nonces and without forgeries, if the hash functions
are injective on the key derivations made, a returned dial and exactly one session
of the server are the two ends of one session, and so are an exposed session and
exactly one dial; no two exposed sessions are for the same dial. -/
theorem handshake_agreement (C : Crypto) (cfg : NodeConfig) (W : World)
    (run : (handshakeMachine C cfg).ReachableUnder (World.Ideal C cfg) W)
    (hash : W.HashesInjective C cfg) :
    (∀ i, W.returned i → ∃ c, W.clientEnd i = some c ∧
      ∃ r, W.created r ∧ W.serverEnd r = some c.mirror ∧
        ∀ r' v, W.created r' → W.serverEnd r' = some v → v.clientNonce = c.clientNonce →
          v.serverNonce = c.serverNonce → r' = r) ∧
    (∀ r, W.exposed r → ∃ v, W.serverEnd r = some v ∧
      ∃ i, W.clientEnd i = some v.mirror ∧
        ∀ j c, W.clientEnd j = some c → c.keys.send = v.keys.recv → j = i) ∧
    (∀ r r' v v', W.exposed r → W.exposed r' → W.serverEnd r = some v →
      W.serverEnd r' = some v' → v.clientNonce = v'.clientNonce → r = r') := by
  have h := World.handshakeInvariant_of_reachable run
  refine ⟨?_, ?_, ?_⟩
  · rintro i ⟨d, nonce, s, hd, hp⟩
    have hc : W.clientEnd i = some ⟨s.kind, s.sessionID, d.nonce, nonce, s.keys⟩ := by
      rw [World.clientEnd_of hd, Dial.sessionEnd, hp]
    obtain ⟨r, hcreated, hr⟩ :=
      h.client_agrees hash hc ((h.received.dial i d nonce s .returned hd hp).2 rfl)
    refine ⟨_, hc, r, hcreated, hr, ?_⟩
    intro r' v _ hv _ hsn
    exact h.ends.nonce r' r v _ hv hr hsn
  · intro r hx
    obtain ⟨v, hv⟩ : ∃ v, W.serverEnd r = some v := by
      cases r with
      | udp i =>
          obtain ⟨o, ho, -⟩ := hx
          exact ⟨o.sessionEnd, by simp only [World.serverEnd, ho, Option.map_some]⟩
      | tcp j =>
          obtain ⟨a, ha, -⟩ := hx
          exact ⟨a.sessionEnd, by simp only [World.serverEnd, ha, Option.map_some]⟩
    obtain ⟨i, hi⟩ := h.server_agrees hash hv (h.confirmed hv hx)
    refine ⟨v, hv, i, hi, ?_⟩
    intro j c hc hkey
    obtain ⟨r', v', hv', hn, hsend, -⟩ := h.counterpart hc
    have hr : r' = r := h.ends.recv hash hv' hv (hsend.symm.trans hkey)
    subst hr
    rw [hv] at hv'
    cases hv'
    exact h.dial_unique hc hi hn.symm
  · intro r r' v v' hx hx' hv hv' hn
    obtain ⟨i, hi⟩ := h.server_agrees hash hv (h.confirmed hv hx)
    obtain ⟨j, hj⟩ := h.server_agrees hash hv' (h.confirmed hv' hx')
    have hij : i = j := h.dial_unique hi hj hn
    subst hij
    rw [hi] at hj
    have hmirror : v.mirror = v'.mirror := Option.some.inj hj
    have hsn : v.mirror.serverNonce = v'.mirror.serverNonce := by rw [hmirror]
    exact h.ends.nonce r r' v v' hv hv' hsn

theorem handshake_agreement_completed :
    ∃ W, (handshakeMachine Crypto.sum sampleServer).ReachableUnder
      (World.Ideal Crypto.sum sampleServer) W ∧ W.HashesInjective Crypto.sum sampleServer ∧
      W.returned 0 ∧ ∃ c r, W.clientEnd 0 = some c ∧ W.created r ∧
        W.serverEnd r = some c.mirror := by
  obtain ⟨W, run, hret, -, hderived⟩ := World.reachable_completed Crypto.sum sampleServer
    (List.replicate 32 1) (List.replicate 32 2)
    ⟨by decide, by decide, by decide, by decide, by decide⟩
    ⟨by decide, by decide, by decide, by decide, by decide⟩
  have hash : W.HashesInjective Crypto.sum sampleServer := .of_single hderived (by decide +kernel)
  obtain ⟨c, hc, r, hcreated, hr, -⟩ :=
    (handshake_agreement Crypto.sum sampleServer W run hash).1 0 hret
  exact ⟨W, run, hash, hret, c, r, hc, hcreated, hr⟩

end UnknownTunnel.Transport

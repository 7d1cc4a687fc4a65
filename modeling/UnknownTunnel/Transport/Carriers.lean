import UnknownTunnel.Transport.TcpLink
import UnknownTunnel.Transport.UdpOrder
import UnknownTunnel.Transport.Session

/-!
# Carriers as channels

Links of either carrier take the payloads of `Send` calls and hand them to the
other side in order, so each of them is a lawful channel.

## Implementation notes

On the UDP carrier a payload is held from the checks of `Send` until it is
sealed under a number; a TCP session does both under its write mutex. Only one
direction of a link is its channel, the other one is part of what may happen.
-/

namespace UnknownTunnel.Transport

open Foundation

/-- What the peer of `X` sends to `X` over a TCP link. -/
def tcpChannel (C : Crypto) (X : Side) : Channel TcpLink (Side × TcpEvent) Bytes where
  toMachine := tcpLinkMachine C
  offers := fun e => if e.1 = X.peer then e.2.payload else none
  holds := fun _ => []
  sent := fun L => L.sent X.peer
  received := fun L => (L.session X).received

theorem tcpChannel_lawful (C : Crypto) (X : Side) : (tcpChannel C X).Lawful where
  empty := by
    rintro L ⟨keys, -, rfl⟩
    exact ⟨rfl, rfl⟩
  origin := by
    intro L e he payload hp
    change payload ∈ [] ++ (L.apply C e).sent X.peer at hp
    change payload ∈ [] ++ L.sent X.peer ∨ (if e.1 = X.peer then e.2.payload else none) = _
    rw [List.nil_append] at hp ⊢
    by_cases hX : X.peer = e.1
    · rw [if_pos hX.symm]
      rw [hX] at hp ⊢
      simpa [TcpLink.apply] using hp
    · left
      simpa [TcpLink.apply, hX] using hp
  grows := fun L e _ => TcpLinkInvariant.sent_apply C L e X.peer
  ordered := fun _ run => (tcpLinkInvariant_of_reachable run).received X

/-- The payloads of `Send` calls that are past their checks and not sealed. -/
def SendCall.unsealed : SendCall → Option Bytes
  | .checked payload => some payload
  | .holding payload => some payload
  | _ => none

/-- The payload that a step passes to `Send`. -/
def UdpEvent.payload : UdpEvent → Option Bytes
  | .sendCheck payload => some payload
  | _ => none

/-- What the peer of `X` sends to `X` over a UDP link. -/
def udpChannel (C : Crypto) (X : Side) : Channel Link (Side × UdpEvent) Bytes where
  toMachine := linkMachine C
  offers := fun e => if e.1 = X.peer then e.2.payload else none
  holds := fun L => (L.session X.peer).sends.filterMap SendCall.unsealed
  sent := fun L => L.sent X.peer
  received := fun L => (L.session X).recv.output

namespace UdpSession

variable {C : Crypto} {s : UdpSession} {e : UdpEvent}

/-- A call that is replaced by others adds no payload that they do not have. -/
theorem mem_unsealed_replace {old : SendCall} {new : List SendCall} {sends : List SendCall}
    {payload : Bytes} (h : payload ∈ (new ++ sends.erase old).filterMap SendCall.unsealed) :
    payload ∈ sends.filterMap SendCall.unsealed ∨ ∃ c ∈ new, c.unsealed = some payload := by
  rw [List.filterMap_append, List.mem_append, List.mem_filterMap, List.mem_filterMap] at h
  obtain ⟨c, hc, hp⟩ | ⟨c, hc, hp⟩ := h
  · exact Or.inr ⟨c, hc, hp⟩
  · exact Or.inl (List.mem_filterMap.mpr ⟨c, List.mem_of_mem_erase hc, hp⟩)

theorem mem_unsealed_of_mem {c : SendCall} {payload : Bytes} (hc : c ∈ s.sends)
    (hp : c.unsealed = some payload) : payload ∈ s.sends.filterMap SendCall.unsealed :=
  List.mem_filterMap.mpr ⟨c, hc, hp⟩

/-- Where the payloads of unsealed calls come from. -/
theorem unsealed_apply (he : s.enabled e) {payload : Bytes}
    (h : payload ∈ (s.apply C e).sends.filterMap SendCall.unsealed) :
    payload ∈ s.sends.filterMap SendCall.unsealed ∨ e.payload = some payload := by
  -- A step takes one call to its next position, or leaves all of them alone.
  have step : ∀ (old : SendCall) (new : List SendCall), (∀ c ∈ new, c.unsealed = some payload →
      payload ∈ s.sends.filterMap SendCall.unsealed) →
      payload ∈ (new ++ s.sends.erase old).filterMap SendCall.unsealed →
      payload ∈ s.sends.filterMap SendCall.unsealed := by
    intro old new hnew hmem
    obtain hold | ⟨c, hc, hp⟩ := mem_unsealed_replace hmem
    · exact hold
    · exact hnew c hc hp
  cases e with
  | sendCheck p =>
      obtain hp | hp := List.mem_cons.mp (by simpa [apply, SendCall.unsealed] using h :
        payload ∈ p :: s.sends.filterMap SendCall.unsealed)
      · exact Or.inr (congrArg some hp.symm)
      · exact Or.inl hp
  | sendRefuse p => exact Or.inl (step (.checked p) [] (fun c hc => by cases hc) h)
  | sendAcquire p =>
      refine Or.inl (step (.checked p) [.holding p] (fun c hc hp => ?_) h)
      obtain rfl := List.mem_singleton.mp hc
      exact mem_unsealed_of_mem he.1 hp
  | sendSeal p =>
      refine Or.inl (step (.holding p) [.sealed _ _] (fun c hc hp => ?_) h)
      obtain rfl := List.mem_singleton.mp hc
      cases hp
  | sendInsert seq packet =>
      refine Or.inl (step (.sealed seq packet) [.inserted _ _] (fun c hc hp => ?_) h)
      obtain rfl := List.mem_singleton.mp hc
      cases hp
  | sendWrite seq packet ok =>
      cases ok with
      | true => exact Or.inl (step (.inserted seq packet) [] (fun c hc => by cases hc) h)
      | false =>
          refine Or.inl (step (.inserted seq packet) [.failing _] (fun c hc hp => ?_) h)
          obtain rfl := List.mem_singleton.mp hc
          cases hp
  | sendRelease seq => exact Or.inl (step (.failing seq) [] (fun c hc => by cases hc) h)
  | packetLoop io =>
      obtain ⟨_, _, _, ho⟩ := packetLoop_outcome C he
      rw [ho.frame.2.2.2.1] at h
      exact Or.inl h
  | deliver packet =>
      left
      obtain hd | ⟨-, hd⟩ | hd := deliverPacket_cases s packet <;>
        simpa only [apply, hd] using h
  | loopRelease => exact Or.inl h
  | loopReturn => exact Or.inl h
  | retransmit due failAt => exact Or.inl h
  | close => exact Or.inl h

/-- What a step seals was held by a call. -/
theorem sealRecord_held (he : s.enabled e) {r : SealRecord} (h : s.sealRecord e = some r) :
    r.plaintext ∈ s.sends.filterMap SendCall.unsealed := by
  cases e with
  | sendSeal payload =>
      obtain rfl := Option.some.inj h
      exact mem_unsealed_of_mem he.1 rfl
  | _ => cases h

end UdpSession

theorem udpChannel_lawful (C : Crypto) (X : Side) : (udpChannel C X).Lawful where
  empty := by
    rintro L ⟨keys, sessionID, -, -, -, rfl⟩
    cases X <;> exact ⟨rfl, rfl⟩
  origin := by
    intro L e he payload hp
    change payload ∈ ((L.apply C e).session X.peer).sends.filterMap SendCall.unsealed ++
      (L.apply C e).sent X.peer at hp
    change payload ∈ (L.session X.peer).sends.filterMap SendCall.unsealed ++ L.sent X.peer ∨
      (if e.1 = X.peer then e.2.payload else none) = some payload
    by_cases hX : X.peer = e.1
    · rw [if_pos hX.symm]
      rw [hX] at hp ⊢
      simp only [Link.apply, Function.update_self, List.mem_append] at hp ⊢
      obtain hheld | hsent | hnew := hp
      · obtain hold | hnew := UdpSession.unsealed_apply he.1 hheld
        · exact Or.inl (Or.inl hold)
        · exact Or.inr hnew
      · exact Or.inl (Or.inr hsent)
      · rw [Option.mem_toList, Option.map_eq_some_iff] at hnew
        obtain ⟨r, hr, rfl⟩ := hnew
        exact Or.inl (Or.inl (UdpSession.sealRecord_held he.1 hr))
    · left
      simpa [Link.apply, hX] using hp
  grows := by
    intro L e _
    obtain ⟨more, hmore⟩ := Link.apply_sent (C := C) (L := L) (e := e) X.peer
    exact ⟨more, hmore.symm⟩
  ordered := by
    intro L run
    have hf := (linkInvariant_of_reachable run).follows X
    change (L.session X).recv.output <+: L.sent X.peer
    rw [hf.output]
    exact List.take_prefix _ _

/-! ## Undisturbed links -/

/-- The reader of a TCP link waits for the next frame of its peer. -/
structure TcpReady (X : Side) (n : Nat) (L : TcpLink) : Prop where
  reading : (L.session X).reading = true
  key : (L.session X).recvKey = (L.session X.peer).sendKey
  place : (L.session X).recvSeq = (L.session X.peer).sendSeq + 1
  room : (L.session X.peer).sendSeq + n + 1 < 2 ^ 64

/-- The frame of a `Send` call and the round that reads it. -/
theorem tcpChannel_conveys (C : Crypto) (X : Side) :
    (tcpChannel C X).Conveys (fun payload => payload.length ≤ maxTCPFrame) (TcpReady X) := by
  intro n L payload h hfits
  let s := L.session X.peer
  have hroom : s.sendSeq + (n + 1) + 1 < 2 ^ 64 := h.room
  have hseq : s.sendSeq + 1 < 2 ^ 64 := by omega
  have hplace : (L.session X).recvSeq = s.sendSeq + 1 := h.place
  let header := s.frameHeader C (s.sendSeq + 1) payload
  let ciphertext := s.frameCiphertext C (s.sendSeq + 1) payload
  let L₁ := L.apply C (X.peer, .send payload none)
  have hpeer : L₁.session X.peer = { s with sendSeq := s.sendSeq + 1 } := by
    simp [L₁, TcpLink.apply, TcpSession.apply, s]
  have hside : L₁.session X = L.session X := Function.update_of_ne (Side.peer_ne X).symm ..
  have hread : (L₁.session X).readFrame C header ciphertext = some payload := by
    rw [hside]
    exact TcpSession.readFrame_frame h.key hplace hseq hfits
  let L₂ := L₁.apply C (X, .frame header ciphertext true)
  have hnext : L₂.session X =
      { L.session X with
        recvSeq := (L.session X).recvSeq + 1
        received := (L.session X).received ++ [payload] } := by
    rw [← hside]
    simp [L₂, TcpLink.apply, TcpSession.apply, hread]
  have hpeer₂ : L₂.session X.peer = { s with sendSeq := s.sendSeq + 1 } :=
    (Function.update_of_ne (Side.peer_ne X) ..).trans hpeer
  refine ⟨[(X.peer, .send payload none), (X, .frame header ciphertext true)], ?_, ?_, ?_⟩
  · refine ⟨⟨⟨hfits, hseq⟩, trivial⟩, ?_, ⟨?_, ?_⟩, ?_, trivial⟩
    · intro b hb
      simpa [tcpChannel, TcpEvent.payload, eq_comm] using hb
    · change (L₁.session X).enabled _
      rw [hside]
      exact TcpSession.frame_enabled h.reading (by omega) hfits
    · change (L₁.session X).FrameUnforged C L₁.sealed header ciphertext
      rw [hside]
      exact TcpSession.frameUnforged_frame h.key hseq
        (List.mem_append_right _ (List.mem_singleton_self _))
    · intro b hb
      simp [tcpChannel, TcpEvent.payload] at hb
  · change TcpReady X n L₂
    refine ⟨by rw [hnext]; exact h.reading, by rw [hnext, hpeer₂]; exact h.key, ?_, ?_⟩
    · rw [hnext, hpeer₂]
      exact congrArg (· + 1) hplace
    · rw [hpeer₂]
      change s.sendSeq + 1 + n + 1 < 2 ^ 64
      omega
  · change (L₂.session X).received = (L.session X).received ++ [payload]
    rw [hnext]

/-- Both sessions of a UDP link are idle, and nothing is missing at the side
`X`. Acknowledgements need not arrive while the sender has slots. -/
structure UdpReady (X : Side) (n : Nat) (L : Link) : Prop where
  sender : (L.session X.peer).closed = false ∧ (L.session X.peer).sends = []
  reader : (L.session X).closed = false ∧ (L.session X).packetCh = [] ∧
    (L.session X).loop = .running
  key : (L.session X).recvKey = (L.session X.peer).sendKey
  identifier : (L.session X).sessionID = (L.session X.peer).sessionID ∧
    (L.session X).sessionID < 2 ^ 64
  place : (L.session X).recv.expected = (L.session X.peer).sendSeq + 1 ∧
    (L.session X).recv.reorder = ∅
  room : (L.session X.peer).sendSeq + n + 1 < 2 ^ 64
  slots : (L.session X.peer).slots + n ≤ maxUDPPending

/-- The steps of one undisturbed `Send` call of a side. -/
def callSteps (Y : Side) (seq : Nat) (payload packet : Bytes) : List (Side × UdpEvent) :=
  [(Y, .sendCheck payload), (Y, .sendAcquire payload), (Y, .sendSeal payload),
    (Y, .sendInsert seq packet), (Y, .sendWrite seq packet true)]

/-- A session after an undisturbed `Send` call. -/
def UdpSession.afterCall (C : Crypto) (s : UdpSession) (payload : Bytes) : UdpSession :=
  { s with
    sendSeq := s.sendSeq + 1
    slots := s.slots + 1
    pending := s.pending.insert (s.sendSeq + 1) ⟨s.dataPacket C (s.sendSeq + 1) payload, 0⟩ }

theorem callSteps_permitted {C : Crypto} {L : Link} {Y : Side} {payload : Bytes}
    (hopen : (L.session Y).closed = false) (hsends : (L.session Y).sends = [])
    (hslots : (L.session Y).slots < maxUDPPending) (hseq : (L.session Y).sendSeq + 1 < 2 ^ 64)
    (hfits : payload.length ≤ maxUDPPlaintext) {ok : Link → Side × UdpEvent → Prop}
    (hok : ∀ L e, e.2.isSend = true → (∀ b, e.2.payload = some b → b = payload) → ok L e) :
    (linkMachine C).Permitted ok L
      (callSteps Y ((L.session Y).sendSeq + 1) payload
        ((L.session Y).dataPacket C ((L.session Y).sendSeq + 1) payload)) := by
  refine ⟨⟨?_, trivial⟩, hok _ _ rfl ?_, ⟨?_, trivial⟩, hok _ _ rfl ?_, ⟨?_, trivial⟩,
    hok _ _ rfl ?_, ⟨?_, trivial⟩, hok _ _ rfl ?_, ⟨?_, trivial⟩, hok _ _ rfl ?_, trivial⟩ <;>
    simp [linkMachine, Link.apply, UdpSession.enabled, UdpSession.apply, UdpEvent.payload,
      hopen, hsends, hslots, hfits, UdpSession.dataPacket]
  exact hseq

theorem foldl_callSteps {C : Crypto} {L : Link} {Y : Side} {payload : Bytes}
    (hsends : (L.session Y).sends = []) (seq : Nat) (packet : Bytes)
    (hs : seq = (L.session Y).sendSeq + 1)
    (hp : packet = (L.session Y).dataPacket C seq payload) :
    ((callSteps Y seq payload packet).foldl (Link.apply C) L).session =
        Function.update L.session Y ((L.session Y).afterCall C payload) ∧
      ((callSteps Y seq payload packet).foldl (Link.apply C) L).sealed = L.sealed ++
        [⟨(L.session Y).sendKey, nonceFor seq,
          makeUDPHeader udpPacketData (L.session Y).sessionID seq
            (payload.length + aeadOverhead), payload⟩] := by
  subst hs hp
  constructor
  · simp [callSteps, Link.apply, UdpSession.apply, UdpSession.afterCall, hsends,
      UdpSession.dataPacket]
  · simp [callSteps, Link.apply, UdpSession.apply, UdpSession.sealRecord]

/-- A packet with a payload is too long for an acknowledgement. -/
theorem not_verifiesAck_dataPacket (C : Crypto) (s t : UdpSession) {seq : Nat} {payload : Bytes}
    (hpos : 0 < payload.length) : ¬ t.VerifiesAck C (s.dataPacket C seq payload) := by
  intro hv
  have hlen := congrArg List.length hv
  rw [UdpSession.dataPacket, drop_header, C.aeadSeal_length, List.length_take,
    C.hmac_length] at hlen
  omega

/-- The packets of an open session are no forgeries. -/
theorem unforged_dataPacket {C : Crypto} {L : Link} {X : Side} {s : UdpSession} {seq : Nat}
    {payload : Bytes} (hkey : (L.session X).recvKey = s.sendKey) (hseq : seq < 2 ^ 64)
    (hpos : 0 < payload.length)
    (hsealed : ⟨s.sendKey, nonceFor seq,
      makeUDPHeader udpPacketData s.sessionID seq (payload.length + aeadOverhead), payload⟩ ∈
        L.sealed) : L.Unforged C X (s.dataPacket C seq payload) := by
  have htake : (s.dataPacket C seq payload).take udpHeaderLen =
      makeUDPHeader udpPacketData s.sessionID seq (payload.length + aeadOverhead) :=
    take_header ..
  refine ⟨?_, fun hv => absurd hv (not_verifiesAck_dataPacket C s _ hpos)⟩
  rintro plaintext ⟨-, hopen⟩
  have hdrop : (s.dataPacket C seq payload).drop udpHeaderLen = C.aeadSeal s.sendKey
      (nonceFor seq) payload
      (makeUDPHeader udpPacketData s.sessionID seq (payload.length + aeadOverhead)) :=
    drop_header ..
  rw [udpSeq_of_take htake hseq, htake] at hopen ⊢
  rw [hdrop, hkey, C.aeadOpen_aeadSeal] at hopen
  obtain rfl := Option.some.inj hopen
  rw [hkey]
  exact hsealed

/-- A session that has published one payload more. -/
def UdpSession.publishNext (t : UdpSession) (payload : Bytes) : UdpSession :=
  { t with recv := ⟨t.recv.expected + 1, t.recv.reorder, t.recv.output ++ [payload]⟩ }

/-- An idle session publishes the expected payload when its packet arrives. -/
theorem UdpSession.packetLoop_next {C : Crypto} (s t : UdpSession) {seq : Nat} {payload : Bytes}
    (hq : t.packetCh = []) (hloop : t.loop = .running) (hkey : t.recvKey = s.sendKey)
    (hid : t.sessionID = s.sessionID ∧ t.sessionID < 2 ^ 64)
    (hplace : t.recv.expected = seq ∧ t.recv.reorder = ∅) (hseq : seq < 2 ^ 64)
    (hlen : payload.length ≤ maxUDPPlaintext) :
    ({ t with packetCh := [s.dataPacket C seq payload] } : UdpSession).apply C
      (.packetLoop ⟨true, fun _ => true⟩) = t.publishNext payload := by
  obtain ⟨rfl, hempty⟩ := hplace
  have hsize : t.recv.reorder.size = 0 := by rw [hempty]; rfl
  have haccept : Resequencer.accept maxUDPReorder (fun _ => true) t.recv t.recv.expected payload =
      (⟨t.recv.expected + 1, t.recv.reorder, t.recv.output ++ [payload]⟩, .delivered) := by
    rw [Resequencer.accept_expected, if_pos rfl, hsize, Resequencer.drain]
  rw [(packetLoop_dataPacket s { t with packetCh := [s.dataPacket C t.recv.expected payload] }
    payload rfl hkey hid.1 hid.2 hseq hlen rfl).1]
  simp [haccept, Resequencer.Outcome.isFailed, publishNext, hq, hloop]

/-- A `Send` call, the arrival of its packet and the round of the packet loop
that handles it. -/
theorem udpChannel_conveys (C : Crypto) (X : Side) :
    (udpChannel C X).Conveys
      (fun payload => 0 < payload.length ∧ payload.length ≤ maxUDPPlaintext) (UdpReady X) := by
  rintro n L payload h ⟨hpos, hfits⟩
  let s := L.session X.peer
  have hroom : s.sendSeq + (n + 1) + 1 < 2 ^ 64 := h.room
  have hslots : s.slots + (n + 1) ≤ maxUDPPending := h.slots
  have hseq : s.sendSeq + 1 < 2 ^ 64 := by omega
  let packet := s.dataPacket C (s.sendSeq + 1) payload
  let io : PacketIO := ⟨true, fun _ => true⟩
  -- The call of the sender.
  let L₁ := (callSteps X.peer (s.sendSeq + 1) payload packet).foldl (Link.apply C) L
  obtain ⟨hsession, hsealed⟩ : L₁.session = _ ∧ L₁.sealed = _ :=
    foldl_callSteps h.sender.2 (s.sendSeq + 1) packet rfl rfl
  have hside : L₁.session X = L.session X := by
    rw [hsession]
    exact Function.update_of_ne (Side.peer_ne X).symm ..
  have hpeer : L₁.session X.peer = s.afterCall C payload := by
    rw [hsession]
    exact Function.update_self ..
  -- The packet arrives.
  let L₂ := L₁.apply C (X, .deliver packet)
  have hside₂ : L₂.session X = { L.session X with packetCh := [packet] } := by
    simp [L₂, Link.apply, UdpSession.apply, UdpSession.deliverPacket, hside, h.reader.1,
      h.reader.2.1, packetQueueLen]
  -- The packet loop publishes its payload.
  let L₃ := L₂.apply C (X, .packetLoop io)
  have hside₃ : L₃.session X = (L.session X).publishNext payload := by
    have hupdate : L₃.session X = (L₂.session X).apply C (.packetLoop io) :=
      Function.update_self ..
    rw [hupdate, hside₂]
    exact UdpSession.packetLoop_next s _ h.reader.2.1 h.reader.2.2 h.key h.identifier h.place
      hseq hfits
  have hpeer₃ : L₃.session X.peer = s.afterCall C payload :=
    ((Function.update_of_ne (Side.peer_ne X) ..).trans
      (Function.update_of_ne (Side.peer_ne X) ..)).trans hpeer
  refine ⟨callSteps X.peer (s.sendSeq + 1) payload packet ++
    [(X, .deliver packet), (X, .packetLoop io)], ?_, ?_, ?_⟩
  · have hcall := callSteps_permitted (C := C) h.sender.1 h.sender.2
      (show s.slots < maxUDPPending by omega) hseq hfits
      fun _ _ _ hb => hb
    have harrive : (linkMachine C).Permitted
        (fun _ e => ∀ b, e.2.payload = some b → b = payload) L₁
        [(X, .deliver packet), (X, .packetLoop io)] := by
      have hunforged : L₁.Unforged C X packet := by
        apply unforged_dataPacket (by rw [hside]; exact h.key) hseq hpos
        rw [hsealed]
        exact List.mem_append_right _ (List.mem_singleton_self _)
      have hloop : (L₂.session X).enabled (.packetLoop io) := by
        rw [hside₂]
        exact ⟨h.reader.2.2, List.cons_ne_nil _ _⟩
      exact ⟨⟨trivial, hunforged⟩, fun _ hb => (by cases hb), ⟨hloop, trivial⟩,
        fun _ hb => (by cases hb), trivial⟩
    refine (hcall.append harrive).mono ?_
    intro _ e he b hb
    apply he b
    change (if e.1 = X.peer then e.2.payload else none) = some b at hb
    split at hb
    · exact hb
    · cases hb
  · rw [List.foldl_append]
    change UdpReady X n L₃
    refine ⟨?_, ?_, ?_, ?_, ?_, ?_, ?_⟩ <;> simp only [hside₃, hpeer₃]
    · exact h.sender
    · exact h.reader
    · exact h.key
    · exact h.identifier
    · exact ⟨congrArg (· + 1) h.place.1, h.place.2⟩
    · change s.sendSeq + 1 + n + 1 < 2 ^ 64
      omega
    · change s.slots + 1 + n ≤ maxUDPPending
      omega
  · rw [List.foldl_append]
    change (L₃.session X).recv.output = _
    rw [hside₃]
    rfl

/-- A link of either carrier, as the channel to the side `X`. -/
def carrierChannel (C : Crypto) (X : Side) :
    Channel (Link ⊕ TcpLink) ((Side × UdpEvent) ⊕ (Side × TcpEvent)) Bytes :=
  (udpChannel C X).sum (tcpChannel C X)

theorem carrierChannel_lawful (C : Crypto) (X : Side) : (carrierChannel C X).Lawful :=
  (udpChannel_lawful C X).sum (tcpChannel_lawful C X)

/-- What either carrier takes. -/
def Carries (payload : Bytes) : Prop := 0 < payload.length ∧ payload.length ≤ maxUDPPlaintext

/-- A link of the given carrier that can carry `n` more payloads to `X`. -/
def CarrierReady (X : Side) : Carrier → Nat → Link ⊕ TcpLink → Prop
  | .udp, n => Sum.elim (UdpReady X n) fun _ => False
  | .tcp, n => Sum.elim (fun _ => False) (TcpReady X n)

theorem carrierChannel_conveys (C : Crypto) (X : Side) (kind : Carrier) :
    (carrierChannel C X).Conveys Carries (CarrierReady X kind) := by
  cases kind with
  | udp => exact (udpChannel_conveys C X).sum (Channel.conveys_never _ _)
  | tcp =>
      refine (Channel.conveys_never _ _).sum ((tcpChannel_conveys C X).of_fits ?_)
      rintro payload ⟨-, hlen⟩
      exact hlen.trans (by decide)

/-- The payloads that a new link carries before its counter or its slots end. -/
def carrierLimit : Carrier → Nat
  | .udp => maxUDPPending
  | .tcp => 2 ^ 64 - 2

/-- A new link of the given carrier. -/
def newLink (keys : KeySet) (sessionID : Nat) : Carrier → Link ⊕ TcpLink
  | .udp => .inl (Link.start keys sessionID)
  | .tcp => .inr (TcpLink.start keys)

theorem carrierReady_newLink (X : Side) (keys : KeySet) {sessionID : Nat}
    (hid : sessionID < 2 ^ 64) (kind : Carrier) :
    CarrierReady X kind (carrierLimit kind) (newLink keys sessionID kind) := by
  have hudp : 0 + maxUDPPending + 1 < 2 ^ 64 := by decide
  have hslots : 0 + maxUDPPending ≤ maxUDPPending := by decide
  have htcp : 0 + (2 ^ 64 - 2) + 1 < 2 ^ 64 := by decide
  cases kind with
  | udp =>
      cases X <;>
        exact ⟨⟨rfl, rfl⟩, ⟨rfl, rfl, rfl⟩, rfl, ⟨rfl, hid⟩, ⟨rfl, rfl⟩, hudp, hslots⟩
  | tcp => cases X <;> exact ⟨rfl, rfl, rfl, htcp⟩

end UnknownTunnel.Transport

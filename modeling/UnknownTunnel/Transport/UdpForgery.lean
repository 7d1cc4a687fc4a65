import UnknownTunnel.Transport.UdpLink

/-!
# Unauthenticated datagrams at a UDP session

A datagram that authenticates under neither receive key is queued before it
is looked at and ignored afterwards. A run is compared with the run from
which every such datagram, and every turn of the packet loop spent on one, is
left out.

## Implementation notes

The two runs stay in step because the packet loop handles a packet without
reading the queue behind it. What breaks the comparison is the bounded queue
alone: a delivery that finds it full finishes the session.
-/

namespace UnknownTunnel.Transport

open Foundation

namespace UdpSession

variable (C : Crypto)

/-- The packet verifies as an acknowledgement or opens as data. -/
def authenticates (s : UdpSession) (packet : Bytes) : Bool :=
  decide (packet.drop udpHeaderLen = (C.hmac s.recvACK (packet.take udpHeaderLen)).take 16) ||
    (C.aeadOpen s.recvKey (nonceFor (udpSeq packet)) (packet.drop udpHeaderLen)
      (packet.take udpHeaderLen)).isSome

/-- The session without the unauthenticated packets of its queue. -/
def genuine (s : UdpSession) : UdpSession :=
  { s with packetCh := s.packetCh.filter (s.authenticates C) }

/-- Whether a step concerns an unauthenticated packet. -/
def onForged (s : UdpSession) : UdpEvent → Bool
  | .deliver packet => !s.authenticates C packet
  | .packetLoop _ => match s.packetCh with
      | [] => false
      | packet :: _ => !s.authenticates C packet
  | _ => false

/-- The steps of a run that concern no unauthenticated packet. -/
def genuineSteps : UdpSession → List UdpEvent → List UdpEvent
  | _, [] => []
  | s, e :: es =>
      if s.onForged C e then genuineSteps (s.apply C e) es
      else e :: genuineSteps (s.apply C e) es

/-- A delivery to an open session finds room in the queue. -/
def FindsRoom (s : UdpSession) : UdpEvent → Prop
  | .deliver _ => s.closed = true ∨ s.packetCh.length < packetQueueLen
  | _ => True

variable {C} {s : UdpSession}

theorem authenticates_eq_false {packet : Bytes} (h : s.authenticates C packet = false) :
    ¬ s.VerifiesAck C packet ∧ ∀ plaintext, ¬ s.OpensData C packet plaintext := by
  simp only [authenticates, Bool.or_eq_false_iff, decide_eq_false_iff_not] at h
  refine ⟨h.1, ?_⟩
  rintro plaintext ⟨-, ho⟩
  rw [ho] at h
  cases h.2

/-- Whatever does not authenticate is ignored. -/
theorem handlePacket_of_not_authenticates {packet : Bytes}
    (h : s.authenticates C packet = false) (io : PacketIO) :
    handlePacket C io s packet = s.ignorePacket := by
  obtain ⟨hv, ho⟩ := authenticates_eq_false h
  rcases handlePacket_cases C io s packet with hi | ⟨hv', -⟩ | ⟨plaintext, ho', -⟩
  · exact hi
  · exact absurd hv' hv
  · exact absurd ho' (ho plaintext)

/-- The result with another queue in its session. -/
def requeue (queue : List Bytes) (r : PacketResult) : PacketResult :=
  { r with session := { r.session with packetCh := queue } }

theorem ite_requeue {queue : List Bytes} {p : Prop} [Decidable p] {a b c d : PacketResult}
    (hpos : a = requeue queue c) (hneg : b = requeue queue d) :
    (if p then a else b) = requeue queue (if p then c else d) := by
  rw [apply_ite (requeue queue), hpos, hneg]

/-- Handling a packet neither reads nor changes the queue. -/
theorem handlePacket_queue (io : PacketIO) (packet : Bytes) (queue : List Bytes) :
    handlePacket C io { s with packetCh := queue } packet =
      { handlePacket C io s packet with
        session := { (handlePacket C io s packet).session with packetCh := queue } } := by
  change _ = requeue queue (handlePacket C io s packet)
  unfold handlePacket
  -- The same branch is taken with either queue.
  refine ite_requeue rfl (ite_requeue rfl (ite_requeue rfl (ite_requeue ?_ ?_)))
  · exact ite_requeue rfl (ite_requeue rfl (ite_requeue rfl rfl))
  · refine ite_requeue (ite_requeue rfl ?_) rfl
    cases C.aeadOpen s.recvKey (nonceFor (udpSeq packet)) (packet.drop udpHeaderLen)
        (packet.take udpHeaderLen) with
    | none => rfl
    | some plaintext => exact ite_requeue rfl rfl

theorem authenticates_congr {t : UdpSession} (h : t.identity = s.identity) :
    t.authenticates C = s.authenticates C := by
  simp only [identity, Prod.mk.injEq] at h
  obtain ⟨-, -, hkey, -, hack⟩ := h
  funext packet
  simp only [authenticates, hkey, hack]

/-- A step on an unauthenticated packet that finds room changes nothing else. -/
theorem genuine_apply_onForged {e : UdpEvent} (he : s.enabled e) (hr : s.FindsRoom e)
    (hf : s.onForged C e = true) : (s.apply C e).genuine C = s.genuine C := by
  cases e with
  | deliver packet =>
      have ha : s.authenticates C packet = false := by simpa [onForged] using hf
      have hfilter : (s.packetCh ++ [packet]).filter (s.authenticates C) =
          s.packetCh.filter (s.authenticates C) := by
        simp [List.filter_append, ha]
      cases hc : s.closed with
      | true => rw [apply, deliverPacket_closed hc]
      | false =>
          rw [apply, deliverPacket_room hc (hr.resolve_left (by simp [hc]))]
          calc
            genuine C { s with packetCh := s.packetCh ++ [packet] }
              = { s with packetCh := (s.packetCh ++ [packet]).filter (s.authenticates C) } := rfl
            _ = s.genuine C := by rw [hfilter, genuine]
  | packetLoop io =>
      obtain ⟨hl, hq⟩ := he
      obtain ⟨packet, rest, hq⟩ := List.exists_cons_of_ne_nil hq
      have ha : s.authenticates C packet = false := by simpa [onForged, hq] using hf
      have hstep : s.apply C (.packetLoop io) = { s with packetCh := rest } := by
        simp [apply, loopStep, hq, handlePacket_of_not_authenticates ha, ignorePacket, hl]
      have hfilter : s.packetCh.filter (s.authenticates C) =
          rest.filter (s.authenticates C) := by
        rw [hq, List.filter_cons_of_neg (by simp [ha])]
      rw [hstep]
      calc
        genuine C { s with packetCh := rest }
          = { s with packetCh := rest.filter (s.authenticates C) } := rfl
        _ = s.genuine C := by rw [genuine, hfilter]
  | _ => cases hf

/-- Any other step is the same step of the session without those packets. -/
theorem genuine_apply {e : UdpEvent} (he : s.enabled e) (hr : s.FindsRoom e)
    (hf : s.onForged C e = false) :
    (s.genuine C).enabled e ∧ (s.apply C e).genuine C = (s.genuine C).apply C e := by
  cases e with
  | deliver packet =>
      have ha : s.authenticates C packet = true := by simpa [onForged] using hf
      refine ⟨trivial, ?_⟩
      cases hc : s.closed with
      | true => rw [apply, apply, deliverPacket_closed hc, deliverPacket_closed (by exact hc)]
      | false =>
          have hlen := hr.resolve_left (by simp [hc])
          have hlen' : (s.genuine C).packetCh.length < packetQueueLen :=
            (List.length_filter_le ..).trans_lt hlen
          have hfilter : (s.packetCh ++ [packet]).filter (s.authenticates C) =
              s.packetCh.filter (s.authenticates C) ++ [packet] := by
            simp [List.filter_append, ha]
          rw [apply, apply, deliverPacket_room hc hlen, deliverPacket_room (by exact hc) hlen']
          calc
            genuine C { s with packetCh := s.packetCh ++ [packet] }
              = { s with packetCh := (s.packetCh ++ [packet]).filter (s.authenticates C) } := rfl
            _ = { s.genuine C with packetCh := (s.genuine C).packetCh ++ [packet] } := by
                rw [hfilter, genuine]
  | packetLoop io =>
      obtain ⟨hl, hq⟩ := he
      obtain ⟨packet, rest, hq⟩ := List.exists_cons_of_ne_nil hq
      have ha : s.authenticates C packet = true := by simpa [onForged, hq] using hf
      have hq' : (s.genuine C).packetCh = packet :: rest.filter (s.authenticates C) := by
        rw [genuine, hq, List.filter_cons_of_pos ha]
      have hid : (s.loopStep C io).authenticates C = s.authenticates C :=
        authenticates_congr (LoopOutcome.frame C (loopStep_outcome C hq hl)).1
      have hrest : (s.loopStep C io).packetCh = rest :=
        (LoopOutcome.frame C (loopStep_outcome C hq hl)).2.2.2.2
      refine ⟨⟨hl, by simp [hq']⟩, ?_⟩
      calc
        (s.loopStep C io).genuine C
          = { s.loopStep C io with packetCh := rest.filter (s.authenticates C) } := by
            rw [genuine, hid, hrest]
        _ = (s.genuine C).loopStep C io := by
            have hqueue : handlePacket C io (s.genuine C) packet = _ := handlePacket_queue ..
            simp only [loopStep, hq, hq', hqueue]
            rfl
  | sendWrite seq packet ok => cases ok <;> exact ⟨he, rfl⟩
  | _ => exact ⟨he, rfl⟩

end UdpSession

/-- The runs of one session from any state. -/
def sessionMachine (C : Crypto) : Machine UdpSession UdpEvent where
  init := fun _ => True
  enabled := UdpSession.enabled
  apply := UdpSession.apply C

namespace UdpSession

/-- A run whose deliveries find room, and the same run without the
unauthenticated packets, end in sessions that differ in those packets only. -/
theorem genuine_run {C : Crypto} (es : List UdpEvent) {s : UdpSession}
    (run : (sessionMachine C).Permitted FindsRoom s es) :
    (sessionMachine C).Permitted (fun _ _ => True) (s.genuine C) (genuineSteps C s es) ∧
      (es.foldl (apply C) s).genuine C =
        (genuineSteps C s es).foldl (apply C) (s.genuine C) := by
  induction es generalizing s with
  | nil => exact ⟨trivial, rfl⟩
  | cons e es ih =>
      obtain ⟨he, hr, hes⟩ := run
      have hnext := ih hes
      cases hf : s.onForged C e with
      | true =>
          simp only [genuineSteps, hf, if_true, List.foldl_cons]
          rw [← genuine_apply_onForged he hr hf]
          exact hnext
      | false =>
          obtain ⟨he', hstep⟩ := genuine_apply he hr hf
          have hstep' : (s.apply C e).genuine C = (sessionMachine C).apply (s.genuine C) e := hstep
          simp only [genuineSteps, hf, Bool.false_eq_true, if_false, List.foldl_cons]
          rw [← hstep]
          exact ⟨⟨he', trivial, hstep' ▸ hnext.1⟩, hnext.2⟩

/-- The run that is left delivers authenticated packets only. -/
theorem authenticates_of_mem_genuineSteps {C : Crypto} (es : List UdpEvent) {s : UdpSession}
    (run : (sessionMachine C).Permitted FindsRoom s es) {packet : Bytes}
    (h : .deliver packet ∈ genuineSteps C s es) : s.authenticates C packet = true := by
  induction es generalizing s with
  | nil => cases h
  | cons e es ih =>
      obtain ⟨he, -, hes⟩ := run
      have hid : (s.apply C e).authenticates C = s.authenticates C :=
        authenticates_congr (apply_identity he)
      cases hf : s.onForged C e with
      | true =>
          simp only [genuineSteps, hf, if_true] at h
          rw [← hid]
          exact ih hes h
      | false =>
          simp only [genuineSteps, hf, Bool.false_eq_true, if_false, List.mem_cons] at h
          rcases h with rfl | h
          · simpa [onForged] using hf
          · rw [← hid]
            exact ih hes h

/-- Deliveries that never meet a full queue only lengthen it. -/
theorem foldl_deliver_room {C : Crypto} (packet : Bytes) (n : Nat) {s : UdpSession}
    (hc : s.closed = false) (hn : s.packetCh.length + n ≤ packetQueueLen) :
    (List.replicate n (UdpEvent.deliver packet)).foldl (apply C) s =
      { s with packetCh := s.packetCh ++ List.replicate n packet } := by
  induction n generalizing s with
  | zero => simp
  | succ n ih =>
      have hstep : s.apply C (.deliver packet) = { s with packetCh := s.packetCh ++ [packet] } :=
        deliverPacket_room hc (by omega) packet
      have hlen : (s.packetCh ++ [packet]).length + n ≤ packetQueueLen := by
        rw [List.length_append, List.length_singleton]
        omega
      rw [List.replicate_succ, List.foldl_cons, hstep, ih (by exact hc) hlen]
      simp [List.replicate_succ]

/-- One delivery more than the queue holds finishes the session. -/
theorem closed_foldl_deliver {C : Crypto} (packet : Bytes) {s : UdpSession}
    (hc : s.closed = false) (hq : s.packetCh = []) :
    ((List.replicate (packetQueueLen + 1) (UdpEvent.deliver packet)).foldl (apply C) s).closed =
      true := by
  have hroom : s.packetCh.length + packetQueueLen ≤ packetQueueLen := by simp [hq]
  have hfull : packetQueueLen ≤ (s.packetCh ++ List.replicate packetQueueLen packet).length := by
    simp
  rw [List.replicate_succ', List.foldl_append, foldl_deliver_room packet _ hc hroom,
    List.foldl_cons, List.foldl_nil, apply, deliverPacket_full (by exact hc) hfull]

end UdpSession

/-- A run in which every delivery finds room ends, in everything but the
queue, where it ends without the unauthenticated packets. A full queue is the
only way such a packet reaches an open session. -/
theorem udp_unauthenticated_datagrams_ignored (C : Crypto) :
    (∀ (s : UdpSession) (es : List UdpEvent),
      (sessionMachine C).Permitted UdpSession.FindsRoom s es →
      (sessionMachine C).Permitted (fun _ _ => True) (s.genuine C) (s.genuineSteps C es) ∧
      (∀ packet, .deliver packet ∈ s.genuineSteps C es → s.authenticates C packet = true) ∧
      ∃ queue, es.foldl (UdpSession.apply C) s =
        { (s.genuineSteps C es).foldl (UdpSession.apply C) (s.genuine C) with
          packetCh := queue }) ∧
    (∀ (s : UdpSession) (packet : Bytes), s.closed = false → s.authenticates C packet = false →
      ((s.apply C (.deliver packet)).genuine C = s.genuine C ↔
        s.packetCh.length < packetQueueLen)) := by
  constructor
  · intro s es run
    obtain ⟨hrun, hend⟩ := UdpSession.genuine_run es run
    refine ⟨hrun, fun packet => UdpSession.authenticates_of_mem_genuineSteps es run, ?_⟩
    rw [← hend]
    exact ⟨(es.foldl (UdpSession.apply C) s).packetCh, rfl⟩
  · intro s packet hc ha
    constructor
    · intro h
      by_contra hfull
      have hclosed := congrArg UdpSession.closed h
      rw [UdpSession.apply, UdpSession.deliverPacket_full hc (by omega)] at hclosed
      exact Bool.noConfusion (hclosed.trans hc)
    · intro hlen
      exact UdpSession.genuine_apply_onForged trivial (Or.inr hlen)
        (by simp [UdpSession.onForged, ha])

/-- A header with the magic and the identifier of a session, and nothing after it:
the read loops of both sides pass it on, and it carries no tag. -/
def blankPacket : Bytes := makeUDPHeader udpPacketData 7 1 0

theorem udp_unauthenticated_datagrams_ignored_single :
    let s := peeredSession sampleKeys 7 .server
    let es : List UdpEvent := [.deliver blankPacket, .packetLoop ⟨true, fun _ => true⟩]
    (sessionMachine Crypto.sum).Permitted UdpSession.FindsRoom s es ∧
      (es.foldl (UdpSession.apply Crypto.sum) s).closed = false := by
  have hrun : (sessionMachine Crypto.sum).Permitted UdpSession.FindsRoom
      (peeredSession sampleKeys 7 .server)
      [.deliver blankPacket, .packetLoop ⟨true, fun _ => true⟩] :=
    ⟨trivial, Or.inr (by decide), ⟨rfl, List.cons_ne_nil _ _⟩, trivial, trivial⟩
  refine ⟨hrun, ?_⟩
  obtain ⟨-, -, queue, hend⟩ := (udp_unauthenticated_datagrams_ignored Crypto.sum).1 _ _ hrun
  refine (congrArg UdpSession.closed hend).trans ?_
  change UdpSession.closed (((peeredSession sampleKeys 7 .server).genuineSteps Crypto.sum
    [.deliver blankPacket, .packetLoop ⟨true, fun _ => true⟩]).foldl (UdpSession.apply Crypto.sum)
    ((peeredSession sampleKeys 7 .server).genuine Crypto.sum)) = false
  decide +kernel

/-- Datagrams that the read loop passes on while the packet loop does not run. -/
theorem udp_unauthenticated_datagrams_finish_session :
    ∃ es : List UdpEvent,
      (∀ e ∈ es, ∃ packet, e = .deliver packet ∧ udpHeaderLen ≤ packet.length ∧
        packet.take 4 = udpDataMagic ∧ udpSessionID packet = 7 ∧
        (peeredSession sampleKeys 7 .server).authenticates Crypto.sum packet = false) ∧
      (sessionMachine Crypto.sum).Permitted (fun _ _ => True)
        (peeredSession sampleKeys 7 .server) es ∧
      (peeredSession sampleKeys 7 .server).closed = false ∧
      (es.foldl (UdpSession.apply Crypto.sum) (peeredSession sampleKeys 7 .server)).closed =
        true := by
  refine ⟨List.replicate (packetQueueLen + 1) (.deliver blankPacket), ?_, ?_, rfl, ?_⟩
  · intro e he
    rw [List.eq_of_mem_replicate he]
    exact ⟨blankPacket, rfl, by decide +kernel⟩
  · generalize packetQueueLen + 1 = n
    generalize peeredSession sampleKeys 7 .server = s
    induction n generalizing s with
    | zero => trivial
    | succ n ih => exact ⟨trivial, trivial, ih _⟩
  · exact UdpSession.closed_foldl_deliver blankPacket rfl rfl

end UnknownTunnel.Transport

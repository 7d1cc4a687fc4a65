import UnknownTunnel.Transport.HandshakeCompletion
import UnknownTunnel.Transport.UdpForgery

/-!
# Handshakes that complete over UDP

The client sends its hello to a server that is idle and has room, and the two
sessions confirm their keys over the packets of the carrier. The server may
have to replace an older session of the same address before it exposes the
new one.

## Implementation notes

The goroutines of a session take many small steps in between. They are led
through by one rule for each end, over any list of such steps.
-/

namespace UnknownTunnel.Transport

open Foundation

/-! ## Steps of one session -/

namespace UdpSession

/-- Steps of the goroutines of a session, without arrivals and new calls. -/
def Internal (_ : UdpSession) : UdpEvent → Prop
  | .deliver _ | .sendCheck _ | .close => False
  | _ => True

/-- The calls of `Seal` along a list of steps. -/
def sealRecords (C : Crypto) : UdpSession → List UdpEvent → List SealRecord
  | _, [] => []
  | s, e :: es => (s.sealRecord e).toList ++ sealRecords C (s.apply C e) es

/-- The rest of a `Send` call that has passed its checks. -/
def callRest (C : Crypto) (s : UdpSession) (payload : Bytes) : List UdpEvent :=
  [.sendAcquire payload, .sendSeal payload,
    .sendInsert (s.sendSeq + 1) (s.dataPacket C (s.sendSeq + 1) payload),
    .sendWrite (s.sendSeq + 1) (s.dataPacket C (s.sendSeq + 1) payload) true]

/-- The call of `Seal` that a `Send` call makes. -/
def callRecord (s : UdpSession) (payload : Bytes) : SealRecord :=
  ⟨s.sendKey, nonceFor (s.sendSeq + 1),
    makeUDPHeader udpPacketData s.sessionID (s.sendSeq + 1) (payload.length + aeadOverhead),
    payload⟩

variable {C : Crypto} {s : UdpSession} {payload : Bytes}

theorem callRest_permitted (hsends : s.sends = []) (hslots : s.slots < maxUDPPending)
    (hseq : s.sendSeq + 1 < 2 ^ 64) :
    (sessionMachine C).Permitted Internal (s.apply C (.sendCheck payload))
      (s.callRest C payload) := by
  refine ⟨?_, trivial, ?_, trivial, ?_, trivial, ?_, trivial, trivial⟩ <;>
    simp [sessionMachine, enabled, apply, hsends, hslots, dataPacket]
  exact hseq

theorem foldl_callRest (hsends : s.sends = []) :
    (s.callRest C payload).foldl (apply C) (s.apply C (.sendCheck payload)) =
      s.afterCall C payload := by
  simp [callRest, apply, afterCall, hsends, dataPacket]

theorem sealRecords_callRest (hsends : s.sends = []) :
    sealRecords C (s.apply C (.sendCheck payload)) (s.callRest C payload) =
      [s.callRecord payload] := by
  simp [callRest, sealRecords, sealRecord, apply, hsends, callRecord]

/-- A packet that the peer of a session has sealed is no forgery. -/
theorem packetUnforged_dataPacket {t : UdpSession} {sealed : List SealRecord}
    (hkey : t.recvKey = s.sendKey) (hseq : s.sendSeq + 1 < 2 ^ 64)
    (hmem : s.callRecord payload ∈ sealed) :
    t.PacketUnforged C sealed (s.dataPacket C (s.sendSeq + 1) payload) := by
  have htake : (s.dataPacket C (s.sendSeq + 1) payload).take udpHeaderLen =
      makeUDPHeader udpPacketData s.sessionID (s.sendSeq + 1) (payload.length + aeadOverhead) :=
    take_header ..
  have hdrop : (s.dataPacket C (s.sendSeq + 1) payload).drop udpHeaderLen =
      C.aeadSeal s.sendKey (nonceFor (s.sendSeq + 1)) payload
        (makeUDPHeader udpPacketData s.sessionID (s.sendSeq + 1)
          (payload.length + aeadOverhead)) := drop_header ..
  rintro plaintext ⟨-, hopen⟩
  rw [udpSeq_of_take htake hseq, htake] at hopen ⊢
  rw [hdrop, hkey, C.aeadOpen_aeadSeal] at hopen
  obtain rfl := Option.some.inj hopen
  rw [hkey]
  exact hmem

end UdpSession

/-! ## The server with one more session -/

theorem mapIdx_last {α : Type*} {f : Nat → α → α} {l : List α} {x : α}
    (h : ∀ j y, j < l.length → f j y = y) : (l ++ [x]).mapIdx f = l ++ [f l.length x] := by
  rw [List.mapIdx_append, List.mapIdx_singleton, Nat.zero_add]
  congr 1
  refine List.ext_getElem (by simp) fun j h₁ h₂ => ?_
  rw [List.getElem_mapIdx]
  exact h j _ h₂

namespace UdpServer

variable {C : Crypto} {cfg : NodeConfig}

/-- A server with one more session object, which is in the tables. -/
def withSession (S : UdpServer) (sessionID : Nat) (remote : Bytes) (o : ServerSession)
    (reader : ReaderState) : UdpServer :=
  { S with
    sessions := S.sessions.insert sessionID S.objects.length
    sessionRemote := S.sessionRemote.insert sessionID remote
    objects := S.objects ++ [o]
    reader := reader }

variable {S : UdpServer} {sessionID : Nat} {remote : Bytes} {o o' : ServerSession}
  {reader reader' : ReaderState}

theorem withSession_object :
    (S.withSession sessionID remote o reader).objects[S.objects.length]? = some o :=
  List.getElem?_concat_length ..

/-- A step about the new session object. -/
theorem withSession_apply {e : ServerEvent}
    (hcontrol : (S.withSession sessionID remote o reader).control C cfg e =
      S.withSession sessionID remote o reader')
    (hothers : ∀ j p, j ≠ S.objects.length →
      (S.withSession sessionID remote o reader).objectAfter C e j p = p)
    (hself : (S.withSession sessionID remote o reader).objectAfter C e S.objects.length o = o') :
    (S.withSession sessionID remote o reader).apply C cfg e =
      S.withSession sessionID remote o' reader' := by
  have hobjects : (S.objects ++ [o]).mapIdx
      ((S.withSession sessionID remote o reader).objectAfter C e) = S.objects ++ [o'] := by
    rw [mapIdx_last fun j p hj => hothers j p hj.ne, hself]
  simp only [apply, hcontrol]
  simp only [withSession] at hobjects ⊢
  rw [hobjects]

/-- The server waits for a datagram, is not being closed, and has room for one
more session. -/
structure Ready (S : UdpServer) : Prop where
  reader : S.reader = .idle
  shutdown : S.shutdown = .running
  room : S.sessions.size < maxUDPSessions

end UdpServer

/-- The keys that the handshake leads to. -/
def Drawn.keys (v : Drawn) (C : Crypto) (cfg : NodeConfig) : KeySet :=
  C.deriveKeys cfg.secret v.nonce v.serverNonce cfg.peerID cfg.nodeID

/-- The server's session object of the handshake, with its two goroutines started. -/
def Drawn.object (v : Drawn) (sessionID : Nat) (remote : Bytes) (session : UdpSession) :
    ServerSession where
  sessionID := sessionID
  remote := remote
  clientNonce := v.nonce
  serverNonce := v.serverNonce
  session := session
  reaper := .waiting
  confirm := .waiting
  delivered := []

namespace World

variable {C : Crypto} {cfg : NodeConfig} {W : World} {v : Drawn} {P : World → Prop}

/-- A world with one more dial and one more session of the UDP server. -/
def withUdp (W : World) (cfg : NodeConfig) (v : Drawn) (sessionID : Nat) (remote : Bytes)
    (phase : DialPhase) (o : ServerSession) (reader : ReaderState) (sealed : List SealRecord) :
    World :=
  { W with
    dials := W.dials ++ [⟨.udp, v.nonce, phase⟩]
    server := W.server.withSession sessionID remote o reader
    maced := W.maced ++ [macInput (v.hello cfg) [], macInput (v.welcome cfg sessionID) v.nonce]
    sealed := W.sealed ++ sealed }

variable {sessionID : Nat} {remote : Bytes} {phase : DialPhase} {o : ServerSession}
  {reader : ReaderState} {sealed : List SealRecord}

/-- A step of the added dial. -/
theorem withUdp_dial (e : DialEvent) (phase' : DialPhase) (new : List SealRecord)
    (he : Dial.enabled ⟨.udp, v.nonce, phase⟩ e)
    (hmac : ∀ data, e.handshake = some data → MacUnforged C cfg.secret
      (W.withUdp cfg v sessionID remote phase o reader sealed).maced data v.nonce)
    (hsession : ∀ nonce s c ev, phase = .established nonce s c → e.sessionEvent = some ev →
      s.Unforged C (W.sealed ++ sealed) ev)
    (hphase : Dial.phaseAfter C cfg.peer ⟨.udp, v.nonce, phase⟩ e = phase')
    (hnew : (Dial.sealRecord ⟨.udp, v.nonce, phase⟩ e).toList = new)
    (next : (handshakeMachine C cfg).CanReach (Ideal C cfg)
      (W.withUdp cfg v sessionID remote phase' o reader (sealed ++ new)) P) :
    (handshakeMachine C cfg).CanReach (Ideal C cfg)
      (W.withUdp cfg v sessionID remote phase o reader sealed) P := by
  refine last_dial rfl e ⟨.udp, v.nonce, phase'⟩ he hmac hsession ?_ hnew ?_
  · rw [Dial.apply, hphase]
  · simpa only [withUdp, List.append_assoc] using next

/-- A step of the server about the added session. -/
theorem withUdp_server (e : ServerEvent) (o' : ServerSession) (reader' : ReaderState)
    {new : List SealRecord}
    (he : (W.server.withSession sessionID remote o reader).enabled e)
    (hideal : (W.withUdp cfg v sessionID remote phase o reader sealed).Ideal C cfg (.server e))
    (hmac : serverMac C cfg (W.server.withSession sessionID remote o reader) e = none)
    (hcontrol : (W.server.withSession sessionID remote o reader).control C cfg e =
      W.server.withSession sessionID remote o reader')
    (hothers : ∀ j p, j ≠ W.server.objects.length →
      (W.server.withSession sessionID remote o reader).objectAfter C e j p = p)
    (hself : (W.server.withSession sessionID remote o reader).objectAfter C e
      W.server.objects.length o = o')
    (hnew : (serverSeal (W.server.withSession sessionID remote o reader) e).toList = new)
    (next : (handshakeMachine C cfg).CanReach (Ideal C cfg)
      (W.withUdp cfg v sessionID remote phase o' reader' (sealed ++ new)) P) :
    (handshakeMachine C cfg).CanReach (Ideal C cfg)
      (W.withUdp cfg v sessionID remote phase o reader sealed) P := by
  have happly := UdpServer.withSession_apply hcontrol hothers hself
  refine .step_to (.server e) he hideal ?_ next
  simp only [handshakeMachine, apply, withUdp, happly, hmac, hnew, Option.toList_none,
    List.append_nil, List.append_assoc]

/-- Steps of the goroutines of the client's session. -/
theorem withUdp_client_steps (es : List UdpEvent) {s : UdpSession} {c : ClientConfirm}
    (hes : (sessionMachine C).Permitted UdpSession.Internal s es)
    (next : (handshakeMachine C cfg).CanReach (Ideal C cfg)
      (W.withUdp cfg v sessionID remote
        (.established v.serverNonce (.udp (es.foldl (UdpSession.apply C) s))
          (es.foldl (fun c e => clientConfirmAfter c (.udp e)) c))
        o reader (sealed ++ UdpSession.sealRecords C s es)) P) :
    (handshakeMachine C cfg).CanReach (Ideal C cfg)
      (W.withUdp cfg v sessionID remote (.established v.serverNonce (.udp s) c) o reader sealed)
      P := by
  induction es generalizing s c sealed with
  | nil => simpa [UdpSession.sealRecords] using next
  | cons e es ih =>
      obtain ⟨he, hint, hes⟩ := hes
      refine withUdp_dial (.session (.udp e)) _ _ ?_ (fun _ h => by cases h) ?_ rfl rfl (ih hes ?_)
      · refine ⟨_, _, _, rfl, he, ?_⟩
        cases e with
        | deliver packet | sendCheck payload | close => exact hint.elim
        | _ => trivial
      · rintro _ _ _ _ hp hev
        cases hp
        cases hev
        cases e with
        | deliver packet => exact hint.elim
        | _ => trivial
      · simpa [UdpSession.sealRecords, Dial.sealRecord, DialEvent.sessionEvent,
          Session.sealRecord, List.append_assoc, sessionMachine] using next

/-- Steps of the goroutines of the server's session. -/
theorem withUdp_server_steps (es : List UdpEvent)
    (hes : (sessionMachine C).Permitted UdpSession.Internal o.session es)
    (next : (handshakeMachine C cfg).CanReach (Ideal C cfg)
      (W.withUdp cfg v sessionID remote phase
        { o with
          session := es.foldl (UdpSession.apply C) o.session
          confirm := es.foldl ServerSession.confirmAfter o.confirm }
        reader (sealed ++ UdpSession.sealRecords C o.session es)) P) :
    (handshakeMachine C cfg).CanReach (Ideal C cfg)
      (W.withUdp cfg v sessionID remote phase o reader sealed) P := by
  induction es generalizing o sealed with
  | nil => simpa [UdpSession.sealRecords] using next
  | cons e es ih =>
      obtain ⟨he, hint, hes⟩ := hes
      have hob :
          (W.server.withSession sessionID remote o reader).objects[W.server.objects.length]? =
            some o := UdpServer.withSession_object
      refine withUdp_server (.session W.server.objects.length e) (o.step C e) reader
        ⟨o, hob, he, ?_⟩ ⟨trivial, trivial⟩ rfl rfl ?_ ?_ rfl (ih hes ?_)
      · cases e with
        | deliver packet | sendCheck payload | close => exact hint.elim
        | _ => trivial
      · intro j p hj
        simp [UdpServer.objectAfter, UdpServer.closes, UdpServer.advance, hj.symm]
      · simp [UdpServer.objectAfter, UdpServer.closes, UdpServer.advance]
      · simpa [UdpSession.sealRecords, serverSeal, hob, ServerSession.step, List.append_assoc,
          sessionMachine] using next

/-! ## From the hello to the welcome -/

theorem take_messageBytes (C : Crypto) (cfg : NodeConfig) (h : Handshake) (bindNonce : Bytes) :
    (messageBytes C cfg h bindNonce).take 4 = handshakeMagic := by
  have hmagic : handshakeMagic = [85, 75, 72, 49] := by decide
  simp [messageBytes, handshakeBody, hmagic]

/-- The hello is accepted and the server registers a session for it. -/
theorem withUdp_registered (remote : Bytes) (hv : v.Valid cfg)
    (hnonce : ∀ d ∈ W.dials, d.nonce ≠ v.nonce) (hfresh : W.NewServerNonce v.serverNonce)
    (hready : W.server.Ready) (hid : 0 < sessionID ∧ sessionID < 2 ^ 64)
    (hnew : sessionID ∉ W.server.sessions)
    (hquiet : ∀ o ∈ W.server.objects,
      o.session.PacketUnforged C W.sealed (messageBytes C cfg (v.hello cfg) []))
    (next : (handshakeMachine C cfg).CanReach (Ideal C cfg)
      (W.withUdp cfg v sessionID remote (.greeting 0 Handshake.zero)
        { v.object sessionID remote (peeredSession (v.keys C cfg) sessionID .server) with
          reaper := .unstarted
          confirm := .unstarted }
        (.welcoming W.server.objects.length) []) P) :
    (handshakeMachine C cfg).CanReach (Ideal C cfg) W P := by
  have hsame : ∀ (S : UdpServer) (e : ServerEvent) (l : List ServerSession),
      (∀ j p, S.objectAfter C e j p = p) → l.mapIdx (S.objectAfter C e) = l := by
    intro S e l h
    refine List.ext_getElem (by simp) fun j h₁ h₂ => ?_
    rw [List.getElem_mapIdx, h]
  refine .step (.newDial .udp v.nonce v.greeted) hv.hello ⟨hnonce, trivial⟩ ?_
  -- The read loop takes the hello.
  have hread : W.server.readLoop C cfg v.accepted remote (messageBytes C cfg (v.hello cfg) []) =
      .hello remote (v.hello cfg) := by
    rw [UdpServer.readLoop, if_pos (take_messageBytes ..), hv.acceptHello]
    simp only [if_neg hready.room.not_ge]
  refine .step_to (t := { W with
      dials := W.dials ++ [Dial.start .udp v.nonce]
      maced := W.maced ++ [macInput (v.hello cfg) []]
      server := { W.server with reader := .hello remote (v.hello cfg) } })
    (.server (.datagram v.accepted remote (messageBytes C cfg (v.hello cfg) []))) hready.reader
    ⟨trivial, hquiet⟩ ?_ ?_
  · have hobjects := hsame W.server
      (.datagram v.accepted remote (messageBytes C cfg (v.hello cfg) [])) W.server.objects
      fun j p => rfl
    simp only [handshakeMachine, apply, UdpServer.apply, UdpServer.control, hread, hobjects,
      serverMac, serverSeal, Option.toList_none, List.append_nil]
    rfl
  -- The session is registered.
  obtain ⟨data, hdata⟩ := hv.welcomeFor (C := C) hid.2
  refine .step_to (.server (.register sessionID v.serverNonce v.answered))
    ⟨⟨_, _, rfl⟩, hid.1, hid.2, hnew, hv.nonces.2, hv.answered⟩ ?_ ?_ next
  · exact ⟨fun _ _ _ => hfresh, trivial⟩
  · have hobjects := hsame { W.server with reader := .hello remote (v.hello cfg) }
      (.register sessionID v.serverNonce v.answered)
      (W.server.objects ++
        [UdpServer.newSession C cfg remote (v.hello cfg) sessionID v.serverNonce])
      fun j p => rfl
    simp only [handshakeMachine, apply, UdpServer.apply, UdpServer.control, UdpServer.register,
      hdata, hobjects, serverMac, serverSeal, Option.toList_none, List.append_nil]
    simp only [withUdp, UdpServer.withSession, Option.toList_some, List.append_assoc,
      List.append_nil]
    rfl

/-- The welcome is written and taken. -/
theorem withUdp_answered (hv : v.Valid cfg) (hid : 0 < sessionID ∧ sessionID < 2 ^ 64)
    (next : (handshakeMachine C cfg).CanReach (Ideal C cfg)
      (W.withUdp cfg v sessionID remote
        (.established v.serverNonce (.udp (peeredSession (v.keys C cfg) sessionID .client))
          .unstarted)
        (v.object sessionID remote (peeredSession (v.keys C cfg) sessionID .server)) .idle []) P) :
    (handshakeMachine C cfg).CanReach (Ideal C cfg)
      (W.withUdp cfg v sessionID remote (.greeting 0 Handshake.zero)
        { v.object sessionID remote (peeredSession (v.keys C cfg) sessionID .server) with
          reaper := .unstarted
          confirm := .unstarted }
        (.welcoming W.server.objects.length) []) P := by
  refine withUdp_server (.welcome true)
    (v.object sessionID remote (peeredSession (v.keys C cfg) sessionID .server)) .idle ⟨_, rfl⟩
    ⟨trivial, trivial⟩ rfl rfl ?_ ?_ rfl ?_
  · intro j p hj
    simp [UdpServer.objectAfter, UdpServer.closes, UdpServer.advance, UdpServer.withSession,
      hj.symm]
  · simp [UdpServer.objectAfter, UdpServer.closes, UdpServer.advance, UdpServer.withSession,
      ServerSession.start, Drawn.object]
  obtain ⟨hdecode, hvalid⟩ := hv.welcomed (C := C) hid.2
  refine withUdp_dial
    (.attempt (.datagram v.welcomed (messageBytes C cfg (v.welcome cfg sessionID) v.nonce))) _ _
    ⟨rfl, 0, _, rfl⟩ ?_ ?_ ?_ rfl next
  · intro bytes hbytes
    obtain rfl := Option.some.inj hbytes
    exact macUnforged_message (hv.welcome hid.2) (by simp [withUdp])
  · rintro _ _ _ _ - hev
    cases hev
  · have hne : (v.welcome cfg sessionID).sessionID ≠ 0 := Nat.pos_iff_ne_zero.mp hid.1
    simp only [Dial.phaseAfter, Dial.attempt, dialAttempt, NodeConfig.peer, hdecode, hvalid,
      if_neg hne, Dial.afterLoop]
    rfl

/-! ## The key confirmations -/

section Confirmations

variable (keys : KeySet) (hid : 0 < sessionID ∧ sessionID < 2 ^ 64)

/-- The client's session after it has sent its confirmation. -/
def confirmingClient (C : Crypto) (keys : KeySet) (sessionID : Nat) : UdpSession :=
  (peeredSession keys sessionID .client).afterCall C clientConfirm

/-- The client's confirmation on the wire. -/
def clientPacket (C : Crypto) (keys : KeySet) (sessionID : Nat) : Bytes :=
  (peeredSession keys sessionID .client).dataPacket C 1 clientConfirm

/-- The server's session after it has published the client's confirmation. -/
def confirmedServer (keys : KeySet) (sessionID : Nat) : UdpSession :=
  (peeredSession keys sessionID .server).publishNext clientConfirm

theorem length_clientConfirm_udp : clientConfirm.length ≤ maxUDPPlaintext := by decide

theorem length_serverConfirm_udp : serverConfirm.length ≤ maxUDPPlaintext := by decide

/-- The client sends its confirmation. -/
theorem withUdp_client_sends
    (next : (handshakeMachine C cfg).CanReach (Ideal C cfg)
      (W.withUdp cfg v sessionID remote
        (.established v.serverNonce (.udp (confirmingClient C keys sessionID)) .waiting) o .idle
        [(peeredSession keys sessionID .client).callRecord clientConfirm]) P) :
    (handshakeMachine C cfg).CanReach (Ideal C cfg)
      (W.withUdp cfg v sessionID remote
        (.established v.serverNonce (.udp (peeredSession keys sessionID .client)) .unstarted) o
        .idle []) P := by
  refine withUdp_dial (.confirm (.udp (.sendCheck clientConfirm))) _ _
    ⟨_, _, rfl, ⟨rfl, length_clientConfirm_udp⟩, rfl⟩ (fun _ h => by cases h) ?_ rfl rfl ?_
  · rintro _ _ _ _ hp hev
    cases hp
    cases hev
    trivial
  · refine withUdp_client_steps ((peeredSession keys sessionID .client).callRest C clientConfirm)
      (UdpSession.callRest_permitted rfl (show 0 < maxUDPPending by decide)
        (show 0 + 1 < 2 ^ 64 by decide)) ?_
    rw [UdpSession.foldl_callRest rfl, UdpSession.sealRecords_callRest rfl]
    exact next

/-- A data packet of the session is routed to its object. -/
theorem readLoop_dataPacket {S : UdpServer} {s : UdpSession} (hs : s.sessionID = sessionID)
    (hlt : sessionID < 2 ^ 64) (now : Int) (seq : Nat) (payload : Bytes) :
    (S.withSession sessionID remote o reader).readLoop C cfg now remote
        (s.dataPacket C seq payload) =
      .delivering S.objects.length (s.dataPacket C seq payload) := by
  have hne : udpDataMagic ≠ handshakeMagic := by decide
  have hfront : (s.dataPacket C seq payload).take 4 = udpDataMagic := (front_header ..).1
  have hlen : udpHeaderLen ≤ (s.dataPacket C seq payload).length := by
    rw [UdpSession.dataPacket, List.length_append, length_makeUDPHeader]
    exact Nat.le_add_right _ _
  have hsid : udpSessionID (s.dataPacket C seq payload) = sessionID := by
    rw [UdpSession.dataPacket, udpSessionID_header, hs]
    exact Nat.mod_eq_of_lt hlt
  rw [UdpServer.readLoop, hfront, if_neg hne, if_neg (by simp [hlen.not_gt]), hsid]
  simp [UdpServer.withSession]

include hid

/-- The server's session publishes the client's confirmation. -/
theorem withUdp_server_reads
    (hquiet : ∀ p ∈ W.server.objects,
      p.session.PacketUnforged C W.sealed (clientPacket C keys sessionID))
    (next : (handshakeMachine C cfg).CanReach (Ideal C cfg)
      (W.withUdp cfg v sessionID remote phase
        { v.object sessionID remote (confirmedServer keys sessionID) with
          delivered := [clientPacket C keys sessionID] }
        .idle [(peeredSession keys sessionID .client).callRecord clientConfirm]) P) :
    (handshakeMachine C cfg).CanReach (Ideal C cfg)
      (W.withUdp cfg v sessionID remote phase
        (v.object sessionID remote (peeredSession keys sessionID .server)) .idle
        [(peeredSession keys sessionID .client).callRecord clientConfirm]) P := by
  let packet := clientPacket C keys sessionID
  -- The read loop routes the packet.
  refine withUdp_server (.datagram 0 remote packet) _
    (.delivering W.server.objects.length packet) rfl ?_ rfl ?_ (fun _ _ _ => rfl) rfl rfl ?_
  · refine ⟨trivial, fun p hp => ?_⟩
    obtain hold | hnew := List.mem_append.mp hp
    · exact (hquiet p hold).mono (List.subset_append_left _ _)
    · obtain rfl := List.mem_singleton.mp hnew
      exact UdpSession.packetUnforged_dataPacket rfl (show 0 + 1 < 2 ^ 64 by decide)
        (List.mem_append_right _ (List.mem_singleton_self _))
  · exact congrArg (W.server.withSession sessionID remote _) (readLoop_dataPacket rfl hid.2 0 1 _)
  -- It is put in the queue of the session.
  refine withUdp_server .deliver
    { v.object sessionID remote
        { peeredSession keys sessionID .server with packetCh := [packet] } with
      delivered := [packet] }
    .idle ⟨_, _, rfl⟩ ⟨trivial, trivial⟩ rfl rfl ?_ ?_ rfl ?_
  · intro j p hj
    simp [UdpServer.objectAfter, UdpServer.closes, UdpServer.advance, UdpServer.withSession,
      hj.symm]
  · simp [UdpServer.objectAfter, UdpServer.closes, UdpServer.advance, UdpServer.withSession,
      ServerSession.deliver, Drawn.object, UdpSession.deliverPacket, peeredSession, newUDPSession,
      packetQueueLen]
  -- The packet loop publishes its payload.
  refine withUdp_server_steps [.packetLoop ⟨true, fun _ => true⟩]
    ⟨⟨rfl, List.cons_ne_nil _ _⟩, trivial, trivial⟩ ?_
  have hpublish : UdpSession.apply C
      { peeredSession keys sessionID .server with packetCh := [packet] }
      (.packetLoop ⟨true, fun _ => true⟩) = confirmedServer keys sessionID :=
    UdpSession.packetLoop_next (peeredSession keys sessionID .client)
      (peeredSession keys sessionID .server) rfl rfl rfl ⟨rfl, hid.2⟩ ⟨rfl, rfl⟩ (by decide)
      length_clientConfirm_udp
  simp only [List.foldl_cons, List.foldl_nil, Drawn.object, hpublish]
  exact next

/-- The server's session after it has answered. -/
def answeredServer (C : Crypto) (keys : KeySet) (sessionID : Nat) : UdpSession :=
  (confirmedServer keys sessionID).afterCall C serverConfirm

/-- The two calls of `Seal` of the confirmations. -/
def confirmRecords (keys : KeySet) (sessionID : Nat) : List SealRecord :=
  [(peeredSession keys sessionID .client).callRecord clientConfirm,
    (peeredSession keys sessionID .server).callRecord serverConfirm]

omit hid in
/-- The server answers the client's confirmation. -/
theorem withUdp_server_answers
    (next : (handshakeMachine C cfg).CanReach (Ideal C cfg)
      (W.withUdp cfg v sessionID remote phase
        { v.object sessionID remote (answeredServer C keys sessionID) with
          delivered := [clientPacket C keys sessionID]
          confirm := .confirmed }
        .idle (confirmRecords keys sessionID)) P) :
    (handshakeMachine C cfg).CanReach (Ideal C cfg)
      (W.withUdp cfg v sessionID remote phase
        { v.object sessionID remote (confirmedServer keys sessionID) with
          delivered := [clientPacket C keys sessionID] }
        .idle [(peeredSession keys sessionID .client).callRecord clientConfirm]) P := by
  let t := confirmedServer keys sessionID
  refine withUdp_server (.confirmReceive W.server.objects.length)
    { v.object sessionID remote (t.apply C (.sendCheck serverConfirm)) with
      delivered := [clientPacket C keys sessionID]
      confirm := .sending }
    .idle ⟨_, UdpServer.withSession_object, rfl, List.cons_ne_nil _ _⟩ ⟨trivial, trivial⟩ rfl rfl
    ?_ ?_ rfl ?_
  · intro j p hj
    simp [UdpServer.objectAfter, UdpServer.closes, UdpServer.advance, hj.symm]
  · simp [UdpServer.objectAfter, UdpServer.closes, UdpServer.advance,
      ServerSession.receiveConfirm, Drawn.object, t, confirmedServer, UdpSession.publishNext,
      peeredSession, newUDPSession, Resequencer.fresh]
  · refine withUdp_server_steps (t.callRest C serverConfirm)
      (UdpSession.callRest_permitted rfl (show 0 < maxUDPPending by decide)
        (show 0 + 1 < 2 ^ 64 by decide)) ?_
    simp only [Drawn.object]
    rw [UdpSession.foldl_callRest rfl, UdpSession.sealRecords_callRest rfl]
    exact next

/-- The client takes the answer and returns. -/
theorem withUdp_client_returns
    (next : (handshakeMachine C cfg).CanReach (Ideal C cfg)
      (W.withUdp cfg v sessionID remote
        (.established v.serverNonce
          (.udp ((confirmingClient C keys sessionID).publishNext serverConfirm)) .returned)
        o .idle (confirmRecords keys sessionID)) P) :
    (handshakeMachine C cfg).CanReach (Ideal C cfg)
      (W.withUdp cfg v sessionID remote
        (.established v.serverNonce (.udp (confirmingClient C keys sessionID)) .waiting) o .idle
        (confirmRecords keys sessionID)) P := by
  let s := peeredSession keys sessionID .server
  let t := confirmingClient C keys sessionID
  refine withUdp_dial (.session (.udp (.deliver (s.dataPacket C 1 serverConfirm))))
    (.established v.serverNonce
      (.udp { t with packetCh := [s.dataPacket C 1 serverConfirm] }) .waiting) []
    ⟨_, _, _, rfl, trivial, trivial⟩ (fun _ h => by cases h) ?_ ?_ rfl ?_
  · rintro _ _ _ _ hp hev
    cases hp
    cases hev
    exact UdpSession.packetUnforged_dataPacket rfl (show 0 + 1 < 2 ^ 64 by decide)
      (List.mem_append_right _ (List.mem_cons_of_mem _ (List.mem_singleton_self _)))
  · simp [Dial.phaseAfter, Session.apply, UdpSession.apply, UdpSession.deliverPacket,
      clientConfirmAfter, t, confirmingClient, UdpSession.afterCall, peeredSession, newUDPSession,
      packetQueueLen]
  refine withUdp_client_steps [.packetLoop ⟨true, fun _ => true⟩]
    ⟨⟨rfl, List.cons_ne_nil _ _⟩, trivial, trivial⟩ ?_
  have hpublish : UdpSession.apply C { t with packetCh := [s.dataPacket C 1 serverConfirm] }
      (.packetLoop ⟨true, fun _ => true⟩) = t.publishNext serverConfirm :=
    UdpSession.packetLoop_next s t rfl rfl rfl ⟨rfl, hid.2⟩ ⟨rfl, rfl⟩ (by decide)
      length_serverConfirm_udp
  simp only [List.foldl_cons, List.foldl_nil, hpublish]
  refine withUdp_dial .receive
    (.established v.serverNonce (.udp (t.publishNext serverConfirm)) .returned) []
    ⟨_, _, rfl, List.cons_ne_nil _ _⟩ (fun _ h => by cases h)
    (fun _ _ _ _ _ hev => by cases hev) ?_ rfl next
  · simp [Dial.phaseAfter, Session.received, UdpSession.publishNext, t,
      confirmingClient, UdpSession.afterCall, peeredSession, newUDPSession, Resequencer.fresh]

end Confirmations

/-- A confirmed session is indexed, replaces the older one of its address, and
is exposed. -/
theorem withUdp_exposed
    (hentries : ∀ id j, Finmap.lookup id W.server.sessions = some j → j < W.server.objects.length)
    (hid : o.sessionID = sessionID) (hconfirm : o.confirm = .confirmed) :
    (handshakeMachine C cfg).CanReach (Ideal C cfg)
      (W.withUdp cfg v sessionID remote phase o .idle sealed) fun W' =>
        W'.dials[W.dials.length]? = some ⟨.udp, v.nonce, phase⟩ ∧
        W'.server.objects[W.server.objects.length]? = some { o with confirm := .exposed } := by
  let k := W.server.objects.length
  let S := W.server.withSession sessionID remote o .idle
  have hob : S.objects[k]? = some o := UdpServer.withSession_object
  -- The session it replaces is an older object.
  have hold : S.replaced o ≠ some k := by
    intro hr
    simp only [UdpServer.replaced] at hr
    split at hr
    · rename_i hne
      change Finmap.lookup _ (W.server.sessions.insert sessionID k) = some k at hr
      rw [Table.lookup_insert_eq, if_neg (hid ▸ hne.2)] at hr
      exact lt_irrefl _ (hentries _ _ hr)
    · cases hr
  have he₁ : S.enabled (.confirmCommit k) := ⟨o, hob, hconfirm⟩
  let S₁ := S.apply C cfg (.confirmCommit k)
  have hob₁ : S₁.objects[k]? = some { o with confirm := .committed (S.replaced o) } := by
    rw [UdpServer.object_apply_of C cfg he₁ hob]
    have hentry : Finmap.lookup o.sessionID S.sessions = some k := by
      rw [hid]
      exact Finmap.lookup_insert _
    simp [UdpServer.objectAfter, UdpServer.closes, UdpServer.advance, UdpServer.commitState, hentry]
  have he₂ : S₁.enabled (.closeOld k) := ⟨_, _, hob₁, rfl⟩
  let S₂ := S₁.apply C cfg (.closeOld k)
  have hob₂ : S₂.objects[k]? = some { o with confirm := .exposing } := by
    rw [UdpServer.object_apply_of C cfg he₂ hob₁]
    simp [UdpServer.objectAfter, UdpServer.closes, UdpServer.advance, hob₁, hold]
  have he₃ : S₂.enabled (.expose k) := ⟨_, hob₂, rfl⟩
  refine .step (.server (.confirmCommit k)) he₁ ⟨trivial, trivial⟩ <|
    .step (.server (.closeOld k)) he₂ ⟨trivial, trivial⟩ <|
    .step (.server (.expose k)) he₃ ⟨trivial, trivial⟩ <|
    .here ⟨List.getElem?_concat_length .., ?_⟩
  change (S₂.apply C cfg (.expose k)).objects[k]? = _
  rw [UdpServer.object_apply_of C cfg he₃ hob₂]
  simp [UdpServer.objectAfter, UdpServer.closes, UdpServer.advance]

/-- The steps of the UDP server along a run. -/
theorem server_reachable (run : (handshakeMachine C cfg).Reachable W) :
    (serverMachine C cfg).Reachable W.server := by
  induction run with
  | start h =>
      obtain rfl := h
      exact .start rfl
  | @next W e _ he _ ih =>
      obtain hs | ⟨ev, rfl, hs⟩ := server_apply C cfg W e
      · change (serverMachine C cfg).Reachable (W.apply C cfg e).server
        rw [hs]
        exact ih
      · change (serverMachine C cfg).Reachable (W.apply C cfg (.server ev)).server
        rw [hs]
        exact ih.next he trivial

end World

/-- In every state that the two nodes reach in which the UDP server waits for a
datagram and has room, a dial over UDP whose datagrams are carried faithfully
returns a session, and the server exposes its other end. -/
theorem udp_handshake_completes (C : Crypto) (cfg : NodeConfig) (W : World) (v : Drawn)
    (sessionID : Nat) (remote : Bytes) (run : (handshakeMachine C cfg).Reachable W)
    (hv : v.Valid cfg) (hnonce : ∀ d ∈ W.dials, d.nonce ≠ v.nonce)
    (hfresh : W.NewServerNonce v.serverNonce) (hready : W.server.Ready)
    (hid : 0 < sessionID ∧ sessionID < 2 ^ 64) (hnew : sessionID ∉ W.server.sessions)
    (hquiet : ∀ o ∈ W.server.objects,
      o.session.PacketUnforged C W.sealed (messageBytes C cfg (v.hello cfg) []) ∧
      o.session.PacketUnforged C W.sealed (World.clientPacket C (v.keys C cfg) sessionID)) :
    (handshakeMachine C cfg).CanReach (World.Ideal C cfg) W fun W' =>
      W'.returned W.dials.length ∧ W'.exposed (.udp W.server.objects.length) ∧
      W'.serverEnd (.udp W.server.objects.length) = some (v.serverEnd cfg C .udp sessionID) ∧
      W'.clientEnd W.dials.length = some (v.serverEnd cfg C .udp sessionID).mirror := by
  have htables := (UdpServer.invariant_of_reachable (World.server_reachable run)).tables
  have hentries : ∀ id j, Finmap.lookup id W.server.sessions = some j →
      j < W.server.objects.length := by
    intro id j hl
    obtain ⟨o, ho, -⟩ := htables.entry id j hl
    exact (List.getElem?_eq_some_iff.mp ho).1
  refine World.withUdp_registered remote hv hnonce hfresh hready hid hnew
    (fun o ho => (hquiet o ho).1) (World.withUdp_answered hv hid ?_)
  refine World.withUdp_client_sends _ (World.withUdp_server_reads _ hid
    (fun o ho => (hquiet o ho).2) (World.withUdp_server_answers _
    (World.withUdp_client_returns _ hid ((World.withUdp_exposed hentries ?_ ?_).trans ?_))))
  · rfl
  · rfl
  rintro W' ⟨hdial, hobject⟩
  refine .here ⟨⟨_, _, _, hdial, rfl⟩, ⟨_, hobject, rfl⟩, ?_, ?_⟩
  · simp only [World.serverEnd, hobject]
    rfl
  · rw [World.clientEnd_of hdial]
    rfl

theorem udp_handshake_completes_first :
    (handshakeMachine Crypto.sum sampleServer).CanReach (World.Ideal Crypto.sum sampleServer)
      World.start fun W' => W'.returned 0 ∧ W'.exposed (.udp 0) := by
  obtain ⟨es, hes, hret, hexp, -⟩ := udp_handshake_completes Crypto.sum sampleServer World.start
    sampleDrawn 7 [1] (.start rfl) sampleDrawn_valid nofun (newServerNonce_start _)
    ⟨rfl, rfl, by decide⟩ (by decide) Finmap.notMem_empty nofun
  exact ⟨es, hes, hret, hexp⟩

end UnknownTunnel.Transport

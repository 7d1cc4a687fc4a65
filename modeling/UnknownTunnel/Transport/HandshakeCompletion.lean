import UnknownTunnel.Foundation.Progress
import UnknownTunnel.Transport.Carriers
import UnknownTunnel.Transport.HandshakeAgreement

/-!
# Handshakes that complete

In whatever state the two nodes are, a dial whose messages are carried
faithfully returns a session, and the server exposes the other end of it, if
the clocks differ by at most five minutes and the random values are fresh.

## Implementation notes

A state of such a run is the state before it with one dial and one end of the
server added, so each step is a statement about those two.
-/

namespace UnknownTunnel.Transport

open Foundation

/-- What the two nodes draw, and read from their clocks, in one handshake.
Timestamps are in seconds, clock readings in nanoseconds. -/
structure Drawn where
  nonce : Bytes
  greeted : Int
  accepted : Int
  serverNonce : Bytes
  answered : Int
  welcomed : Int

/-- The clock is within five minutes of a timestamp. -/
def Timely (now timestamp : Int) : Prop :=
  -maxClockSkew ≤ now - timestamp * 1000000000 ∧ now - timestamp * 1000000000 ≤ maxClockSkew

theorem validateHandshake_of_timely {now : Int} {h : Handshake} (ht : Timely now h.timestamp) :
    validateHandshake now h h.kind h.nodeID h.peerID = .ok () := by
  obtain ⟨hlow, hhigh⟩ := ht
  simp [validateHandshake, not_lt.mpr hlow, not_lt.mpr hhigh]

/-- The bytes of a message written for a nonce. -/
def messageBytes (C : Crypto) (cfg : NodeConfig) (h : Handshake) (bindNonce : Bytes) : Bytes :=
  handshakeBody h ++ C.hmac cfg.secret (macInput h bindNonce)

namespace Drawn

/-- The values are as the nodes draw them, and the clocks agree. -/
structure Valid (cfg : NodeConfig) (v : Drawn) : Prop where
  nodeID : 0 < cfg.nodeID.length ∧ cfg.nodeID.length ≤ 64
  peerID : 0 < cfg.peerID.length ∧ cfg.peerID.length ≤ 64
  nonces : v.nonce.length = 32 ∧ v.serverNonce.length = 32
  greeted : -2 ^ 63 ≤ v.greeted ∧ v.greeted < 2 ^ 63
  answered : -2 ^ 63 ≤ v.answered ∧ v.answered < 2 ^ 63
  timely : Timely v.accepted v.greeted ∧ Timely v.welcomed v.answered

variable (cfg : NodeConfig) (v : Drawn)

def hello : Handshake := helloFor cfg.peer v.nonce v.greeted

def welcome (sessionID : Nat) : Handshake := welcomeMessage cfg sessionID v.serverNonce v.answered

/-- The server's end of the session that the handshake leads to. -/
def serverEnd (C : Crypto) (carrier : Carrier) (sessionID : Nat) : SessionEnd :=
  ⟨carrier, sessionID, v.nonce, v.serverNonce, serverKeys C cfg carrier v.nonce v.serverNonce⟩

variable {cfg v} {C : Crypto}

theorem Valid.hello (h : v.Valid cfg) : (v.hello cfg).Valid :=
  ⟨Nat.two_pow_pos 64, h.greeted, h.nonces.1, h.peerID, h.nodeID⟩

theorem Valid.welcome (h : v.Valid cfg) {sessionID : Nat} (hid : sessionID < 2 ^ 64) :
    (v.welcome cfg sessionID).Valid :=
  ⟨hid, h.answered, h.nonces.2, h.nodeID, h.peerID⟩

/-- The server accepts the hello. -/
theorem Valid.acceptHello (h : v.Valid cfg) :
    UdpServer.acceptHello C cfg v.accepted (messageBytes C cfg (v.hello cfg) []) =
      some (v.hello cfg) := by
  have hvalid : validateHandshake v.accepted (v.hello cfg) handshakeHello cfg.peerID cfg.nodeID =
      .ok () := validateHandshake_of_timely h.timely.1
  simp only [UdpServer.acceptHello, messageBytes, decodeHandshake_encode C h.hello, hvalid]

/-- The client decodes the welcome and finds it valid. -/
theorem Valid.welcomed (h : v.Valid cfg) {sessionID : Nat} (hid : sessionID < 2 ^ 64) :
    decodeHandshake C (messageBytes C cfg (v.welcome cfg sessionID) v.nonce) v.nonce cfg.secret =
        .ok (v.welcome cfg sessionID) ∧
      validateHandshake v.welcomed (v.welcome cfg sessionID) handshakeWelcome cfg.nodeID
        cfg.peerID = .ok () :=
  ⟨decodeHandshake_encode C (h.welcome hid) v.nonce cfg.secret,
    validateHandshake_of_timely h.timely.2⟩

/-- The server can encode its welcome. -/
theorem Valid.welcomeFor (h : v.Valid cfg) {sessionID : Nat} (hid : sessionID < 2 ^ 64) :
    ∃ data, UdpServer.welcomeFor C cfg (v.hello cfg) sessionID v.serverNonce v.answered =
      .ok data :=
  ⟨_, encodeHandshake_eq_ok C (h.welcome hid) v.nonce cfg.secret⟩

end Drawn

theorem modify_last {α : Type*} (l : List α) (x : α) (f : α → α) :
    (l ++ [x]).modify l.length f = l ++ [f x] := by
  induction l with
  | nil => rfl
  | cons y l ih => simp [ih]

namespace World

variable {C : Crypto} {cfg : NodeConfig} {W : World} {v : Drawn} {P : World → Prop}

/-- A step of the newest dial. -/
theorem last_dial {dials : List Dial} {d : Dial} (hdials : W.dials = dials ++ [d]) (e : DialEvent)
    (d' : Dial) {new : List SealRecord} (he : d.enabled e)
    (hmac : ∀ data, e.handshake = some data → MacUnforged C cfg.secret W.maced data d.nonce)
    (hsession : ∀ nonce s c ev, d.phase = .established nonce s c → e.sessionEvent = some ev →
      s.Unforged C W.sealed ev)
    (hd' : d.apply C cfg.peer e = d') (hnew : (d.sealRecord e).toList = new)
    (next : (handshakeMachine C cfg).CanReach (Ideal C cfg)
      { W with dials := dials ++ [d'], sealed := W.sealed ++ new } P) :
    (handshakeMachine C cfg).CanReach (Ideal C cfg) W P := by
  have hd : W.dials[dials.length]? = some d := by
    rw [hdials]
    exact List.getElem?_concat_length ..
  refine .step_to (.dial dials.length e) ⟨d, hd, he⟩ ?_ ?_ next
  · refine ⟨trivial, fun p hp => ?_⟩
    obtain rfl := Option.some.inj (hd.symm.trans hp)
    exact ⟨hmac, hsession⟩
  · simp only [handshakeMachine, apply, hd, Option.bind_some, hnew]
    rw [hdials, modify_last, hd']

/-! ## Over TCP -/

/-- A world with one more dial and one more TCP end that has answered it. -/
def withTcp (W : World) (cfg : NodeConfig) (v : Drawn) (phase : DialPhase) (s : TcpSession)
    (state : AcceptState) (sealed : List SealRecord) : World :=
  { W with
    dials := W.dials ++ [⟨.tcp, v.nonce, phase⟩]
    accepts := W.accepts ++ [⟨v.nonce, v.serverNonce, s, state⟩]
    maced := W.maced ++ [macInput (v.hello cfg) [], macInput (v.welcome cfg 0) v.nonce]
    sealed := W.sealed ++ sealed }

section Tcp

variable {phase : DialPhase} {client server : TcpSession} {state : AcceptState}
  {c : ClientConfirm} {sealed : List SealRecord}

/-- A step of the added dial. -/
theorem withTcp_dial (e : DialEvent) (phase' : DialPhase) (new : List SealRecord)
    (he : Dial.enabled ⟨.tcp, v.nonce, phase⟩ e)
    (hmac : ∀ data, e.handshake = some data →
      MacUnforged C cfg.secret (W.withTcp cfg v phase server state sealed).maced data v.nonce)
    (hsession : ∀ nonce s c ev, phase = .established nonce s c → e.sessionEvent = some ev →
      s.Unforged C (W.sealed ++ sealed) ev)
    (hphase : Dial.phaseAfter C cfg.peer ⟨.tcp, v.nonce, phase⟩ e = phase')
    (hnew : (Dial.sealRecord ⟨.tcp, v.nonce, phase⟩ e).toList = new)
    (next : (handshakeMachine C cfg).CanReach (Ideal C cfg)
      (W.withTcp cfg v phase' server state (sealed ++ new)) P) :
    (handshakeMachine C cfg).CanReach (Ideal C cfg)
      (W.withTcp cfg v phase server state sealed) P := by
  refine last_dial rfl e ⟨.tcp, v.nonce, phase'⟩ he hmac hsession ?_ hnew ?_
  · rw [Dial.apply, hphase]
  · simpa only [withTcp, List.append_assoc] using next

/-- A step of the added end of the server. -/
theorem withTcp_accept (e : AcceptEvent) (server' : TcpSession) (state' : AcceptState)
    (new : List SealRecord)
    (he : Accept.enabled ⟨v.nonce, v.serverNonce, server, state⟩ e)
    (hforged : Accept.Unforged C (W.sealed ++ sealed) ⟨v.nonce, v.serverNonce, server, state⟩ e)
    (happly : Accept.apply C ⟨v.nonce, v.serverNonce, server, state⟩ e =
      ⟨v.nonce, v.serverNonce, server', state'⟩)
    (hnew : (Accept.sealRecord ⟨v.nonce, v.serverNonce, server, state⟩ e).toList = new)
    (next : (handshakeMachine C cfg).CanReach (Ideal C cfg)
      (W.withTcp cfg v phase server' state' (sealed ++ new)) P) :
    (handshakeMachine C cfg).CanReach (Ideal C cfg)
      (W.withTcp cfg v phase server state sealed) P := by
  have ha : (W.withTcp cfg v phase server state sealed).accepts[W.accepts.length]? =
      some ⟨v.nonce, v.serverNonce, server, state⟩ := List.getElem?_concat_length ..
  refine .step_to (.accept W.accepts.length e) ⟨_, ha, he⟩ ?_ ?_ next
  · refine ⟨trivial, fun a ha' => ?_⟩
    obtain rfl := Option.some.inj (ha.symm.trans ha')
    exact hforged
  · simp only [handshakeMachine, apply, ha, Option.bind_some, hnew]
    simp only [withTcp, modify_last, happly, List.append_assoc]

/-- The hello is accepted and the welcome is taken. -/
theorem withTcp_answered (hv : v.Valid cfg) (hnonce : ∀ d ∈ W.dials, d.nonce ≠ v.nonce)
    (hfresh : W.NewServerNonce v.serverNonce)
    (next : (handshakeMachine C cfg).CanReach (Ideal C cfg)
      (W.withTcp cfg v
        (.established v.serverNonce (.tcp (clientStart C cfg v.nonce v.serverNonce)) .unstarted)
        (serverStart C cfg v.nonce v.serverNonce) .waiting []) P) :
    (handshakeMachine C cfg).CanReach (Ideal C cfg) W P := by
  have hid : 0 < 2 ^ 64 := Nat.two_pow_pos 64
  refine .step (.newDial .tcp v.nonce v.greeted) hv.hello ⟨hnonce, trivial⟩ ?_
  obtain ⟨data, hdata⟩ := hv.welcomeFor (C := C) hid
  have hrequest : acceptRequest C cfg v.accepted (messageBlob C cfg (v.hello cfg) []) =
      some (v.hello cfg) := by
    rw [acceptRequest, readBlob_message hv.hello, Option.bind_some]
    exact hv.acceptHello
  refine .step_to (t := W.withTcp cfg v (.greeting 0 Handshake.zero)
      (serverStart C cfg v.nonce v.serverNonce) .waiting [])
    (.newAccept v.accepted (messageBlob C cfg (v.hello cfg) []) v.serverNonce v.answered true)
    hv.answered ?_ ?_ ?_
  · exact ⟨fun _ _ => hfresh, trivial⟩
  · simp only [handshakeMachine, apply, hrequest, hdata, withTcp, List.append_assoc,
      List.append_nil]
    rfl
  · have hblob : readBlob (messageBlob C cfg (v.welcome cfg 0) v.nonce) 512 = _ :=
      readBlob_message (hv.welcome hid) v.nonce
    refine withTcp_dial (.response v.welcomed (messageBlob C cfg (v.welcome cfg 0) v.nonce)) _ _
      ⟨rfl, 0, _, rfl⟩ ?_ ?_ ?_ rfl next
    · intro bytes hbytes
      rw [DialEvent.handshake, hblob] at hbytes
      obtain rfl := Option.some.inj hbytes
      exact macUnforged_message (hv.welcome hid) (by simp [withTcp])
    · rintro _ _ _ _ - hev
      cases hev
    · obtain ⟨hdecode, hvalid⟩ := hv.welcomed (C := C) hid
      rw [messageBytes] at hdecode
      simp only [Dial.phaseAfter, Dial.response, hblob, NodeConfig.peer, hdecode, hvalid]
      rfl

/-- Both ends confirm the keys of a fresh pair of sessions. -/
theorem withTcp_confirmed (pair : FreshPair client server)
    (next : (handshakeMachine C cfg).CanReach (Ideal C cfg)
      (W.withTcp cfg v
        (.established v.serverNonce (.tcp (readOne (sentOne client) serverConfirm)) .returned)
        (sentOne (readOne server clientConfirm)) .exposed
        [firstRecord client.sendKey clientConfirm, firstRecord server.sendKey serverConfirm]) P) :
    (handshakeMachine C cfg).CanReach (Ideal C cfg)
      (W.withTcp cfg v (.established v.serverNonce (.tcp client) .unstarted) server .waiting [])
      P := by
  obtain ⟨hsend, hsend', hrecv, hrecv'⟩ := pair.counters
  -- The client sends its confirmation.
  refine withTcp_dial (.confirm (.tcp (.send clientConfirm none)))
    (.established v.serverNonce (.tcp (sentOne client)) .waiting)
    [firstRecord client.sendKey clientConfirm] ?_ (fun _ h => by cases h) ?_ ?_ ?_ ?_
  · exact ⟨_, _, rfl, ⟨length_clientConfirm, by rw [hsend]; simp⟩, rfl⟩
  · rintro _ _ _ _ hp hev
    cases hp
    cases hev
    trivial
  · simp [Dial.phaseAfter, Session.apply, TcpSession.apply, confirmStart, sentOne, hsend,
      pair.running]
  · simp [Dial.sealRecord, DialEvent.sessionEvent, Session.sealRecord, TcpSession.sealRecord,
      firstRecord, hsend]
  -- The server reads it.
  refine withTcp_accept (.session (.frame (client.frameHeader C 1 clientConfirm)
    (client.frameCiphertext C 1 clientConfirm) true)) (readOne server clientConfirm) .waiting []
    ?_ ?_ ?_ rfl ?_
  · exact ⟨TcpSession.frame_enabled pair.reading.2 (by rw [hrecv']; simp)
      length_clientConfirm, fun h => by cases h⟩
  · exact TcpSession.frameUnforged_frame pair.toServer (by simp) (by simp [firstRecord])
  · simp [Accept.apply, apply_first_frame pair.toServer hrecv' pair.unread.2 length_clientConfirm]
  -- The server answers, and its session is exposed.
  refine withTcp_accept (.receive (.send serverConfirm none))
    (sentOne (readOne server clientConfirm)) .exposed
    [firstRecord server.sendKey serverConfirm] ?_ trivial ?_ ?_ ?_
  · exact ⟨rfl, (fun h => by cases h), ⟨length_serverConfirm, by simp [readOne, hsend']⟩, rfl⟩
  · simp [Accept.apply, Accept.Confirmed, TcpSession.apply, answerAfter, sentOne, readOne, hsend',
      pair.running]
  · simp [Accept.sealRecord, Accept.Confirmed, TcpSession.sealRecord, firstRecord, readOne, hsend']
  -- The client reads the answer and returns.
  refine withTcp_dial (.session (.tcp (.frame (server.frameHeader C 1 serverConfirm)
    (server.frameCiphertext C 1 serverConfirm) true)))
    (.established v.serverNonce (.tcp (readOne (sentOne client) serverConfirm)) .waiting) [] ?_
    (fun _ h => by cases h) ?_ ?_ rfl ?_
  · exact ⟨_, _, _, rfl, TcpSession.frame_enabled pair.reading.1 (by simp [sentOne, hrecv])
      length_serverConfirm, trivial⟩
  · rintro _ _ _ _ hp hev
    cases hp
    cases hev
    exact TcpSession.frameUnforged_frame pair.toClient (by simp) (by simp [firstRecord])
  · have happly := apply_first_frame (C := C) (s := sentOne client) pair.toClient hrecv
      pair.unread.1 length_serverConfirm
    simp [Dial.phaseAfter, Session.apply, happly, clientConfirmAfter]
  refine withTcp_dial .receive _ [] ⟨_, _, rfl, fun h => by cases h⟩ (fun _ h => by cases h)
    (fun _ _ _ _ _ hev => by cases hev) ?_ rfl next
  simp [Dial.phaseAfter, Session.received, readOne]

end Tcp

end World

/-- In every state of the two nodes, a dial over TCP whose messages are carried
faithfully returns a session, and the server exposes its other end. -/
theorem tcp_handshake_completes (C : Crypto) (cfg : NodeConfig) (W : World) (v : Drawn)
    (hv : v.Valid cfg) (hnonce : ∀ d ∈ W.dials, d.nonce ≠ v.nonce)
    (hfresh : W.NewServerNonce v.serverNonce) :
    (handshakeMachine C cfg).CanReach (World.Ideal C cfg) W fun W' =>
      W'.returned W.dials.length ∧ W'.exposed (.tcp W.accepts.length) ∧
      W'.serverEnd (.tcp W.accepts.length) = some (v.serverEnd cfg C .tcp 0) ∧
      W'.clientEnd W.dials.length = some (v.serverEnd cfg C .tcp 0).mirror := by
  have pair : World.FreshPair (World.clientStart C cfg v.nonce v.serverNonce)
      (World.serverStart C cfg v.nonce v.serverNonce) := World.freshPair_start
  refine World.withTcp_answered hv hnonce hfresh (World.withTcp_confirmed pair (.here ?_))
  refine ⟨⟨_, _, _, List.getElem?_concat_length .., rfl⟩,
    ⟨_, List.getElem?_concat_length .., rfl⟩, ?_, ?_⟩
  · simp only [World.serverEnd, World.withTcp, List.getElem?_concat_length]
    rfl
  · rw [World.clientEnd_of (List.getElem?_concat_length ..)]
    rfl

/-- The values of a handshake between the sample nodes. -/
def sampleDrawn : Drawn where
  nonce := List.replicate 32 1
  greeted := 1700000000
  accepted := 1700000001000000000
  serverNonce := List.replicate 32 2
  answered := 1700000100
  welcomed := 1699999950000000000

theorem sampleDrawn_valid : sampleDrawn.Valid sampleServer :=
  ⟨by decide, by decide, by decide, by decide, by decide, by unfold Timely; decide⟩

theorem newServerNonce_start (serverNonce : Bytes) :
    World.start.NewServerNonce serverNonce := by
  intro r v hr
  cases r <;> simp [World.serverEnd, World.start, UdpServer.start] at hr

theorem tcp_handshake_completes_first :
    (handshakeMachine Crypto.sum sampleServer).CanReach (World.Ideal Crypto.sum sampleServer)
      World.start fun W' => W'.returned 0 ∧ W'.exposed (.tcp 0) := by
  obtain ⟨es, hes, hret, hexp, -⟩ := tcp_handshake_completes Crypto.sum sampleServer World.start
    sampleDrawn sampleDrawn_valid nofun (newServerNonce_start _)
  exact ⟨es, hes, hret, hexp⟩

end UnknownTunnel.Transport

import UnknownTunnel.Transport.Session
import UnknownTunnel.Transport.UdpServer

/-!
# The two ends of a handshake outside the UDP server

The client side of a handshake on either carrier, from the hello to the key
confirmation, and the server side of a handshake over TCP.

## Implementation notes

`dialUDPSession` keeps one variable for the welcome across its attempts, and
so does the model: a datagram that does not decode resets it, one that decodes
but is not valid stays in it. Steps that seal go through the session, so that
every call of `Seal` is seen.
-/

namespace UnknownTunnel.Transport

open Foundation

/-! ## The client -/

/-- How often a hello is sent before a UDP dial gives up. -/
def udpDialAttempts : Nat := 10

/-- The zero value of a message. -/
def Handshake.zero : Handshake := ⟨0, 0, 0, [], [], []⟩

/-- The hello of a dial. -/
def helloFor (cfg : NodeConfig) (nonce : Bytes) (timestamp : Int) : Handshake where
  kind := handshakeHello
  sessionID := 0
  timestamp := timestamp
  nonce := nonce
  nodeID := cfg.nodeID
  peerID := cfg.peerID

/-- What `conn.Read` returns in one attempt. -/
inductive AttemptOutcome
  | timeout
  | failed
  | datagram (now : Int) (data : Bytes)

/-- How one attempt ends; the variable `welcome` is kept for the next one. -/
inductive AttemptResult
  | retry (welcome : Handshake)
  | accepted (welcome : Handshake)
  | failed
  deriving DecidableEq

def dialAttempt (C : Crypto) (cfg : NodeConfig) (nonce : Bytes) (welcome : Handshake) :
    AttemptOutcome → AttemptResult
  | .timeout => .retry welcome
  | .failed => .failed
  | .datagram now data =>
      match decodeHandshake C data nonce cfg.secret with
      | .error _ => .retry Handshake.zero
      | .ok w =>
          match validateHandshake now w handshakeWelcome cfg.peerID cfg.nodeID with
          | .error _ => .retry w
          | .ok _ => if w.sessionID = 0 then .retry w else .accepted w

/-- The position in `confirmSessionClient`. -/
inductive ClientConfirm
  | unstarted
  | sending
  | waiting
  | returned
  | failing
  | failed
  deriving DecidableEq

/-- How far a dial has come. -/
inductive DialPhase
  /-- Waiting for a welcome, with the number of attempts made. -/
  | greeting (attempt : Nat) (welcome : Handshake)
  /-- The keys are derived and the session exists. -/
  | established (serverNonce : Bytes) (session : Session) (confirm : ClientConfirm)
  | failed

/-- A dial of the client, with the nonce of its hello. -/
structure Dial where
  carrier : Carrier
  nonce : Bytes
  phase : DialPhase

/-- The steps of a dial, of its confirmation and of the session it has made. -/
inductive DialEvent
  | fail
  | attempt (outcome : AttemptOutcome)
  | response (now : Int) (stream : Bytes)
  /-- The first step of `Send(clientConfirm)`. -/
  | confirm (e : SessionEvent)
  /-- `Send(clientConfirm)` on a session that has finished. -/
  | confirmClosed
  | session (e : SessionEvent)
  | receive
  | timeout
  | close

/-- The handshake message a step takes from the network. -/
def DialEvent.handshake : DialEvent → Option Bytes
  | .attempt (.datagram _ data) => some data
  | .response _ stream => (readBlob stream 512).map Prod.fst
  | _ => none

/-- The step of the session that is part of a step of the dial. -/
def DialEvent.sessionEvent : DialEvent → Option SessionEvent
  | .confirm e => some e
  | .session e => some e
  | _ => none

/-- Where the first step of `Send(clientConfirm)` leads. -/
def confirmStart : SessionEvent → Option ClientConfirm
  | .tcp (.send payload failAt) =>
      if payload = clientConfirm then some (if failAt.isSome then .failing else .waiting) else none
  | .tcp .sendDeadline => some .failing
  | .udp (.sendCheck payload) => if payload = clientConfirm then some .sending else none
  | _ => none

/-- How the end of the `Send` call moves the dial on. -/
def clientConfirmAfter : ClientConfirm → SessionEvent → ClientConfirm
  | .sending, .udp (.sendWrite _ _ true) => .waiting
  | .sending, .udp (.sendRefuse _) => .failing
  | .sending, .udp (.sendRelease _) => .failing
  | c, _ => c

/-- Only a returned session has users. The reader of a UDP dial may finish
its session at any time. -/
def ClientConfirm.MayStep (c : ClientConfirm) : SessionEvent → Prop
  | .tcp (.send _ _) | .tcp .sendDeadline | .tcp .close | .udp (.sendCheck _) => c = .returned
  | _ => True

namespace Dial

variable (C : Crypto) (cfg : NodeConfig)

def start (carrier : Carrier) (nonce : Bytes) : Dial := ⟨carrier, nonce, .greeting 0 Handshake.zero⟩

/-- The session made from the keys a welcome leads to. -/
def newSession (d : Dial) (welcome : Handshake) : Session :=
  let keys := C.deriveKeys cfg.secret d.nonce welcome.nonce cfg.nodeID cfg.peerID
  match d.carrier with
  | .tcp => .tcp (newTCPSession keys.clientSend keys.serverSend)
  | .udp => .udp (newUDPSession welcome.sessionID keys.clientSend keys.serverSend keys.clientAck
      keys.serverAck)

/-- The session is made, and its confirmation is still to be sent. -/
def establish (d : Dial) (welcome : Handshake) : DialPhase :=
  .established welcome.nonce (d.newSession C cfg welcome) .unstarted

/-- `dialUDPSession` after its loop. -/
def afterLoop (d : Dial) (welcome : Handshake) : DialPhase :=
  if welcome.sessionID = 0 then .failed else d.establish C cfg welcome

/-- One round of the loop of `dialUDPSession`. -/
def attempt (d : Dial) (n : Nat) (welcome : Handshake) (outcome : AttemptOutcome) : DialPhase :=
  match dialAttempt C cfg d.nonce welcome outcome with
  | .failed => .failed
  | .accepted w => d.afterLoop C cfg w
  | .retry w => if n + 1 < udpDialAttempts then .greeting (n + 1) w else d.afterLoop C cfg w

/-- `dialTCPSession` from the response on. -/
def response (d : Dial) (now : Int) (stream : Bytes) : DialPhase :=
  match readBlob stream 512 with
  | none => .failed
  | some (response, _) =>
      match decodeHandshake C response d.nonce cfg.secret with
      | .error _ => .failed
      | .ok welcome =>
          match validateHandshake now welcome handshakeWelcome cfg.peerID cfg.nodeID with
          | .error _ => .failed
          | .ok _ => d.establish C cfg welcome

/-- The phase after a step. -/
def phaseAfter (d : Dial) (e : DialEvent) : DialPhase :=
  match d.phase, e with
  | .greeting _ _, .fail => .failed
  | .greeting n welcome, .attempt outcome => d.attempt C cfg n welcome outcome
  | .greeting _ _, .response now stream => d.response C cfg now stream
  | .established nonce s _, .confirm e =>
      .established nonce (s.apply C e) ((confirmStart e).getD .failing)
  | .established nonce s _, .confirmClosed => .established nonce s .failing
  | .established nonce s c, .session e =>
      .established nonce (s.apply C e) (clientConfirmAfter c e)
  | .established nonce s _, .receive =>
      .established nonce s
        (if s.received.head? = some serverConfirm then .returned else .failing)
  | .established nonce s _, .timeout => .established nonce s .failing
  | .established nonce s _, .close => .established nonce s.close .failed
  | phase, _ => phase

def apply (d : Dial) (e : DialEvent) : Dial := { d with phase := d.phaseAfter C cfg e }

/-- When a step can be taken. -/
def enabled (d : Dial) : DialEvent → Prop
  | .fail => ∃ n w, d.phase = .greeting n w
  | .attempt _ => d.carrier = .udp ∧ ∃ n w, d.phase = .greeting n w
  | .response _ _ => d.carrier = .tcp ∧ ∃ n w, d.phase = .greeting n w
  | .confirm e => ∃ nonce s, d.phase = .established nonce s .unstarted ∧ s.enabled e ∧
      (confirmStart e).isSome
  | .confirmClosed => ∃ nonce s, d.phase = .established nonce s .unstarted ∧ s.closed = true
  | .session e => ∃ nonce s c, d.phase = .established nonce s c ∧ s.enabled e ∧ c.MayStep e
  | .receive => ∃ nonce s, d.phase = .established nonce s .waiting ∧ s.received ≠ []
  | .timeout => ∃ nonce s, d.phase = .established nonce s .waiting
  | .close => ∃ nonce s, d.phase = .established nonce s .failing

/-- The `Seal` call a step makes. -/
def sealRecord (d : Dial) (e : DialEvent) : Option SealRecord :=
  match d.phase, e.sessionEvent with
  | .established _ s _, some e => s.sealRecord e
  | _, _ => none

/-- A message taken from the network decodes to a welcome for this dial. -/
def Decodes (d : Dial) (e : DialEvent) (welcome : Handshake) : Prop :=
  ∃ data, e.handshake = some data ∧ decodeHandshake C data d.nonce cfg.secret = .ok welcome

/-- Everything a step can do to a dial. -/
inductive Move (d : Dial) (e : DialEvent) : DialPhase → Prop
  | failed (n : Nat) (w : Handshake) (h : d.phase = .greeting n w) : Move d e .failed
  | retried (n : Nat) (w w' : Handshake) (h : d.phase = .greeting n w)
      (hw : w' = w ∨ w' = Handshake.zero ∨ d.Decodes C cfg e w') :
      Move d e (.greeting (n + 1) w')
  | kept (n : Nat) (w : Handshake) (h : d.phase = .greeting n w) (hid : w.sessionID ≠ 0) :
      Move d e (d.establish C cfg w)
  | welcomed (n : Nat) (w w' : Handshake) (h : d.phase = .greeting n w)
      (hw : d.Decodes C cfg e w') : Move d e (d.establish C cfg w')
  | moved (nonce : Bytes) (s : Session) (c c' : ClientConfirm)
      (h : d.phase = .established nonce s c) (hr : c' = .returned → s.received ≠ []) :
      Move d e (.established nonce s c')
  | stepped (nonce : Bytes) (s : Session) (c c' : ClientConfirm) (ev : SessionEvent)
      (h : d.phase = .established nonce s c) (hev : e.sessionEvent = some ev)
      (he : s.enabled ev) (hr : c' = .returned → c = .returned) :
      Move d e (.established nonce (s.apply C ev) c')
  | closed (nonce : Bytes) (s : Session) (c : ClientConfirm)
      (h : d.phase = .established nonce s c) : Move d e (.established nonce s.close .failed)

variable {C cfg} {d : Dial} {e : DialEvent}

theorem afterLoop_move {w : Handshake} {P : DialPhase → Prop} (hfail : P .failed)
    (hest : w.sessionID ≠ 0 → P (d.establish C cfg w)) : P (d.afterLoop C cfg w) := by
  rw [afterLoop]
  split
  · exact hfail
  · rename_i h
    exact hest h

/-- One attempt gives up, goes on with what it has, forgets it, or takes what
it decodes. -/
theorem dialAttempt_cases (C : Crypto) (cfg : NodeConfig) (nonce : Bytes) (w : Handshake)
    (outcome : AttemptOutcome) :
    dialAttempt C cfg nonce w outcome = .failed ∨
    dialAttempt C cfg nonce w outcome = .retry w ∨
    dialAttempt C cfg nonce w outcome = .retry Handshake.zero ∨
    ∃ now data w', outcome = .datagram now data ∧
      decodeHandshake C data nonce cfg.secret = .ok w' ∧
      (dialAttempt C cfg nonce w outcome = .retry w' ∨
        dialAttempt C cfg nonce w outcome = .accepted w') := by
  cases outcome with
  | timeout => exact Or.inr (Or.inl rfl)
  | failed => exact Or.inl rfl
  | datagram now data =>
      simp only [dialAttempt]
      cases hd : decodeHandshake C data nonce cfg.secret with
      | error err => exact Or.inr (Or.inr (Or.inl rfl))
      | ok w' =>
          refine Or.inr (Or.inr (Or.inr ⟨now, data, w', rfl, hd, ?_⟩))
          dsimp only
          split
          · exact Or.inl rfl
          · split
            · exact Or.inl rfl
            · exact Or.inr rfl

theorem attempt_move {n : Nat} {w : Handshake} {outcome : AttemptOutcome}
    (h : d.phase = .greeting n w) :
    Move C cfg d (.attempt outcome) (d.attempt C cfg n w outcome) := by
  rw [attempt]
  rcases dialAttempt_cases C cfg d.nonce w outcome with hr | hr | hr | ⟨now, data, w', rfl, hd, hr⟩
  · rw [hr]
    exact .failed n w h
  · rw [hr]
    dsimp only
    split
    · exact .retried n w w h (Or.inl rfl)
    · exact afterLoop_move (.failed n w h) (.kept n w h)
  · rw [hr]
    dsimp only
    split
    · exact .retried n w _ h (Or.inr (Or.inl rfl))
    · exact afterLoop_move (.failed n w h) fun hne => absurd rfl hne
  · have hdec : d.Decodes C cfg (.attempt (.datagram now data)) w' := ⟨data, rfl, hd⟩
    rcases hr with hr | hr
    · rw [hr]
      dsimp only
      split
      · exact .retried n w w' h (Or.inr (Or.inr hdec))
      · exact afterLoop_move (.failed n w h) fun _ => .welcomed n w w' h hdec
    · rw [hr]
      exact afterLoop_move (.failed n w h) fun _ => .welcomed n w w' h hdec

theorem response_move {n : Nat} {w : Handshake} (h : d.phase = .greeting n w) (now : Int)
    (stream : Bytes) :
    Move C cfg d (.response now stream) (d.response C cfg now stream) := by
  rw [response]
  cases hb : readBlob stream 512 with
  | none => exact .failed n w h
  | some blob =>
      obtain ⟨data, rest⟩ := blob
      dsimp only
      cases hd : decodeHandshake C data d.nonce cfg.secret with
      | error err => exact .failed n w h
      | ok w' =>
          dsimp only
          split
          · exact .failed n w h
          · refine .welcomed n w w' h ⟨data, ?_, hd⟩
            simp only [DialEvent.handshake, hb, Option.map_some]

theorem confirmStart_ne_returned (e : SessionEvent) :
    (confirmStart e).getD .failing ≠ .returned := by
  rw [confirmStart.eq_def]
  split
  · split
    · split <;> exact nofun
    · exact nofun
  · exact nofun
  · split <;> exact nofun
  · exact nofun

theorem clientConfirmAfter_returned {c : ClientConfirm} {e : SessionEvent}
    (h : clientConfirmAfter c e = .returned) : c = .returned := by
  rw [clientConfirmAfter.eq_def] at h
  split at h
  · cases h
  · cases h
  · cases h
  · exact h

theorem apply_move (C : Crypto) (cfg : NodeConfig) (he : d.enabled e) :
    Move C cfg d e (d.apply C cfg e).phase := by
  change Move C cfg d e (d.phaseAfter C cfg e)
  cases e with
  | fail =>
      obtain ⟨n, w, h⟩ := he
      simp only [phaseAfter, h]
      exact .failed n w h
  | attempt outcome =>
      obtain ⟨-, n, w, h⟩ := he
      simp only [phaseAfter, h]
      exact attempt_move h
  | response now stream =>
      obtain ⟨-, n, w, h⟩ := he
      simp only [phaseAfter, h]
      exact response_move h now stream
  | confirm ev =>
      obtain ⟨nonce, s, h, hen, -⟩ := he
      simp only [phaseAfter, h]
      exact .stepped nonce s _ _ ev h rfl hen fun hr => absurd hr (confirmStart_ne_returned ev)
  | confirmClosed =>
      obtain ⟨nonce, s, h, -⟩ := he
      simp only [phaseAfter, h]
      exact .moved nonce s _ _ h nofun
  | session ev =>
      obtain ⟨nonce, s, c, h, hen, -⟩ := he
      simp only [phaseAfter, h]
      exact .stepped nonce s c _ ev h rfl hen clientConfirmAfter_returned
  | receive =>
      obtain ⟨nonce, s, h, hr⟩ := he
      simp only [phaseAfter, h]
      exact .moved nonce s _ _ h fun _ => hr
  | timeout =>
      obtain ⟨nonce, s, h⟩ := he
      simp only [phaseAfter, h]
      exact .moved nonce s _ _ h nofun
  | close =>
      obtain ⟨nonce, s, h⟩ := he
      simp only [phaseAfter, h]
      exact .closed nonce s _ h

end Dial

/-! ## The server over TCP -/

/-- The position in `acceptTCPSession` once a welcome has been sealed. -/
inductive AcceptState
  /-- The welcome could not be written; no session is made. -/
  | unwritten
  | waiting
  | exposed
  | failing
  | failed
  deriving DecidableEq

/-- A connection at the server whose welcome has been written, or has failed to be. -/
structure Accept where
  clientNonce : Bytes
  serverNonce : Bytes
  session : TcpSession
  state : AcceptState

/-- The steps of the confirmation at the server, and of the session. -/
inductive AcceptEvent
  | session (e : TcpEvent)
  /-- The select takes a payload; the step of the session is the answering
  `Send(serverConfirm)`, made only if the payload is the client's confirmation. -/
  | receive (e : TcpEvent)
  | timeout
  | close

/-- The hello at the front of a connection, if it is acceptable. -/
def acceptRequest (C : Crypto) (cfg : NodeConfig) (now : Int) (stream : Bytes) :
    Option Handshake :=
  (readBlob stream 512).bind fun r => UdpServer.acceptHello C cfg now r.1

/-- Where the answering `Send(serverConfirm)` leads. -/
def answerAfter : TcpEvent → Option AcceptState
  | .send payload failAt =>
      if payload = serverConfirm then some (if failAt.isSome then .failing else .exposed) else none
  | .sendDeadline => some .failing
  | _ => none

/-- Only an exposed session has users. -/
def AcceptState.MayStep (a : AcceptState) : TcpEvent → Prop
  | .send _ _ | .sendDeadline | .close => a = .exposed
  | _ => a ≠ .unwritten

namespace Accept

variable (C : Crypto) (cfg : NodeConfig)

def start (hello : Handshake) (serverNonce : Bytes) (written : Bool) : Accept :=
  let keys := C.deriveKeys cfg.secret hello.nonce serverNonce cfg.peerID cfg.nodeID
  { clientNonce := hello.nonce
    serverNonce := serverNonce
    session := newTCPSession keys.serverSend keys.clientSend
    state := if written then .waiting else .unwritten }

/-- The first payload is the client's confirmation. -/
def Confirmed (a : Accept) : Prop := a.session.received.head? = some clientConfirm

instance (a : Accept) : Decidable a.Confirmed :=
  inferInstanceAs (Decidable (_ = _))

def apply (a : Accept) : AcceptEvent → Accept
  | .session e => { a with session := a.session.apply C e }
  | .receive e =>
      if a.Confirmed then
        { a with session := a.session.apply C e, state := (answerAfter e).getD .failing }
      else { a with state := .failing }
  | .timeout => { a with state := .failing }
  | .close => { a with session := { a.session with closed := true }, state := .failed }

def enabled (a : Accept) : AcceptEvent → Prop
  | .session e => a.session.enabled e ∧ a.state.MayStep e
  | .receive e => a.state = .waiting ∧ a.session.received ≠ [] ∧ a.session.enabled e ∧
      (answerAfter e).isSome
  | .timeout => a.state = .waiting
  | .close => a.state = .failing

/-- The `Seal` call a step makes. -/
def sealRecord (a : Accept) : AcceptEvent → Option SealRecord
  | .session e => a.session.sealRecord e
  | .receive e => if a.Confirmed then a.session.sealRecord e else none
  | _ => none

/-- The frame a step takes from the network is not forged. -/
def Unforged (sealed : List SealRecord) (a : Accept) : AcceptEvent → Prop
  | .session (.frame header ciphertext _) => a.session.FrameUnforged C sealed header ciphertext
  | _ => True

/-- What identifies the server end of a TCP handshake. -/
def origin (a : Accept) : Bytes × Bytes × Bytes × Bytes :=
  (a.clientNonce, a.serverNonce, a.session.sendKey, a.session.recvKey)

/-- A session was made for this end. -/
def created (a : Accept) : Bool := decide (a.state ≠ .unwritten)

variable {C cfg} {a : Accept} {e : AcceptEvent} {sealed : List SealRecord}

theorem origin_apply (C : Crypto) (a : Accept) (e : AcceptEvent) :
    (a.apply C e).origin = a.origin := by
  have hkeys : ∀ ev, (a.session.apply C ev).sendKey = a.session.sendKey ∧
      (a.session.apply C ev).recvKey = a.session.recvKey := fun ev =>
    let h := TcpSession.apply_cases C a.session ev
    ⟨h.1, h.2.1⟩
  cases e with
  | session ev => simp only [origin, apply, hkeys ev]
  | receive ev =>
      simp only [apply]
      split
      · simp only [origin, hkeys ev]
      · rfl
  | timeout => rfl
  | close => rfl

/-- The answer ends the wait in one of two ways. -/
theorem answerAfter_getD (e : TcpEvent) :
    (answerAfter e).getD .failing = .exposed ∨ (answerAfter e).getD .failing = .failing := by
  rw [answerAfter.eq_def]
  split
  · split
    · split
      · exact Or.inr rfl
      · exact Or.inl rfl
    · exact Or.inr rfl
  · exact Or.inr rfl
  · exact Or.inr rfl

theorem created_apply (he : a.enabled e) : (a.apply C e).created = a.created := by
  cases e with
  | session ev => rfl
  | receive ev =>
      have hbefore : a.created = true := by
        rw [created, he.1]
        rfl
      rw [hbefore]
      simp only [apply]
      split
      · rcases answerAfter_getD ev with h | h <;> simp only [created, h] <;> rfl
      · rfl
  | timeout =>
      rw [created, created, he]
      rfl
  | close =>
      rw [created, created, he]
      rfl

/-- Only an end with a session seals. -/
theorem sealRecord_eq_some (he : a.enabled e) {r : SealRecord} (h : a.sealRecord e = some r) :
    a.created = true ∧ r.key = a.session.sendKey ∧ r.aad.length = Carrier.aadLen .tcp := by
  have hkey : ∀ ev, a.session.sealRecord ev = some r →
      r.key = a.session.sendKey ∧ r.aad.length = Carrier.aadLen .tcp := fun ev hr =>
    Session.sealRecord_eq_some (s := .tcp a.session) (e := .tcp ev) hr
  cases e with
  | session ev =>
      refine ⟨?_, hkey ev h⟩
      obtain ⟨-, hmay⟩ := he
      cases ev with
      | send payload failAt =>
          rw [created, show a.state = .exposed from hmay]
          rfl
      | _ => cases h
  | receive ev =>
      simp only [sealRecord] at h
      split at h
      · refine ⟨?_, hkey ev h⟩
        rw [created, he.1]
        rfl
      · cases h
  | timeout => cases h
  | close => cases h

theorem vouched_apply (h : a.session.Vouched sealed) (he : a.enabled e)
    (hf : a.Unforged C sealed e) : (a.apply C e).session.Vouched sealed := by
  cases e with
  | session ev =>
      refine TcpSession.Vouched.apply h ?_
      rintro header ciphertext queued rfl
      exact hf
  | receive ev =>
      simp only [apply]
      split
      · refine TcpSession.Vouched.apply h ?_
        rintro header ciphertext queued rfl
        cases he.2.2.2
      · exact h
  | timeout => exact h
  | close => exact h

/-- An end is exposed only after it has received a payload. -/
theorem exposed_apply (he : a.enabled e) (h : (a.apply C e).state = .exposed) :
    a.state = .exposed ∨ a.session.received ≠ [] := by
  cases e with
  | session ev => exact Or.inl h
  | receive ev => exact Or.inr he.2.1
  | timeout => cases h
  | close => cases h

end Accept

end UnknownTunnel.Transport

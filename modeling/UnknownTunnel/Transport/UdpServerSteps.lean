import UnknownTunnel.Transport.UdpServer

/-!
# The steps of the UDP server

What one step can do to a session object, to the tables and to the read loop.
Every invariant of the server is proved from these lists of cases.
-/

namespace UnknownTunnel.Transport

open Foundation

/-- The client's confirmation has been received. -/
def ConfirmState.received : ConfirmState → Bool
  | .sending | .confirmed | .committed _ | .exposing | .exposed | .dropped => true
  | _ => false

/-- The key confirmation has succeeded. -/
def ConfirmState.isConfirmed : ConfirmState → Bool
  | .confirmed | .committed _ | .exposing | .exposed | .dropped => true
  | _ => false

/-- The critical section of the confirmation is done. -/
def ConfirmState.indexed : ConfirmState → Bool
  | .committed _ | .exposing | .exposed => true
  | _ => false

namespace UdpSession

/-- Nothing has been delivered to the session or sent through it. -/
structure Idle (s : UdpSession) : Prop where
  packetCh : s.packetCh = []
  pending : s.pending = ∅
  sends : s.sends = []

theorem retransmitScan_empty (due : List Nat) :
    retransmitScan due (∅ : Table Nat PendingDatagram) = (∅, [], false) := by
  induction due with
  | nil => rfl
  | cons seq due ih => simpa [retransmitScan] using ih

/-- The goroutines of an idle session do nothing. -/
theorem Idle.apply {C : Crypto} {s : UdpSession} {e : UdpEvent} (h : s.Idle)
    (he : s.enabled e) (hd : ∀ packet, e ≠ .deliver packet)
    (hs : ∀ payload, e ≠ .sendCheck payload) (hc : e ≠ .close) :
    (s.apply C e).Idle ∧ (s.apply C e).closed = s.closed := by
  obtain ⟨hq, hp, hn⟩ := h
  cases e with
  | sendCheck payload => exact absurd rfl (hs payload)
  | sendRefuse payload => simp [enabled, hn] at he
  | sendAcquire payload => simp [enabled, hn] at he
  | sendSeal payload => simp [enabled, hn] at he
  | sendInsert seq packet => simp [enabled, hn] at he
  | sendWrite seq packet ok => simp [enabled, hn] at he
  | sendRelease seq => simp [enabled, hn] at he
  | deliver packet => exact absurd rfl (hd packet)
  | packetLoop io => exact absurd hq he.2
  | loopRelease => exact ⟨⟨hq, hp, hn⟩, rfl⟩
  | loopReturn => exact ⟨⟨hq, hp, hn⟩, rfl⟩
  | retransmit due failAt =>
      have hscan := retransmitScan_empty due
      refine ⟨⟨hq, by simp only [UdpSession.apply, hp, hscan], hn⟩, ?_⟩
      simp only [UdpSession.apply, tickFails, hp, hscan]
      cases failAt <;> simp
  | close => exact absurd rfl hc

end UdpSession

namespace UdpServer

variable {C : Crypto} {cfg : NodeConfig} {S : UdpServer} {e : ServerEvent}

/-! ## One session object -/

/-- Everything a step can do to a session object besides closing it. -/
inductive ObjectMove (C : Crypto) (S : UdpServer) (e : ServerEvent) (j : Nat)
    (o : ServerSession) : ServerSession → Prop
  | stay : ObjectMove C S e j o o
  | delivered (packet : Bytes) (h : S.reader = .delivering j packet) :
      ObjectMove C S e j o (o.deliver packet)
  | started (h : e = .welcome true) (hr : S.reader = .welcoming j) :
      ObjectMove C S e j o o.start
  | reaped (h : e = .reap j) (hw : o.reaper = .waiting) (hc : o.session.closed = true) :
      ObjectMove C S e j o { o with reaper := .finished }
  | received (hw : o.confirm = .waiting) : ObjectMove C S e j o (o.receiveConfirm C)
  | timedOut (hw : o.confirm = .waiting) : ObjectMove C S e j o { o with confirm := .failing }
  | committed (h : e = .confirmCommit j) (hc : o.confirm = .confirmed) :
      ObjectMove C S e j o { o with confirm := S.commitState j o }
  | failed (hc : o.confirm = .failing ∨ o.confirm = .dropped) :
      ObjectMove C S e j o { o with confirm := .failed }
  | exposing (old : Option Nat) (hc : o.confirm = .committed old) :
      ObjectMove C S e j o { o with confirm := .exposing }
  | exposed (hc : o.confirm = .exposing) : ObjectMove C S e j o { o with confirm := .exposed }
  | stepped (ev : UdpEvent) (h : e = .session j ev) (hen : o.session.enabled ev)
      (hm : o.MayStep ev) : ObjectMove C S e j o (o.step C ev)

/-- A step about one session leaves the others as they are. -/
theorem ObjectMove.of_target {i j : Nat} {o p : ServerSession}
    (h : i = j → ObjectMove C S e j o p) :
    ObjectMove C S e j o (if i = j then p else o) := by
  split
  · exact h ‹_›
  · exact .stay

theorem advance_move (he : S.enabled e) {j : Nat} {o : ServerSession}
    (ho : S.objects[j]? = some o) : ObjectMove C S e j o (S.advance C e j o) := by
  have hsame : ∀ {p}, S.objects[j]? = some p → p = o := fun hp =>
    Option.some.inj (hp.symm.trans ho)
  cases e with
  | deliver =>
      obtain ⟨i, packet, hr⟩ := he
      simp only [advance, hr]
      split
      · rename_i hij
        exact .delivered packet (hij ▸ hr)
      · exact .stay
  | welcome ok =>
      cases ok with
      | false => exact .stay
      | true =>
          simp only [advance]
          split
          · rename_i hr
            exact .started rfl hr
          · exact .stay
  | reap i =>
      obtain ⟨p, hp, hw, hc⟩ := he
      refine .of_target fun hij => ?_
      subst hij
      exact .reaped rfl (hsame hp ▸ hw) (hsame hp ▸ hc)
  | confirmReceive i =>
      obtain ⟨p, hp, hw, -⟩ := he
      refine .of_target fun hij => ?_
      subst hij
      exact .received (hsame hp ▸ hw)
  | confirmTimeout i =>
      obtain ⟨p, hp, hw⟩ := he
      refine .of_target fun hij => ?_
      subst hij
      exact .timedOut (hsame hp ▸ hw)
  | confirmCommit i =>
      obtain ⟨p, hp, hc⟩ := he
      refine .of_target fun hij => ?_
      subst hij
      exact .committed rfl (hsame hp ▸ hc)
  | closeSelf i =>
      obtain ⟨p, hp, hc⟩ := he
      refine .of_target fun hij => ?_
      subst hij
      exact .failed (hsame hp ▸ hc)
  | closeOld i =>
      obtain ⟨p, old, hp, hc⟩ := he
      refine .of_target fun hij => ?_
      subst hij
      exact .exposing old (hsame hp ▸ hc)
  | expose i =>
      obtain ⟨p, hp, hc⟩ := he
      refine .of_target fun hij => ?_
      subst hij
      exact .exposed (hsame hp ▸ hc)
  | session i ev =>
      obtain ⟨p, hp, hen, hm⟩ := he
      refine .of_target fun hij => ?_
      subst hij
      exact .stepped ev rfl (hsame hp ▸ hen) (hsame hp ▸ hm)
  | _ => exact .stay

/-- A property of session objects is kept by a step if it is kept by every
move and by closing. -/
theorem objectAfter_induction (he : S.enabled e) {j : Nat} {o : ServerSession}
    (ho : S.objects[j]? = some o) {motive : ServerSession → Prop}
    (move : ∀ p, ObjectMove C S e j o p → motive p) (close : ∀ p, motive p → motive p.close) :
    motive (S.objectAfter C e j o) := by
  have hmove := move _ (advance_move (C := C) he ho)
  rw [objectAfter]
  split
  · exact close _ hmove
  · exact hmove

/-- What identifies a session object. -/
def origin (o : ServerSession) : Nat × Bytes × Bytes × Bytes :=
  (o.sessionID, o.remote, o.clientNonce, o.serverNonce)

theorem origin_objectAfter (C : Crypto) (he : S.enabled e) {j : Nat} {o : ServerSession}
    (ho : S.objects[j]? = some o) : origin (S.objectAfter C e j o) = origin o := by
  refine objectAfter_induction (motive := fun p => origin p = origin o) he ho ?_ ?_
  · intro p hp
    cases hp with
    | received hw =>
        rw [ServerSession.receiveConfirm]
        split
        · split <;> rfl
        · rfl
    | _ => rfl
  · intro p hp
    exact hp

/-- A finished session stays finished. -/
theorem closed_objectAfter (C : Crypto) (he : S.enabled e) {j : Nat} {o : ServerSession}
    (ho : S.objects[j]? = some o) (hc : o.session.closed = true) :
    (S.objectAfter C e j o).session.closed = true := by
  refine objectAfter_induction (motive := fun p => p.session.closed = true) he ho ?_ ?_
  · intro p hp
    cases hp with
    | delivered packet h =>
        rw [ServerSession.deliver, UdpSession.deliverPacket_closed hc]
        exact hc
    | received hw =>
        rw [ServerSession.receiveConfirm]
        split
        · exact hc
        · exact hc
    | stepped ev h hen hm =>
        by_contra hopen
        have hfalse := UdpSession.closed_of_apply hen (Bool.eq_false_iff.mpr hopen)
        rw [hc] at hfalse
        cases hfalse
    | _ => exact hc
  · intro p hp
    rfl

/-! ## Confirmations -/

/-- Only the answering `Send` call moves a goroutine on. -/
theorem confirmAfter_cases (c : ConfirmState) (e : UdpEvent) :
    ServerSession.confirmAfter c e = c ∨
      (c = .sending ∧
        (ServerSession.confirmAfter c e = .confirmed ∨
          ServerSession.confirmAfter c e = .failing)) := by
  cases c with
  | sending =>
      cases e with
      | sendWrite seq packet ok => cases ok <;> simp [ServerSession.confirmAfter]
      | sendRefuse payload => exact Or.inr ⟨rfl, Or.inr rfl⟩
      | sendRelease seq => exact Or.inr ⟨rfl, Or.inr rfl⟩
      | _ => exact Or.inl rfl
  | _ => exact Or.inl rfl

theorem received_confirmAfter {c : ConfirmState} {e : UdpEvent}
    (h : (ServerSession.confirmAfter c e).received = true) : c.received = true := by
  rcases confirmAfter_cases c e with hc | ⟨rfl, -⟩
  · exact hc ▸ h
  · rfl

/-- An index entry once earned is not given back. -/
theorem indexed_objectAfter (he : S.enabled e) {j : Nat} {o : ServerSession}
    (ho : S.objects[j]? = some o) (hnew : S.reader ≠ .welcoming j)
    (h : o.confirm.indexed = true) : (S.objectAfter C e j o).confirm.indexed = true := by
  have hnot : ∀ {c : ConfirmState}, o.confirm = c → c.indexed = true := fun hc => hc ▸ h
  refine objectAfter_induction (motive := fun p => p.confirm.indexed = true) he ho ?_ ?_
  · intro p hp
    cases hp with
    | started _ hr => exact absurd hr hnew
    | received hw => exact absurd (hnot hw) nofun
    | timedOut hw => exact absurd (hnot hw) nofun
    | committed _ hc => exact absurd (hnot hc) nofun
    | failed hc => rcases hc with hc | hc <;> exact absurd (hnot hc) nofun
    | exposing | exposed => rfl
    | stepped ev =>
        rcases confirmAfter_cases o.confirm ev with hc | ⟨hc, -⟩
        · rw [ServerSession.step, hc]
          exact h
        · exact absurd (hnot hc) nofun
    | stay | delivered | reaped => exact h
  · intro p hp
    exact hp

/-- A goroutine reaches its replacement target in its critical section only. -/
theorem committed_objectAfter (he : S.enabled e) {j : Nat} {o : ServerSession}
    (ho : S.objects[j]? = some o) {old : Nat} :
    (S.objectAfter C e j o).confirm = .committed (some old) →
    o.confirm = .committed (some old) ∨
      (o.confirm = .confirmed ∧ Finmap.lookup o.sessionID S.sessions = some j ∧
        S.replaced o = some old) := by
  refine objectAfter_induction (motive := fun p => p.confirm = .committed (some old) →
    o.confirm = .committed (some old) ∨
      (o.confirm = .confirmed ∧ Finmap.lookup o.sessionID S.sessions = some j ∧
        S.replaced o = some old)) he ho ?_ ?_
  · intro p hp h
    cases hp with
    | received hw =>
        rw [ServerSession.receiveConfirm] at h
        split at h
        · split at h <;> cases h
        · cases h
    | committed _ hc =>
        simp only [commitState] at h
        split at h
        · rename_i hentry
          exact Or.inr ⟨hc, hentry, ConfirmState.committed.inj h⟩
        · cases h
    | stepped ev =>
        rcases confirmAfter_cases o.confirm ev with hc | ⟨-, hc | hc⟩
        · exact Or.inl (hc ▸ h)
        · rw [ServerSession.step, hc] at h
          cases h
        · rw [ServerSession.step, hc] at h
          cases h
    | stay | delivered | reaped => exact Or.inl h
    | started | timedOut | failed | exposing | exposed => cases h
  · intro p hp
    exact hp

/-- A goroutine loses its session in its critical section only. -/
theorem dropped_objectAfter (he : S.enabled e) {j : Nat} {o : ServerSession}
    (ho : S.objects[j]? = some o) :
    (S.objectAfter C e j o).confirm = .dropped →
    o.confirm = .dropped ∨ Finmap.lookup o.sessionID S.sessions ≠ some j := by
  refine objectAfter_induction (motive := fun p => p.confirm = .dropped →
    o.confirm = .dropped ∨ Finmap.lookup o.sessionID S.sessions ≠ some j) he ho ?_ ?_
  · intro p hp h
    cases hp with
    | received hw =>
        rw [ServerSession.receiveConfirm] at h
        split at h
        · split at h <;> cases h
        · cases h
    | committed _ hc =>
        simp only [commitState] at h
        split at h
        · cases h
        · rename_i hentry
          exact Or.inr hentry
    | stepped ev =>
        rcases confirmAfter_cases o.confirm ev with hc | ⟨-, hc | hc⟩
        · exact Or.inl (hc ▸ h)
        · rw [ServerSession.step, hc] at h
          cases h
        · rw [ServerSession.step, hc] at h
          cases h
    | stay | delivered | reaped => exact Or.inl h
    | started | timedOut | failed | exposing | exposed => cases h
  · intro p hp
    exact hp

/-! ## Sessions whose welcome is being written -/

/-- An object before its goroutines are started. -/
structure Unstarted (o : ServerSession) : Prop where
  confirm : o.confirm = .unstarted
  reaper : o.reaper = .unstarted
  idle : o.session.Idle

/-- Until the welcome is written nothing moves in the new object. -/
theorem Unstarted.objectAfter {j : Nat} {o : ServerSession} (h : Unstarted o)
    (he : S.enabled e) (ho : S.objects[j]? = some o) (hr : S.reader = .welcoming j)
    (hw : ∀ ok, e ≠ .welcome ok) :
    Unstarted (S.objectAfter C e j o) ∧
      (S.closes e j o = false → (S.objectAfter C e j o).session.closed = o.session.closed) := by
  have hnot : ∀ {c : ConfirmState}, o.confirm = c → c = .unstarted := fun hc =>
    hc.symm.trans h.confirm
  have hadv : Unstarted (S.advance C e j o) ∧
      (S.advance C e j o).session.closed = o.session.closed := by
    have hmove := advance_move (C := C) he ho
    generalize S.advance C e j o = p at hmove
    cases hmove with
    | stay => exact ⟨h, rfl⟩
    | delivered packet hd =>
        rw [hr] at hd
        cases hd
    | started hs => exact absurd hs (hw true)
    | reaped _ hwait =>
        rw [h.reaper] at hwait
        cases hwait
    | received hc => cases hnot hc
    | timedOut hc => cases hnot hc
    | committed _ hc => cases hnot hc
    | failed hc => rcases hc with hc | hc <;> cases hnot hc
    | exposing old hc => cases hnot hc
    | exposed hc => cases hnot hc
    | stepped ev _ hen hm =>
        obtain ⟨hidle, hclosed⟩ := h.idle.apply (C := C) hen
          (by rintro packet rfl; exact hm) (by rintro payload rfl; cases hnot hm)
          (by rintro rfl; cases hnot hm)
        refine ⟨⟨?_, h.reaper, hidle⟩, hclosed⟩
        rw [ServerSession.step, h.confirm]
        rfl
  rw [UdpServer.objectAfter]
  constructor
  · split
    · exact ⟨hadv.1.confirm, hadv.1.reaper, ⟨hadv.1.idle.packetCh, hadv.1.idle.pending,
        hadv.1.idle.sends⟩⟩
    · exact hadv.1
  · intro hc
    rw [if_neg (by simp [hc])]
    exact hadv.2

/-! ## The list of objects -/

/-- A registration adds one entry and one object and touches nothing else. -/
structure Registered (C : Crypto) (cfg : NodeConfig) (S T : UdpServer) (sessionID : Nat)
    (remote : Bytes) (o : ServerSession) : Prop where
  object : ∃ hello serverNonce, S.reader = .hello remote hello ∧
    o = newSession C cfg remote hello sessionID serverNonce
  control : T =
    { S with
      sessions := S.sessions.insert sessionID S.objects.length
      sessionRemote := S.sessionRemote.insert sessionID remote
      objects := S.objects ++ [o]
      reader := .welcoming S.objects.length }

theorem register_cases (C : Crypto) (cfg : NodeConfig) (S : UdpServer) (sessionID : Nat)
    (serverNonce : Bytes) (timestamp : Int) (hr : ∃ remote hello, S.reader = .hello remote hello) :
    S.register C cfg sessionID serverNonce timestamp = { S with reader := .idle } ∨
    ∃ remote o,
      Registered C cfg S (S.register C cfg sessionID serverNonce timestamp) sessionID remote o := by
  obtain ⟨remote, hello, hr⟩ := hr
  simp only [register, hr]
  split
  · exact Or.inl rfl
  · exact Or.inr ⟨remote, _, ⟨hello, serverNonce, hr, rfl⟩, rfl⟩

/-- Only a registration adds an object. -/
theorem objects_control (C : Crypto) (cfg : NodeConfig) (he : S.enabled e) :
    (S.control C cfg e).objects = S.objects ∨
    ∃ sessionID serverNonce timestamp remote o, e = .register sessionID serverNonce timestamp ∧
      Registered C cfg S (S.control C cfg e) sessionID remote o := by
  cases e with
  | register sessionID serverNonce timestamp =>
      rcases register_cases C cfg S sessionID serverNonce timestamp he.1 with
        h | ⟨remote, o, h⟩
      · exact Or.inl (by rw [control, h])
      · exact Or.inr ⟨sessionID, serverNonce, timestamp, remote, o, rfl, h⟩
  | reap i =>
      obtain ⟨o, ho, -⟩ := he
      simp only [control, ho, reapTables]
      split <;> exact Or.inl rfl
  | confirmCommit i =>
      obtain ⟨o, ho, -⟩ := he
      simp only [control, ho, commitTables]
      split <;> exact Or.inl rfl
  | _ => exact Or.inl rfl

/-- The objects after a step. -/
theorem object_apply (he : S.enabled e) {j : Nat} {o' : ServerSession}
    (h : (S.apply C cfg e).objects[j]? = some o') :
    (∃ o, S.objects[j]? = some o ∧ o' = S.objectAfter C e j o) ∨
    ∃ sessionID remote, j = S.objects.length ∧
      Registered C cfg S (S.control C cfg e) sessionID remote o' := by
  simp only [apply, List.getElem?_mapIdx, Option.map_eq_some_iff] at h
  obtain ⟨o, ho, rfl⟩ := h
  rcases objects_control C cfg he with hc | ⟨sessionID, _, _, remote, p, rfl, hreg⟩
  · rw [hc] at ho
    exact Or.inl ⟨o, ho, rfl⟩
  · rw [hreg.control, List.getElem?_append] at ho
    split at ho
    · exact Or.inl ⟨o, ho, rfl⟩
    · rename_i hj
      obtain ⟨hlt, ho⟩ := List.getElem?_eq_some_iff.mp ho
      rw [List.length_singleton] at hlt
      have hj' : j = S.objects.length := by omega
      refine Or.inr ⟨sessionID, remote, hj', ?_⟩
      have hp : o = p := by
        rw [← ho]
        simp
      rw [hp]
      exact hreg

/-- An object that existed still exists. -/
theorem object_apply_of (C : Crypto) (cfg : NodeConfig) (he : S.enabled e) {j : Nat}
    {o : ServerSession}
    (h : S.objects[j]? = some o) :
    (S.apply C cfg e).objects[j]? = some (S.objectAfter C e j o) := by
  have hold : (S.control C cfg e).objects[j]? = some o := by
    rcases objects_control C cfg he with hc | ⟨_, _, _, _, p, rfl, hreg⟩
    · rw [hc, h]
    · obtain ⟨hlt, -⟩ := List.getElem?_eq_some_iff.mp h
      rw [hreg.control]
      exact (List.getElem?_append_left hlt).trans h
  simp only [apply, List.getElem?_mapIdx, hold, Option.map_some]

/-! ## The tables and the read loop -/

/-- Everything a step can do to the three tables. -/
inductive TablesStep (S T : UdpServer) : Prop
  | same (hs : T.sessions = S.sessions) (hr : T.sessionRemote = S.sessionRemote)
      (hb : T.byRemote = S.byRemote)
  | registered (sessionID : Nat) (remote : Bytes) (o : ServerSession) (hello : Handshake)
      (hreader : S.reader = .hello remote hello) (hfresh : sessionID ∉ S.sessions)
      (ho : T.objects[S.objects.length]? = some o) (hid : o.sessionID = sessionID)
      (hremote : o.remote = remote) (hreader' : T.reader = .welcoming S.objects.length)
      (hs : T.sessions = S.sessions.insert sessionID S.objects.length)
      (hr : T.sessionRemote = S.sessionRemote.insert sessionID remote)
      (hb : T.byRemote = S.byRemote)
  | reaped (i : Nat) (o : ServerSession) (ho : S.objects[i]? = some o)
      (hclosed : o.session.closed = true)
      (hentry : Finmap.lookup o.sessionID S.sessions = some i)
      (hs : T.sessions = S.sessions.erase o.sessionID)
      (hr : T.sessionRemote = S.sessionRemote.erase o.sessionID)
      (hb : T.byRemote = if Finmap.lookup o.remote S.byRemote = some o.sessionID
        then S.byRemote.erase o.remote else S.byRemote)
  | committed (i : Nat) (o : ServerSession) (ho : S.objects[i]? = some o)
      (hconfirm : o.confirm = .confirmed)
      (hentry : Finmap.lookup o.sessionID S.sessions = some i)
      (hafter : ∃ o', T.objects[i]? = some o' ∧ o'.confirm.indexed = true)
      (hs : T.sessions = S.sessions) (hr : T.sessionRemote = S.sessionRemote)
      (hb : T.byRemote = S.byRemote.insert o.remote o.sessionID)
  | cleared (hshut : S.shutdown = .closing) (hs : T.sessions = ∅) (hr : T.sessionRemote = ∅)
      (hb : T.byRemote = ∅)

theorem tables_apply (C : Crypto) (cfg : NodeConfig) (he : S.enabled e) :
    TablesStep S (S.apply C cfg e) := by
  cases e with
  | register sessionID serverNonce timestamp =>
      rcases register_cases C cfg S sessionID serverNonce timestamp he.1 with h | ⟨remote, o, h⟩
      · refine .same ?_ ?_ ?_ <;> simp only [apply, control, h]
      · obtain ⟨hello, nonce, hreader, hobj⟩ := h.object
        have hcontrol : S.control C cfg (.register sessionID serverNonce timestamp) = _ := h.control
        refine .registered sessionID remote o hello hreader he.2.2.2.1 ?_ ?_ ?_ ?_ ?_ ?_ ?_
        · simp [apply, hcontrol, objectAfter, closes, advance]
        · rw [hobj]
          rfl
        · rw [hobj]
          rfl
        · simp only [apply, hcontrol]
        · simp only [apply, hcontrol]
        · simp only [apply, hcontrol]
        · simp only [apply, hcontrol]
  | reap i =>
      obtain ⟨o, ho, hreaper, hclosed⟩ := he
      by_cases hentry : Finmap.lookup o.sessionID S.sessions = some i
      · refine .reaped i o ho hclosed hentry ?_ ?_ ?_ <;>
          simp only [apply, control, ho, reapTables, hentry, if_true]
      · refine .same ?_ ?_ ?_ <;> simp only [apply, control, ho, reapTables, hentry, if_false]
  | confirmCommit i =>
      obtain ⟨o, ho, hc⟩ := he
      by_cases hentry : Finmap.lookup o.sessionID S.sessions = some i
      · have hafter := object_apply_of C cfg (e := .confirmCommit i) ⟨o, ho, hc⟩ ho
        refine .committed i o ho hc hentry ⟨_, hafter, ?_⟩ ?_ ?_ ?_
        · simp [objectAfter, closes, advance, commitState, hentry, ConfirmState.indexed]
        all_goals simp only [apply, control, ho, commitTables, hentry, if_true]
      · refine .same ?_ ?_ ?_ <;> simp only [apply, control, ho, commitTables, hentry, if_false]
  | closeTables => exact .cleared he rfl rfl rfl
  | _ => exact .same rfl rfl rfl

/-- The read loop accepts a hello only while there is room. -/
theorem reader_hello_apply (he : S.enabled e) {remote : Bytes} {hello : Handshake}
    (h : (S.apply C cfg e).reader = .hello remote hello) :
    S.reader = .hello remote hello ∨ S.sessions.size < maxUDPSessions := by
  cases e with
  | datagram now r packet =>
      simp only [apply, control, readLoop] at h
      split at h
      · split at h
        · cases h
        · split at h
          · cases h
          · rename_i hroom
            exact Or.inr (not_le.mp hroom)
      · split at h
        · cases h
        · split at h
          · cases h
          · split at h <;> cases h
  | register sessionID serverNonce timestamp =>
      rcases register_cases C cfg S sessionID serverNonce timestamp he.1 with hreg | ⟨r, o, hreg⟩
      · simp only [apply, control, hreg] at h
        cases h
      · have hcontrol : S.control C cfg (.register sessionID serverNonce timestamp) = _ :=
          hreg.control
        simp only [apply, hcontrol] at h
        cases h
  | reap i =>
      obtain ⟨o, ho, -⟩ := he
      simp only [apply, control, ho, reapTables] at h
      split at h <;> exact Or.inl h
  | confirmCommit i =>
      obtain ⟨o, ho, -⟩ := he
      simp only [apply, control, ho, commitTables] at h
      split at h <;> exact Or.inl h
  | readError | deliver | abandon | welcome => cases h
  | _ => exact Or.inl h

/-- The read loop writes a welcome only after a registration. -/
theorem reader_welcoming_apply (he : S.enabled e) {i : Nat}
    (h : (S.apply C cfg e).reader = .welcoming i) :
    (S.reader = .welcoming i ∧ (∀ ok, e ≠ .welcome ok)) ∨
    (i = S.objects.length ∧ ∃ o, (S.apply C cfg e).objects[i]? = some o ∧ Unstarted o ∧
      o.session.closed = false ∧ ∃ remote hello, S.reader = .hello remote hello) := by
  cases e with
  | datagram now r packet =>
      simp only [apply, control, readLoop] at h
      split at h
      · split at h
        · cases h
        · split at h <;> cases h
      · split at h
        · cases h
        · split at h
          · cases h
          · split at h <;> cases h
  | register sessionID serverNonce timestamp =>
      rcases register_cases C cfg S sessionID serverNonce timestamp he.1 with hreg | ⟨r, o, hreg⟩
      · simp only [apply, control, hreg] at h
        cases h
      · have hcontrol : S.control C cfg (.register sessionID serverNonce timestamp) = _ :=
          hreg.control
        obtain ⟨hello, nonce, hreader, hobj⟩ := hreg.object
        simp only [apply, hcontrol] at h
        cases h
        refine Or.inr ⟨rfl, o, ?_, ?_, ?_, r, hello, hreader⟩
        · simp [apply, hcontrol, objectAfter, closes, advance]
        · rw [hobj]
          exact ⟨rfl, rfl, rfl, rfl, rfl⟩
        · rw [hobj]
          rfl
  | reap i =>
      obtain ⟨o, ho, -⟩ := he
      simp only [apply, control, ho, reapTables] at h
      split at h <;> exact Or.inl ⟨h, nofun⟩
  | confirmCommit i =>
      obtain ⟨o, ho, -⟩ := he
      simp only [apply, control, ho, commitTables] at h
      split at h <;> exact Or.inl ⟨h, nofun⟩
  | readError | deliver | abandon | welcome => cases h
  | _ => exact Or.inl ⟨h, nofun⟩

end UdpServer

end UnknownTunnel.Transport

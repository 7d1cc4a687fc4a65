import UnknownTunnel.ConfigFile.Identifier
import UnknownTunnel.Transport.HandshakeAgreement

/-!
# Nonces of the cipher

No two calls of `Seal` in a run of the two nodes share a key and a nonce. The
sessions of a run have send keys of their own, because the salt of a key
derivation determines the nonces it was made from, and a session numbers its
calls.

## Implementation notes

The hash functions are idealised as in `Transport.KeyDerivation`. Nothing is
assumed of MACs or of what the attacker sends.
-/

namespace UnknownTunnel.Transport

open Foundation

/-! ## Counters -/

namespace Session

variable {C : Crypto} {s : Session} {e : SessionEvent}

/-- The number of calls of `Seal`. -/
def sendSeq : Session → Nat
  | .tcp s => s.sendSeq
  | .udp s => s.sendSeq

theorem sendSeq_apply (C : Crypto) (he : s.enabled e) :
    (s.apply C e).sendSeq = s.sendSeq + (s.sealRecord e).toList.length := by
  cases s with
  | tcp s =>
      cases e with
      | tcp e =>
          cases e with
          | frame header ciphertext queued =>
              simp only [apply, TcpSession.apply]
              split
              · rfl
              · split <;> rfl
          | _ => rfl
      | udp e => exact he.elim
  | udp s =>
      cases e with
      | tcp e => exact he.elim
      | udp e => exact UdpSession.apply_sendSeq he

theorem sendSeq_close (s : Session) : s.close.sendSeq = s.sendSeq := by
  cases s <;> rfl

/-- A call of `Seal` is made under the next number. -/
theorem nonce_sealRecord (he : s.enabled e) {r : SealRecord} (h : s.sealRecord e = some r) :
    r.key = s.keys.send ∧ r.nonce = nonceFor (s.sendSeq + 1) ∧ s.sendSeq + 1 < 2 ^ 64 := by
  refine ⟨(sealRecord_eq_some h).1, ?_⟩
  cases s with
  | tcp s =>
      cases e with
      | tcp e =>
          cases e with
          | send payload failAt =>
              cases h
              exact ⟨rfl, he.2⟩
          | _ => cases h
      | udp e => cases h
  | udp s =>
      cases e with
      | tcp e => cases h
      | udp e =>
          cases e with
          | sendSeal payload =>
              cases h
              exact ⟨rfl, he.2⟩
          | _ => cases h

end Session

/-- The send key of a session and the number of calls of `Seal` under it. -/
abbrev SendCount := Bytes × Nat

def Session.sendCount (s : Session) : SendCount := (s.keys.send, s.sendSeq)

def Dial.sendCount (d : Dial) : Option SendCount :=
  match d.phase with
  | .established _ s _ => some s.sendCount
  | _ => none

/-- A step counts the call it makes. -/
theorem Dial.sendCount_apply (C : Crypto) (cfg : NodeConfig) {d : Dial} {e : DialEvent}
    (he : d.enabled e) {key : Bytes} {n : Nat} (h : d.sendCount = some (key, n)) :
    (d.apply C cfg e).sendCount = some (key, n + (d.sealRecord e).toList.length) := by
  rw [sendCount] at h
  split at h
  · rename_i nonce s c hphase
    cases h
    have hstep : ∀ ev, s.enabled ev →
        (s.apply C ev).sendCount = (s.keys.send, s.sendSeq + (s.sealRecord ev).toList.length) := by
      intro ev hev
      have hid := Session.identity_apply C hev
      simp only [Session.identity, Prod.mk.injEq] at hid
      rw [Session.sendCount, hid.2.2, Session.sendSeq_apply C hev]
    cases e with
    | confirm ev =>
        obtain ⟨nonce', s', h', hev, -⟩ := he
        rw [hphase] at h'
        cases h'
        simp only [sendCount, apply, phaseAfter, hphase, sealRecord, DialEvent.sessionEvent,
          hstep ev hev]
    | session ev =>
        obtain ⟨nonce', s', c', h', hev, -⟩ := he
        rw [hphase] at h'
        cases h'
        simp only [sendCount, apply, phaseAfter, hphase, sealRecord, DialEvent.sessionEvent,
          hstep ev hev]
    | close =>
        have hid := Session.identity_close s
        simp only [Session.identity, Prod.mk.injEq] at hid
        simp [sendCount, apply, phaseAfter, hphase, sealRecord, DialEvent.sessionEvent,
          Session.sendCount, Session.sendSeq_close, hid]
    | _ =>
        simp [sendCount, apply, phaseAfter, hphase, sealRecord, DialEvent.sessionEvent,
          Session.sendCount]
  · cases h

/-- The call a dial makes is the next one of its session. -/
theorem Dial.nonce_sealRecord {d : Dial} {e : DialEvent} (he : d.enabled e) {r : SealRecord}
    (h : d.sealRecord e = some r) :
    ∃ n, d.sendCount = some (r.key, n) ∧ r.nonce = nonceFor (n + 1) ∧ n + 1 < 2 ^ 64 := by
  rw [sealRecord] at h
  split at h
  · rename_i nonce s c ev hphase hev
    have hen : s.enabled ev := by
      cases e with
      | confirm ev' =>
          cases hev
          obtain ⟨nonce', s', h', hen, -⟩ := he
          rw [hphase] at h'
          cases h'
          exact hen
      | session ev' =>
          cases hev
          obtain ⟨nonce', s', c', h', hen, -⟩ := he
          rw [hphase] at h'
          cases h'
          exact hen
      | _ => cases hev
    obtain ⟨hkey, hnonce, hlt⟩ := Session.nonce_sealRecord hen h
    exact ⟨s.sendSeq, by simp only [sendCount, hphase, Session.sendCount, hkey], hnonce, hlt⟩
  · cases h

def Accept.sendCount (a : Accept) : SendCount := (Session.tcp a.session).sendCount

theorem Accept.sendCount_apply (C : Crypto) {a : Accept} {e : AcceptEvent} (he : a.enabled e) :
    (a.apply C e).sendCount =
      (a.session.sendKey, a.session.sendSeq + (a.sealRecord e).toList.length) := by
  have hstep : ∀ ev, a.session.enabled ev → (Session.tcp (a.session.apply C ev)).sendCount =
      (a.session.sendKey, a.session.sendSeq + (a.session.sealRecord ev).toList.length) := by
    intro ev hev
    have hkey := (TcpSession.apply_cases C a.session ev).1
    have hseq := Session.sendSeq_apply (s := .tcp a.session) (e := .tcp ev) C hev
    exact Prod.ext hkey hseq
  cases e with
  | session ev => exact hstep ev he.1
  | receive ev =>
      by_cases hc : a.Confirmed
      · simp only [sendCount, apply, sealRecord, hc, if_true, hstep ev he.2.2.1]
      · simp only [sendCount, apply, sealRecord, hc, if_false]
        rfl
  | timeout => rfl
  | close => rfl

theorem Accept.nonce_sealRecord {a : Accept} {e : AcceptEvent} (he : a.enabled e)
    {r : SealRecord} (h : a.sealRecord e = some r) :
    r.key = a.session.sendKey ∧ r.nonce = nonceFor (a.session.sendSeq + 1) ∧
      a.session.sendSeq + 1 < 2 ^ 64 := by
  cases e with
  | session ev => exact Session.nonce_sealRecord (s := .tcp a.session) (e := .tcp ev) he.1 h
  | receive ev =>
      simp only [sealRecord] at h
      split at h
      · exact Session.nonce_sealRecord (s := .tcp a.session) (e := .tcp ev) he.2.2.1 h
      · cases h
  | timeout => cases h
  | close => cases h

namespace UdpServer

variable {C : Crypto} {S : UdpServer} {e : ServerEvent}

/-- The `Seal` call a step makes in one session object. -/
def sealsAt (e : ServerEvent) (j : Nat) (o : ServerSession) : Option SealRecord :=
  match e with
  | .session i ev => if i = j then o.session.sealRecord ev else none
  | _ => none

theorem sendSeq_objectAfter (C : Crypto) (he : S.enabled e) {j : Nat} {o : ServerSession}
    (ho : S.objects[j]? = some o) :
    (S.objectAfter C e j o).session.sendSeq =
      o.session.sendSeq + (sealsAt e j o).toList.length := by
  have hadvance : (S.advance C e j o).session.sendSeq =
      o.session.sendSeq + (sealsAt e j o).toList.length := by
    cases e with
    | session i ev =>
        simp only [advance, sealsAt]
        split
        · rename_i hij
          subst hij
          obtain ⟨p, hp, hen, -⟩ := he
          rw [ho] at hp
          cases hp
          exact UdpSession.apply_sendSeq hen
        · rfl
    | deliver =>
        simp only [advance]
        split
        · split
          · exact UdpSession.apply_sendSeq (C := C) (e := .deliver _) trivial
          · rfl
        · rfl
    | welcome ok =>
        cases ok with
        | false => rfl
        | true =>
            simp only [advance]
            split <;> rfl
    | confirmReceive i =>
        simp only [advance, ServerSession.receiveConfirm]
        split
        · split
          · split <;> rfl
          · rfl
        · rfl
    | reap i | confirmTimeout i | confirmCommit i | closeSelf i | closeOld i | expose i =>
        simp only [advance]
        split <;> rfl
    | _ => rfl
  rw [objectAfter]
  split <;> exact hadvance

end UdpServer

/-! ## The sessions of a run -/

/-- A place where a session sends from. -/
inductive SenderRef
  | client (i : Nat)
  | server (r : EndRef)
  deriving DecidableEq

namespace World

variable {C : Crypto} {cfg : NodeConfig} {W : World} {e : WorldEvent}

def sendCount (W : World) : SenderRef → Option SendCount
  | .client i => W.dials[i]?.bind Dial.sendCount
  | .server (.udp i) => W.server.objects[i]?.map fun o => (Session.udp o.session).sendCount
  | .server (.tcp j) => W.accepts[j]?.map Accept.sendCount

/-- The call of `Seal` a step makes at a place. -/
def sealsAt (W : World) (e : WorldEvent) (p : SenderRef) : Option SealRecord :=
  match p, e with
  | .client i, .dial i' ev => if i' = i then W.dials[i]?.bind fun d => d.sealRecord ev else none
  | .server (.udp j), .server ev => W.server.objects[j]?.bind fun o => UdpServer.sealsAt ev j o
  | .server (.tcp j), .accept j' ev =>
      if j' = j then W.accepts[j]?.bind fun a => a.sealRecord ev else none
  | _, _ => none

/-- A step counts the call it makes at a place, and no other. -/
theorem sendCount_apply (C : Crypto) (he : W.enabled cfg e) {p : SenderRef} {key : Bytes} {n : Nat}
    (h : W.sendCount p = some (key, n)) :
    (W.apply C cfg e).sendCount p = some (key, n + (W.sealsAt e p).toList.length) := by
  cases p with
  | client i =>
      obtain ⟨d, hd, hcount⟩ := Option.bind_eq_some_iff.mp h
      cases e with
      | dial i' ev =>
          obtain ⟨d', hd', hen⟩ := he
          simp only [sendCount, apply, List.getElem?_modify, hd, sealsAt]
          by_cases hi : i' = i
          · subst hi
            rw [hd] at hd'
            cases hd'
            simpa using Dial.sendCount_apply C cfg.peer hen hcount
          · simpa [hi] using hcount
      | newDial carrier nonce timestamp =>
          have hlt := (List.getElem?_eq_some_iff.mp hd).1
          simp only [sendCount, apply, List.getElem?_append_left hlt, hd]
          exact hcount
      | newAccept now stream serverNonce timestamp written =>
          rcases newAccept_cases C cfg W now stream serverNonce timestamp written with
            hw | ⟨_, _, -, -, hw⟩ <;> rw [hw] <;> exact h
      | server ev | accept j ev => exact h
  | server r =>
      cases r with
      | udp j =>
          obtain ⟨o, ho, hcount⟩ := Option.map_eq_some_iff.mp h
          cases e with
          | server ev =>
              change W.server.enabled ev at he
              have hobject := UdpServer.object_apply_of C cfg he ho
              have hid := UdpServer.identity_objectAfter C he ho
              simp only [UdpSession.identity, Prod.mk.injEq] at hid
              have hseq := UdpServer.sendSeq_objectAfter C he ho
              simp only [Session.sendCount, Session.keys, Session.sendSeq, Prod.mk.injEq]
                at hcount
              obtain ⟨rfl, rfl⟩ := hcount
              simp only [sendCount, apply, hobject, Option.map_some, Session.sendCount,
                Session.keys, Session.sendSeq, hid.2.1, hseq, sealsAt, ho, Option.bind_some]
          | newAccept now stream serverNonce timestamp written =>
              rcases newAccept_cases C cfg W now stream serverNonce timestamp written with
                hw | ⟨_, _, -, -, hw⟩ <;> rw [hw] <;> exact h
          | newDial carrier nonce timestamp | dial i ev | accept i ev => exact h
      | tcp j =>
          obtain ⟨a, ha, hcount⟩ := Option.map_eq_some_iff.mp h
          cases e with
          | accept j' ev =>
              obtain ⟨a', ha', hen⟩ := he
              simp only [sendCount, apply, List.getElem?_modify, ha, sealsAt]
              by_cases hj : j' = j
              · subst hj
                rw [ha] at ha'
                cases ha'
                cases hcount
                simp only [if_true, Option.map_eq_map, Option.map_some, Option.bind_some]
                exact congrArg some (Accept.sendCount_apply C hen)
              · simpa [hj] using hcount
          | newAccept now stream serverNonce timestamp written =>
              have hlt := (List.getElem?_eq_some_iff.mp ha).1
              rcases newAccept_cases C cfg W now stream serverNonce timestamp written with
                hw | ⟨_, _, -, -, hw⟩
              · rw [hw]
                exact h
              · rw [hw]
                simp only [sendCount, List.getElem?_append_left hlt, ha]
                exact congrArg some hcount
          | newDial carrier nonce timestamp | dial i ev | server ev => exact h

/-- A step makes no call of `Seal`, or the next one of one session. -/
theorem sealed_apply (C : Crypto) (he : W.enabled cfg e) :
    (W.apply C cfg e).sealed = W.sealed ∨
    ∃ p r n, (W.apply C cfg e).sealed = W.sealed ++ [r] ∧ W.sendCount p = some (r.key, n) ∧
      W.sealsAt e p = some r ∧ r.nonce = nonceFor (n + 1) ∧ n + 1 < 2 ^ 64 := by
  cases e with
  | newDial carrier nonce timestamp => exact Or.inl rfl
  | newAccept now stream serverNonce timestamp written =>
      left
      rcases newAccept_cases C cfg W now stream serverNonce timestamp written with
        hw | ⟨_, _, -, -, hw⟩ <;> rw [hw]
  | dial i ev =>
      obtain ⟨d, hd, hen⟩ := he
      cases hr : d.sealRecord ev with
      | none => exact Or.inl (by simp [apply, hd, hr])
      | some r =>
          obtain ⟨n, hcount, hnonce, hlt⟩ := Dial.nonce_sealRecord hen hr
          exact Or.inr ⟨.client i, r, n, by simp [apply, hd, hr], by simp [sendCount, hd, hcount],
            by simp [sealsAt, hd, hr], hnonce, hlt⟩
  | accept j ev =>
      obtain ⟨a, ha, hen⟩ := he
      cases hr : a.sealRecord ev with
      | none => exact Or.inl (by simp [apply, ha, hr])
      | some r =>
          obtain ⟨hkey, hnonce, hlt⟩ := Accept.nonce_sealRecord hen hr
          refine Or.inr ⟨.server (.tcp j), r, a.session.sendSeq, by simp [apply, ha, hr], ?_,
            by simp [sealsAt, ha, hr], hnonce, hlt⟩
          simp only [sendCount, ha, Option.map_some, hkey]
          rfl
  | server ev =>
      cases ev with
      | session i ue =>
          obtain ⟨o, ho, hen, -⟩ := he
          cases hr : o.session.sealRecord ue with
          | none => exact Or.inl (by simp [apply, serverSeal, ho, hr])
          | some r =>
              obtain ⟨hkey, hnonce, hlt⟩ :=
                Session.nonce_sealRecord (s := .udp o.session) (e := .udp ue) hen hr
              refine Or.inr ⟨.server (.udp i), r, o.session.sendSeq,
                by simp [apply, serverSeal, ho, hr], ?_,
                by simp [sealsAt, UdpServer.sealsAt, ho, hr], hnonce, hlt⟩
              simp only [sendCount, ho, Option.map_some, hkey]
              rfl
      | _ => exact Or.inl (by simp [apply, serverSeal])

/-! ## Nonces of handshakes -/

/-- The keys of all ends are derived from their nonces, and the nonces tell
the dials and the ends of the server apart. -/
structure NoncesDistinct (C : Crypto) (cfg : NodeConfig) (W : World) : Prop where
  clientKeys : ∀ i c, W.clientEnd i = some c →
    c.keys = (serverKeys C cfg c.carrier c.clientNonce c.serverNonce).mirror
  clientLength : ∀ (i : Nat) (d : Dial), W.dials[i]? = some d → d.nonce.length = 32
  clientNonces : ∀ (i j : Nat) (d d' : Dial), W.dials[i]? = some d → W.dials[j]? = some d' →
    d.nonce = d'.nonce → i = j
  ends : W.EndsDistinct C cfg

theorem NoncesDistinct.start (C : Crypto) (cfg : NodeConfig) :
    World.start.NoncesDistinct C cfg := by
  refine ⟨?_, ?_, ?_, endsDistinct_start C cfg⟩
  · intro i c hc
    cases hc
  · intro i d hd
    cases hd
  · intro i j d d' hd
    cases hd

theorem NoncesDistinct.apply (h : W.NoncesDistinct C cfg) (he : W.enabled cfg e)
    (hf : W.FreshNonces C cfg e) : (W.apply C cfg e).NoncesDistinct C cfg where
  clientKeys := by
    intro i c hc
    rcases clientEnd_cases he hc with hc | ⟨d, ev, w, -, -, -, hphase, hend⟩
    · exact h.clientKeys i c hc
    · exact keys_of_establish rfl hphase hend
  clientLength := by
    intro i d hd
    exact dial_length_apply he h.clientLength hd
  clientNonces := by
    intro i j d d' hd hd' heq
    refine dial_nonces_apply he ?_ h.clientNonces hd hd' heq
    rintro carrier nonce timestamp rfl
    exact hf
  ends := h.ends.apply he hf

/-! ## Keys -/

/-- The place and the key a session sends with. -/
theorem key_of_sendCount (h : W.NoncesDistinct C cfg) {p : SenderRef} {key : Bytes} {n : Nat}
    (hs : W.sendCount p = some (key, n)) :
    (∃ i c, p = .client i ∧ W.clientEnd i = some c ∧
      key = (keysOf C cfg (c.clientNonce, c.serverNonce)).clientSend) ∨
    ∃ r v, p = .server r ∧ W.serverEnd r = some v ∧
      key = (keysOf C cfg (v.clientNonce, v.serverNonce)).serverSend := by
  cases p with
  | client i =>
      obtain ⟨d, hd, hcount⟩ := Option.bind_eq_some_iff.mp hs
      rw [Dial.sendCount] at hcount
      split at hcount
      · rename_i nonce s c hphase
        cases hcount
        have hend : W.clientEnd i = some ⟨s.kind, s.sessionID, d.nonce, nonce, s.keys⟩ := by
          rw [clientEnd_of hd, Dial.sessionEnd, hphase]
        refine Or.inl ⟨i, _, rfl, hend, ?_⟩
        have hkeys := congrArg SessionKeys.send (h.clientKeys i _ hend)
        refine hkeys.trans ?_
        cases s.kind <;> rfl
      · cases hcount
  | server r =>
      have hend : ∃ v, W.serverEnd r = some v ∧ v.keys.send = key := by
        cases r with
        | udp j =>
            obtain ⟨o, ho, hcount⟩ := Option.map_eq_some_iff.mp hs
            cases hcount
            exact ⟨o.sessionEnd, by simp only [serverEnd, ho, Option.map_some], rfl⟩
        | tcp j =>
            obtain ⟨a, ha, hcount⟩ := Option.map_eq_some_iff.mp hs
            cases hcount
            exact ⟨a.sessionEnd, by simp only [serverEnd, ha, Option.map_some], rfl⟩
      obtain ⟨v, hv, hkey⟩ := hend
      refine Or.inr ⟨r, v, rfl, hv, hkey.symm.trans ?_⟩
      exact (h.ends.data hv).1

/-- No two sessions have the same send key. -/
theorem sender_unique (h : W.NoncesDistinct C cfg) (hi : W.HashesInjective C cfg)
    {p q : SenderRef} {key : Bytes} {m n : Nat} (hp : W.sendCount p = some (key, m))
    (hq : W.sendCount q = some (key, n)) : p = q := by
  rcases key_of_sendCount h hp with ⟨i, c, rfl, hc, hkey⟩ | ⟨r, v, rfl, hv, hkey⟩
  · have hmem : (c.clientNonce, c.serverNonce) ∈ W.derivations := Or.inl ⟨i, c, hc, rfl⟩
    rcases key_of_sendCount h hq with ⟨j, c', rfl, hc', hkey'⟩ | ⟨r, v, rfl, hv, hkey'⟩
    · have hmem' : (c'.clientNonce, c'.serverNonce) ∈ W.derivations := Or.inl ⟨j, c', hc', rfl⟩
      obtain ⟨d, hd, hend⟩ := clientEnd_eq_some hc
      obtain ⟨d', hd', hend'⟩ := clientEnd_eq_some hc'
      obtain ⟨nonce, s, confirm, -, rfl⟩ := Dial.sessionEnd_eq_some hend
      obtain ⟨nonce', s', confirm', -, rfl⟩ := Dial.sessionEnd_eq_some hend'
      have hnonces := nonces_of_saltOf
        (hi.salt_of_clientSend hmem hmem' (hkey.symm.trans hkey'))
      have hnonce := (List.append_inj hnonces
        ((h.clientLength i d hd).trans (h.clientLength j d' hd').symm)).1
      rw [h.clientNonces i j d d' hd hd' hnonce]
    · exact absurd (hkey.symm.trans hkey') (hi.directions hmem (Or.inr ⟨r, v, hv, rfl⟩))
  · have hmem : (v.clientNonce, v.serverNonce) ∈ W.derivations := Or.inr ⟨r, v, hv, rfl⟩
    rcases key_of_sendCount h hq with ⟨j, c, rfl, hc, hkey'⟩ | ⟨r', v', rfl, hv', hkey'⟩
    · exact absurd (hkey'.symm.trans hkey) (hi.directions (Or.inl ⟨j, c, hc, rfl⟩) hmem)
    · have hsend : v.keys.send = v'.keys.send := by
        rw [(h.ends.data hv).1, (h.ends.data hv').1, ← hkey, ← hkey']
      rw [h.ends.send hi hv hv' hsend]

/-! ## Calls of `Seal` -/

theorem nonceFor_inj {m n : Nat} (hm : m < 2 ^ 64) (hn : n < 2 ^ 64)
    (h : nonceFor m = nonceFor n) : m = n :=
  Bytes.bePut_inj (by omega) (by omega) (List.append_cancel_left h)

/-- Every call of `Seal` has a number of its session, and no two calls share a
key and a nonce. -/
structure SealsNumbered (W : World) : Prop where
  counted : ∀ r ∈ W.sealed, ∃ p m n, W.sendCount p = some (r.key, n) ∧ m ≤ n ∧ m < 2 ^ 64 ∧
    r.nonce = nonceFor m
  distinct : W.sealed.Pairwise fun a b => a.key = b.key → a.nonce ≠ b.nonce

theorem SealsNumbered.apply (h : W.SealsNumbered) (hd : W.NoncesDistinct C cfg)
    (hi : W.HashesInjective C cfg) (he : W.enabled cfg e) : (W.apply C cfg e).SealsNumbered := by
  have hkeep : ∀ r ∈ W.sealed, ∃ p m n, (W.apply C cfg e).sendCount p = some (r.key, n) ∧
      m ≤ n ∧ m < 2 ^ 64 ∧ r.nonce = nonceFor m := by
    intro r hr
    obtain ⟨p, m, n, hs, hle, hlt, hnonce⟩ := h.counted r hr
    exact ⟨p, m, _, sendCount_apply C he hs, by omega, hlt, hnonce⟩
  rcases sealed_apply C he with hsame | ⟨q, r, n, hnew, hs, hseal, hnonce, hlt⟩
  · exact ⟨by rw [hsame]; exact hkeep, by rw [hsame]; exact h.distinct⟩
  · refine ⟨?_, ?_⟩
    · rw [hnew]
      intro r' hr'
      rcases List.mem_append.mp hr' with hr' | hr'
      · exact hkeep r' hr'
      · rw [List.mem_singleton.mp hr']
        refine ⟨q, n + 1, _, sendCount_apply C he hs, ?_, hlt, hnonce⟩
        simp [hseal]
    · rw [hnew, List.pairwise_append]
      refine ⟨h.distinct, List.pairwise_singleton _ _, ?_⟩
      intro a ha b hb hkey hnonces
      rw [List.mem_singleton.mp hb] at hkey hnonces
      obtain ⟨p, m, k, hs', hle, hlt', hnonce'⟩ := h.counted a ha
      rw [hkey] at hs'
      have hpq := sender_unique hd hi hs' hs
      rw [hpq, hs] at hs'
      cases hs'
      have hmn := nonceFor_inj hlt' hlt (hnonce'.symm.trans (hnonces.trans hnonce))
      omega

theorem sealsNumbered_of_reachable
    (run : (handshakeMachine C cfg).ReachableUnder (FreshNonces C cfg) W) :
    W.NoncesDistinct C cfg ∧ (W.HashesInjective C cfg → W.SealsNumbered) := by
  induction run with
  | start h =>
      cases h
      exact ⟨NoncesDistinct.start C cfg, fun _ => ⟨nofun, List.Pairwise.nil⟩⟩
  | @next W e _ he hf ih =>
      obtain ⟨hd, hs⟩ := ih
      refine ⟨hd.apply he hf, fun hi => ?_⟩
      have hi' : W.HashesInjective C cfg := hi.of_apply he
      exact (hs hi').apply hd hi' he

end World

/-- The salt of a key derivation determines its nonces and identifiers. -/
theorem saltInput_inj {m n m' n' a b a' b' : Bytes} (hm : m.length = 32) (hn : n.length = 32)
    (hm' : m'.length = 32) (hn' : n'.length = 32) (ha : ConfigFile.identifierRE a = true)
    (ha' : ConfigFile.identifierRE a' = true)
    (h : Crypto.saltInput m n a b = Crypto.saltInput m' n' a' b') :
    m = m' ∧ n = n' ∧ a = a' ∧ b = b' := by
  simp only [Crypto.saltInput, List.append_assoc] at h
  obtain ⟨rfl, hnonce⟩ := List.append_inj h (hm.trans hm'.symm)
  obtain ⟨rfl, hids⟩ := List.append_inj hnonce (hn.trans hn'.symm)
  -- The first zero byte ends the first identifier.
  have hzero := ConfigFile.notMem_of_identifier ha (b := 0) (by decide)
  have hzero' := ConfigFile.notMem_of_identifier ha' (b := 0) (by decide)
  obtain ⟨hid, hid'⟩ := Bytes.append_separator_inj hzero hzero' hids
  exact ⟨rfl, rfl, hid, hid'⟩

/-- No nonce of AES-GCM is used twice. In every run of the two nodes in which
handshake nonces are drawn afresh, and whatever the attacker delivers, if the
hash functions are injective on the derivations made, then no two calls of
`Seal` share a key and a nonce, and no key serves both directions. The salt
determines both nonces and both identifiers. -/
theorem seal_nonces_never_reused {C : Crypto} {cfg : NodeConfig} {W : World}
    (run : (handshakeMachine C cfg).ReachableUnder (World.FreshNonces C cfg) W)
    (hash : W.HashesInjective C cfg) :
    (W.sealed.Pairwise fun a b => a.key = b.key → a.nonce ≠ b.nonce) ∧
    (∀ p ∈ W.derivations, ∀ q ∈ W.derivations,
      (World.keysOf C cfg p).clientSend ≠ (World.keysOf C cfg q).serverSend) ∧
    (∀ m n m' n' a b a' b' : Bytes,
      m.length = 32 → n.length = 32 → m'.length = 32 → n'.length = 32 →
      ConfigFile.identifierRE a = true → ConfigFile.identifierRE b = true →
      ConfigFile.identifierRE a' = true → ConfigFile.identifierRE b' = true →
      Crypto.saltInput m n a b = Crypto.saltInput m' n' a' b' →
      m = m' ∧ n = n' ∧ a = a' ∧ b = b') := by
  obtain ⟨-, hs⟩ := World.sealsNumbered_of_reachable run
  refine ⟨(hs hash).distinct, fun p hp q hq => hash.directions hp hq, ?_⟩
  intro m n m' n' a b a' b' hm hn hm' hn' ha _ ha' _ h
  exact saltInput_inj hm hn hm' hn' ha ha' h

/-- The two confirmations of a completed handshake. -/
theorem seal_nonces_never_reused_confirmed :
    ∃ W, (handshakeMachine Crypto.sum sampleServer).ReachableUnder
      (World.FreshNonces Crypto.sum sampleServer) W ∧ W.sealed.length = 2 ∧
      W.HashesInjective Crypto.sum sampleServer ∧
      W.sealed.Pairwise fun a b => a.key = b.key → a.nonce ≠ b.nonce := by
  have hvalid : (helloFor sampleServer.peer (List.replicate 32 1) 0).Valid :=
    ⟨by decide, by decide, by decide, by decide, by decide⟩
  have hwelcome : (welcomeMessage sampleServer 0 (List.replicate 32 2) 0).Valid :=
    ⟨by decide, by decide, by decide, by decide, by decide⟩
  have pair : World.FreshPair
      (World.clientStart Crypto.sum sampleServer (List.replicate 32 1) (List.replicate 32 2))
      (World.serverStart Crypto.sum sampleServer (List.replicate 32 1) (List.replicate 32 2)) :=
    World.freshPair_start
  have run := (pair.server_sends (pair.server_reads (pair.client_sends
    (World.reachable_answered hvalid hwelcome)))).mono fun _ _ hideal => hideal.1
  have hkeys : (World.keysOf Crypto.sum sampleServer
      (List.replicate 32 1, List.replicate 32 2)).clientSend ≠ (World.keysOf Crypto.sum
      sampleServer (List.replicate 32 1, List.replicate 32 2)).serverSend := by decide +kernel
  refine ⟨_, run, rfl, ?_, (seal_nonces_never_reused run ?_).1⟩ <;>
    exact World.HashesInjective.of_single World.derivations_tcpPair hkeys

end UnknownTunnel.Transport
